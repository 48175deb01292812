import Ferrex.Core.Env

/-
  Matching of entity names against the registry.

  Main declarations:
    * `Entity.normalize`
    * `Entity.bestFuzzyMatch`
    * `Entity.findEntityByPointId`
-/

------------------------------------------------------------
-- Entity Matching
------------------------------------------------------------

namespace Ferrex

namespace Core

open Store

namespace Entity

variable {Vec F : Type}

/- The form of a name under which an entity is kept. -/
def normalize (env : Env Vec F) (name : String) : String :=
  normalizeText env name

/- The last of the highest-scored candidates. -/
def maxByScore
    (candidates : List (Store.Entity × Rat)) :
    Option (Store.Entity × Rat) :=
  candidates.foldl
    (fun best c =>
      match best with
      | none => some c
      | some b => if b.2 ≤ c.2 then some c else some b)
    none

/- Every entity, under its name and under its aliases. -/
def bestFuzzyMatch
    (env : Env Vec F)
    (name : String)
    (entities : List Store.Entity)
    (threshold : Rat) : Option (Store.Entity × Rat) :=
  maxByScore
    ((entities.flatMap
      (fun entity =>
        (entity.name :: entity.aliases).map
          (fun candidate =>
            (entity, env.jaroWinkler candidate name)))).filter
      (fun c => threshold < c.2))

/- The entity whose id is that of the point. -/
def findEntityByPointId
    (entities : List Store.Entity)
    (pointId : String) : Option Store.Entity :=
  entities.find? (fun e => e.id = pointId)

/- A match is one of the entities matched against. -/
theorem mem_of_bestFuzzyMatch
    {env : Env Vec F} {name : String}
    {entities : List Store.Entity} {threshold : Rat}
    {best : Store.Entity × Rat}
    (h :
      bestFuzzyMatch env name entities threshold =
        some best) :
    best.1 ∈ entities := by
  have hMem :
      ∀ (cs : List (Store.Entity × Rat))
        (acc : Option (Store.Entity × Rat)),
        (∀ b ∈ acc, b.1 ∈ entities) →
        (∀ c ∈ cs, c.1 ∈ entities) →
          ∀ b ∈ cs.foldl
            (fun best c =>
              match best with
              | none => some c
              | some b =>
                  if b.2 ≤ c.2 then some c else some b)
            acc, b.1 ∈ entities := by
    intro cs
    induction cs with
    | nil => exact fun acc hAcc _ => hAcc
    | cons c cs ih =>
        intro acc hAcc hcs
        refine ih _ ?_ (fun x hx => hcs x (by simp [hx]))
        have hc := hcs c (by simp)
        cases acc with
        | none => simpa using hc
        | some b =>
            intro x hx
            dsimp only at hx
            split at hx
            · cases hx
              exact hc
            · cases hx
              exact hAcc b rfl
  apply hMem _ none (by simp) _ best h
  intro c hc
  simp only [List.mem_filter, List.mem_flatMap,
    List.mem_map] at hc
  rcases hc with ⟨⟨e, he, candidate, _, rfl⟩, _⟩
  exact he

/- What is found is in the list. -/
theorem mem_of_findEntityByPointId
    {entities : List Store.Entity} {pointId : String}
    {e : Store.Entity}
    (h : findEntityByPointId entities pointId = some e) :
    e ∈ entities :=
  List.mem_of_find?_eq_some h

end Entity

end Core

end Ferrex
