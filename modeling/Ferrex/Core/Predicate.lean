import Mathlib.Data.List.Sort
import Ferrex.Core.Env

/-
  Predicate normalization: free-form predicates are mapped
  to the canonical names of their groups, exactly where a
  member matches and by string similarity otherwise.

  Main declarations:
    * `PredicateNormalizer`
    * `PredicateNormalizer.new`
    * `PredicateNormalizer.normalize`
-/

------------------------------------------------------------
-- Predicate Normalizer
------------------------------------------------------------

namespace Ferrex

namespace Core

/-
  A name, and the canonical predicate that it stands for.
-/
structure SynonymEntry where
  member : String
  canonical : String

/- The configured synonyms, as given and as looked up. -/
structure PredicateNormalizer where
  synonyms : List SynonymEntry
  lookup : List (String × String)

namespace PredicateNormalizer

variable {Vec F : Type}

/-
  Lower case, with every run of separators made one
  underscore.
-/
def textNormalize
    (env : Env Vec F)
    (s : String) : String :=
  normalizeText env s

/- A member that another group has keeps that group. -/
def addMember
    (canonical : String)
    (n : PredicateNormalizer)
    (member : String) : PredicateNormalizer :=
  if Table.HasKey Prod.fst member n.lookup then
    n
  else
    { synonyms := n.synonyms ++ [⟨member, canonical⟩]
      lookup := n.lookup ++ [(member, canonical)] }

/-
  One group of the configuration: the canonical name and its
  members.
-/
def addGroup
    (env : Env Vec F)
    (n : PredicateNormalizer)
    (group : String × List String) : PredicateNormalizer :=
  ((group.1 :: group.2).map (textNormalize env)).foldl
    (addMember group.1) n

/- Groups are taken in the order of their names. -/
def new
    (env : Env Vec F)
    (groups : List (String × List String)) :
    PredicateNormalizer :=
  (groups.insertionSort (fun a b => a.1 ≤ b.1)).foldl
    (addGroup env) ⟨[], []⟩

/- The closest synonym past the threshold, first of equals. -/
def bestSynonym
    (env : Env Vec F)
    (n : PredicateNormalizer)
    (text : String) : Option (String × Rat) :=
  n.synonyms.foldl
    (fun best entry =>
      let score := env.jaroWinkler text entry.member
      if fuzzyThreshold < score ∧
          ∀ b ∈ best, b.2 < score then
        some (entry.canonical, score)
      else
        best)
    none

/-
  The canonical name if there is one, and the normalised
  text otherwise.
-/
def normalize
    (env : Env Vec F)
    (n : PredicateNormalizer)
    (input : String) : String :=
  let text := textNormalize env input
  if text.isEmpty then
    text
  else
    match n.lookup.lookup text with
    | some canonical => canonical
    | none =>
        match n.bestSynonym env text with
        | some best => best.1
        | none => text

end PredicateNormalizer

end Core

end Ferrex
