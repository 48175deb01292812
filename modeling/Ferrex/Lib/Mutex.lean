import Mathlib.Logic.Function.Basic

/-
  An exclusive lock: at most one agent owns it, and an agent
  is in its critical section exactly while it does.

  Main declarations:
    * `Guarded`, `Guarded.unique`
    * `Guarded.keep`, `Guarded.take`, `Guarded.release`
    * `Moves`, `Guarded.moves`
-/

------------------------------------------------------------
-- Owners
------------------------------------------------------------

namespace Ferrex

namespace Mutex

variable {Agent : Type}

/- The agents in their critical section are the owner. -/
def Guarded
    (owner : Option Agent)
    (inside : Agent → Prop) : Prop :=
  ∀ i, inside i ↔ owner = some i

namespace Guarded

variable {owner : Option Agent}
variable {inside inside' : Agent → Prop}
variable {i j : Agent}

theorem unique
    (hGuarded : Guarded owner inside)
    (hFirst : inside i)
    (hSecond : inside j) :
    i = j := by
  rw [hGuarded i] at hFirst
  rw [hGuarded j, hFirst] at hSecond
  exact Option.some.inj hSecond

/- While one agent is inside, no other one is. -/
theorem not_inside
    (hGuarded : Guarded owner inside)
    (hInside : inside i)
    (hOther : j ≠ i) :
    ¬ inside j :=
  fun h => hOther (hGuarded.unique h hInside)

------------------------------------------------------------
-- Steps of One Agent
------------------------------------------------------------

/- The agent stays inside, or outside. -/
theorem keep
    (hGuarded : Guarded owner inside)
    (hOthers : ∀ j, j ≠ i → (inside' j ↔ inside j))
    (hSame : inside' i ↔ inside i) :
    Guarded owner inside' := by
  intro j
  by_cases hEq : j = i
  · rw [hEq, hSame]
    exact hGuarded i
  · rw [hOthers j hEq]
    exact hGuarded j

/- The agent goes in when nobody is. -/
theorem take
    (hGuarded : Guarded owner inside)
    (hFree : owner = none)
    (hOthers : ∀ j, j ≠ i → (inside' j ↔ inside j))
    (hIn : inside' i) :
    Guarded (some i) inside' := by
  intro j
  by_cases hEq : j = i
  · rw [hEq]
    exact ⟨fun _ => rfl, fun _ => hIn⟩
  · rw [hOthers j hEq, hGuarded j, hFree]
    constructor
    · intro h
      cases h
    · intro h
      exact absurd (Option.some.inj h).symm hEq

/- The agent goes out. -/
theorem release
    (hGuarded : Guarded owner inside)
    (hInside : inside i)
    (hOthers : ∀ j, j ≠ i → (inside' j ↔ inside j))
    (hOut : ¬ inside' i) :
    Guarded none inside' := by
  intro j
  by_cases hEq : j = i
  · rw [hEq]
    exact ⟨fun h => absurd h hOut, fun h => by cases h⟩
  · rw [hOthers j hEq]
    exact ⟨fun h => absurd h (hGuarded.not_inside hInside hEq),
      fun h => by cases h⟩

end Guarded

/- One agent stays where it is, goes in, or goes out. -/
inductive Moves
    (owner : Option Agent)
    (inside inside' : Agent → Prop)
    (i : Agent) : Option Agent → Prop
| keep (hSame : inside' i ↔ inside i) :
    Moves owner inside inside' i owner
| take (hFree : owner = none) (hIn : inside' i) :
    Moves owner inside inside' i (some i)
| release (hInside : inside i) (hOut : ¬ inside' i) :
    Moves owner inside inside' i none

theorem Guarded.moves
    {owner owner' : Option Agent}
    {inside inside' : Agent → Prop}
    {i : Agent}
    (hGuarded : Guarded owner inside)
    (hOthers : ∀ j, j ≠ i → (inside' j ↔ inside j))
    (hMoves : Moves owner inside inside' i owner') :
    Guarded owner' inside' := by
  cases hMoves with
  | keep hSame => exact hGuarded.keep hOthers hSame
  | take hFree hIn => exact hGuarded.take hFree hOthers hIn
  | release hInside hOut =>
      exact hGuarded.release hInside hOthers hOut

end Mutex

end Ferrex
