import Mathlib.Order.Basic

/-
  A counting semaphore with one waiter at a time.  Permits
  that are released go to the waiter first, which keeps those
  that it has got until it has all and takes them, or gives
  them back.

  Main declarations:
    * `Semaphore`, `Semaphore.total`
    * `Semaphore.tryAcquire`, `Semaphore.enqueue`
    * `Semaphore.release`, `Semaphore.take`
    * `Semaphore.cancel`
-/

------------------------------------------------------------
-- Semaphores
------------------------------------------------------------

namespace Ferrex

/-
  A task that waits for permits, and what it has been given
  of them.
-/
structure Waiter where
  needed : Nat
  got : Nat
  got_le : got ≤ needed
deriving DecidableEq

/- While its waiter lacks permits, none are free. -/
structure Semaphore where
  permits : Nat
  waiter : Option Waiter
  eager :
    ∀ w, waiter = some w → w.got < w.needed → permits = 0
deriving DecidableEq

namespace Semaphore

/- All permits are free at the start, and nobody waits. -/
def new (n : Nat) : Semaphore where
  permits := n
  waiter := none
  eager := fun _ h => nomatch h

/- The permits that the waiter has got so far. -/
def got (s : Semaphore) : Nat :=
  (s.waiter.map Waiter.got).getD 0

/- All permits that nobody has taken. -/
def total (s : Semaphore) : Nat :=
  s.permits + s.got

/- The waiter lacks permits. -/
def Lacks (s : Semaphore) : Prop :=
  ∃ w, s.waiter = some w ∧ w.got < w.needed

/- Permits are taken at once, if enough are free. -/
def tryAcquire
    (s : Semaphore)
    (n : Nat) : Option Semaphore :=
  if n ≤ s.permits then
    some
      { permits := s.permits - n
        waiter := s.waiter
        eager := fun w hWaiter hLacks => by
          rw [s.eager w hWaiter hLacks, Nat.zero_sub] }
  else
    none

/- A waiter gets what is free, up to what it needs. -/
def enqueue
    (s : Semaphore)
    (n : Nat) : Option Semaphore :=
  match s.waiter with
  | some _ => none
  | none =>
      some
        { permits := s.permits - n
          waiter :=
            some ⟨n, min n s.permits, Nat.min_le_left _ _⟩
          eager := fun w hWaiter hLacks => by
            cases hWaiter
            dsimp only at hLacks
            omega }

/- Permits that come back go to the waiter first. -/
def release (s : Semaphore) (n : Nat) : Semaphore :=
  match hWaiter : s.waiter with
  | none =>
      { permits := s.permits + n
        waiter := none
        eager := fun _ h => nomatch h }
  | some w =>
      { permits := s.permits + (n - (w.needed - w.got))
        waiter :=
          some ⟨w.needed, w.got + min n (w.needed - w.got), by
            have hLe := w.got_le
            omega⟩
        eager := fun w' hSome hLacks => by
          cases hSome
          dsimp only at hLacks
          have hNone := s.eager w hWaiter
          omega }

/- The waiter takes its permits once it has all. -/
def take (s : Semaphore) : Option (Nat × Semaphore) :=
  match s.waiter with
  | some w =>
      if w.got = w.needed then
        some (w.needed, .new s.permits)
      else
        none
  | none => none

/- A waiter that gives up returns what it was given. -/
def cancel (s : Semaphore) : Semaphore :=
  .new s.total

------------------------------------------------------------
-- Permits Are Kept
------------------------------------------------------------

variable {s t : Semaphore} {n k : Nat}

/- All permits are there at the start. -/
@[simp] theorem total_new : (new n).total = n :=
  rfl

/- Nobody waits at the start. -/
@[simp] theorem waiter_new : (new n).waiter = none :=
  rfl

/- What the waiter holds is counted. -/
theorem total_of_waiter
    {w : Waiter}
    (hWaiter : s.waiter = some w) :
    s.total = s.permits + w.got := by
  unfold total got
  rw [hWaiter]
  rfl

/- Without a waiter only the free ones are. -/
theorem total_of_none
    (hNone : s.waiter = none) :
    s.total = s.permits := by
  unfold total got
  rw [hNone]
  rfl

/-
  An acquisition takes what it was asked for from the total.
-/
theorem tryAcquire_eq_some
    (hAcquired : s.tryAcquire n = some t) :
    t.total + n = s.total ∧ t.waiter = s.waiter := by
  unfold tryAcquire at hAcquired
  split at hAcquired
  · cases hAcquired
    refine ⟨?_, rfl⟩
    unfold total got
    dsimp only
    omega
  · cases hAcquired

/- Waiting takes nothing from it. -/
theorem enqueue_eq_some
    (hQueued : s.enqueue n = some t) :
    t.total = s.total ∧
      ∃ w, t.waiter = some w ∧ w.needed = n := by
  unfold enqueue at hQueued
  split at hQueued
  · cases hQueued
  · rename_i hNone
    cases hQueued
    refine ⟨?_, _, rfl, rfl⟩
    rw [total_of_none hNone]
    unfold total got
    dsimp only [Option.map_some, Option.getD_some]
    omega

/- A release adds what it returns. -/
@[simp] theorem total_release :
    (s.release n).total = s.total + n := by
  unfold release
  split
  · rename_i hNone
    rw [total_of_none hNone]
    rfl
  · rename_i w hWaiter
    have hLe := w.got_le
    rw [total_of_waiter hWaiter]
    unfold total got
    dsimp only [Option.map_some, Option.getD_some]
    omega

/- A release keeps the waiter waiting for as much. -/
theorem needed_release :
    (s.release n).waiter.map Waiter.needed =
      s.waiter.map Waiter.needed := by
  unfold release
  split
  · rename_i hNone
    exact (congrArg (Option.map Waiter.needed) hNone).symm
  · rename_i w hWaiter
    exact (congrArg (Option.map Waiter.needed) hWaiter).symm

/- The waiter leaves with exactly what it needed. -/
theorem take_eq_some
    (hTaken : s.take = some (n, t)) :
    t.total + n = s.total ∧ t.waiter = none ∧
      ∃ w, s.waiter = some w ∧ w.needed = n := by
  unfold take at hTaken
  split at hTaken
  · rename_i w hWaiter
    split at hTaken
    · rename_i hAll
      cases hTaken
      rw [total_of_waiter hWaiter, hAll]
      exact ⟨rfl, rfl, w, hWaiter, rfl⟩
    · cases hTaken
  · cases hTaken

/- A waiter that lacks nothing goes on. -/
theorem take_isSome
    {w : Waiter}
    (hWaiter : s.waiter = some w)
    (hAll : ¬ s.Lacks) :
    s.take = some (w.needed, .new s.permits) := by
  have hGot : w.got = w.needed := by
    have hLe := w.got_le
    have hNot : ¬ w.got < w.needed :=
      fun h => hAll ⟨w, hWaiter, h⟩
    omega
  unfold take
  rw [hWaiter]
  exact if_pos hGot

/- A waiter that lacks permits has got all that are left. -/
theorem total_lt_of_lacks
    {w : Waiter}
    (hWaiter : s.waiter = some w)
    (hLacks : s.Lacks) :
    s.total < w.needed := by
  rcases hLacks with ⟨w', hSame, hLess⟩
  rw [hWaiter] at hSame
  cases hSame
  rw [total_of_waiter hWaiter, s.eager w hWaiter hLess,
    Nat.zero_add]
  exact hLess

end Semaphore

end Ferrex
