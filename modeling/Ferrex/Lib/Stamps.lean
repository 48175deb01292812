import Mathlib.Data.List.Basic

/-
  Stamped reads.  A writer bumps the counter of its scope
  once its write is done; a reader takes the counter before
  it reads and keeps what it has read with that stamp.  Later
  the stamp is compared with the counter again: when they are
  equal, no bump lies between the two readings.

  Main declarations:
    * `Stamps.Log`, `Log.count`, `Log.bump`
    * `Log.Covers`, `Log.Sees`
    * `Log.fresh`
-/

------------------------------------------------------------
-- Bumps
------------------------------------------------------------

namespace Stamps

/- A bump, with the value of the counter after it. -/
structure Bump (Scope : Type) where
  scope : Scope
  number : Nat
  time : Nat
deriving DecidableEq

/- All bumps so far. -/
abbrev Log (Scope : Type) := List (Bump Scope)

namespace Log

variable {Scope : Type} [DecidableEq Scope]
variable {log : Log Scope} {s s' : Scope}
variable {stamp read lookup now : Nat}

/- The counter of a scope. -/
def count (log : Log Scope) (s : Scope) : Nat :=
  log.countP (fun b => b.scope = s)

def bump
    (log : Log Scope)
    (s : Scope)
    (now : Nat) : Log Scope :=
  log ++ [⟨s, log.count s + 1, now⟩]

theorem count_bump
    (log : Log Scope)
    (s s' : Scope)
    (now : Nat) :
    (log.bump s' now).count s =
      if s = s' then log.count s + 1 else log.count s := by
  unfold bump count
  rw [List.countP_append]
  by_cases hEq : s = s'
  · simp [hEq]
  · simp [hEq, Ne.symm hEq]

/- What holds of every log that bumps have built. -/
structure Valid (log : Log Scope) (now : Nat) : Prop where
  past : ∀ b ∈ log, b.time < now
  counted : ∀ b ∈ log, b.number ≤ log.count b.scope

theorem Valid.nil : Valid ([] : Log Scope) now where
  past _ h := by cases h
  counted _ h := by cases h

omit [DecidableEq Scope] in
private theorem mem_snoc
    {b b' : Bump Scope}
    (h : b ∈ log ++ [b']) :
    b ∈ log ∨ b = b' := by
  simpa using h

theorem Valid.bump
    (hValid : log.Valid now)
    (s : Scope) :
    (log.bump s now).Valid (now + 1) where
  past b hb := by
    rcases mem_snoc hb with hOld | rfl
    · exact Nat.lt_succ_of_lt (hValid.past b hOld)
    · exact Nat.lt_succ_self _
  counted b hb := by
    rw [count_bump]
    rcases mem_snoc hb with hOld | rfl
    · have hLe := hValid.counted b hOld
      split <;> omega
    · simp

theorem Valid.wait
    (hValid : log.Valid now) :
    log.Valid (now + 1) where
  past b hb := Nat.lt_succ_of_lt (hValid.past b hb)
  counted := hValid.counted

------------------------------------------------------------
-- Stamps
------------------------------------------------------------

/- Bumps up to the stamp were over when the reads began. -/
structure Covers
    (log : Log Scope)
    (s : Scope)
    (stamp read : Nat) : Prop where
  le : stamp ≤ log.count s
  before :
    ∀ b ∈ log, b.scope = s → b.number ≤ stamp →
      b.time < read

/- Bumps before the lookup are counted in the stamp. -/
def Sees
    (log : Log Scope)
    (s : Scope)
    (stamp lookup : Nat) : Prop :=
  ∀ b ∈ log, b.scope = s → b.time < lookup →
    b.number ≤ stamp

/- A stamp that is taken before the reads begin. -/
theorem Covers.of_count
    (hValid : log.Valid now)
    (hRead : now ≤ read) :
    log.Covers s (log.count s) read where
  le := Nat.le_refl _
  before b hb _ _ :=
    Nat.lt_of_lt_of_le (hValid.past b hb) hRead

theorem Covers.mono
    {later : Nat}
    (hCovers : log.Covers s stamp read)
    (hLater : read ≤ later) :
    log.Covers s stamp later where
  le := hCovers.le
  before b hb hScope hNumber :=
    Nat.lt_of_lt_of_le
      (hCovers.before b hb hScope hNumber) hLater

/- The next bump of its scope makes a stamp stale. -/
theorem Covers.bump
    (hCovers : log.Covers s stamp read)
    (s' : Scope)
    (now : Nat) :
    (log.bump s' now).Covers s stamp read where
  le := by
    have hLe := hCovers.le
    rw [count_bump]
    split <;> omega
  before b hb hScope hNumber := by
    rcases mem_snoc hb with hOld | rfl
    · exact hCovers.before b hOld hScope hNumber
    · have hLe := hCovers.le
      cases hScope
      exact absurd (Nat.le_trans hNumber hLe)
        (Nat.not_succ_le_self _)

/- A stamp that is taken once the lookup has begun. -/
theorem Sees.of_count
    (hValid : log.Valid now) :
    log.Sees s (log.count s) lookup := by
  intro b hb hScope _
  rw [← hScope]
  exact hValid.counted b hb

theorem Sees.bump
    (hSees : log.Sees s stamp lookup)
    (hPast : lookup ≤ now)
    (s' : Scope) :
    (log.bump s' now).Sees s stamp lookup := by
  intro b hb hScope hTime
  rcases mem_snoc hb with hOld | rfl
  · exact hSees b hOld hScope hTime
  · exact absurd hTime (Nat.not_lt.mpr hPast)

/-
  Equal stamps: what was bumped before the lookup was so
  before the reads.
-/
theorem fresh
    (hCovers : log.Covers s stamp read)
    (hSees : log.Sees s stamp lookup) :
    ∀ b ∈ log, b.scope = s → b.time < lookup →
      b.time < read :=
  fun b hb hScope hTime =>
    hCovers.before b hb hScope (hSees b hb hScope hTime)

end Log

end Stamps
