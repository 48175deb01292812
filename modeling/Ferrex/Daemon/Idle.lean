import Mathlib.Tactic.Common

/-
  The counts that a daemon keeps of its connections, and the
  deadline for its idle exit.

  Main declarations:
    * `IdleState`, `IdleTimer`
    * `IdleState.settle`
    * `IdleTimer.update_armed_iff`
-/

------------------------------------------------------------
-- Counts
------------------------------------------------------------

namespace Ferrex

namespace Daemon

/- What the task of a connection reports. -/
inductive ConnEvent where
| helloPassed
| helloFailed
| ended
deriving DecidableEq

/-
  The connections that are greeted, and those in session.
-/
structure IdleState where
  initOk : Bool
  inHello : Nat
  active : Nat
deriving DecidableEq

/- At zero the count stays, and an error is logged. -/
def decrement (count : Nat) : Nat :=
  count - 1

namespace IdleState

/- Nothing is going on, and the daemon can do something. -/
def shouldArm (s : IdleState) : Bool :=
  s.initOk && decide (s.inHello = 0) && decide (s.active = 0)

/- A connection that was accepted is to be greeted. -/
def accepted (s : IdleState) : IdleState :=
  { s with inHello := s.inHello + 1 }

/- What becomes of a connection. -/
def apply (s : IdleState) : ConnEvent → IdleState
| .helloPassed =>
    { s with
      inHello := decrement s.inHello
      active := s.active + 1 }
| .helloFailed =>
    { s with inHello := decrement s.inHello }
| .ended => { s with active := decrement s.active }

/- The count that an event takes one off is not zero. -/
def Covers (s : IdleState) : ConnEvent → Prop
| .helloPassed => 0 < s.inHello
| .helloFailed => 0 < s.inHello
| .ended => 0 < s.active

instance (s : IdleState) (e : ConnEvent) :
    Decidable (s.Covers e) := by
  cases e <;> unfold Covers <;> infer_instance

/- The timer is armed when nothing is going on. -/
theorem shouldArm_iff
    {s : IdleState} :
    s.shouldArm = true ↔
      s.initOk = true ∧ s.inHello = 0 ∧ s.active = 0 := by
  simp [shouldArm, and_assoc]

/- Nothing can end where nothing is going on. -/
theorem not_covers_of_shouldArm
    {s : IdleState} {e : ConnEvent}
    (hArm : s.shouldArm = true) :
    ¬ s.Covers e := by
  rcases shouldArm_iff.mp hArm with ⟨_, hHello, hActive⟩
  cases e <;> simp [Covers, hHello, hActive]

------------------------------------------------------------
-- Pending Events
------------------------------------------------------------

/-
  The counts once all pending events have been applied, if
  none of them finds its count at zero.
-/
def settle : IdleState → List ConnEvent → Option IdleState
| s, [] => some s
| s, e :: es =>
    if s.Covers e then (s.apply e).settle es else none

/- A last event after the others. -/
theorem settle_append
    {s t : IdleState} {es : List ConnEvent} {e : ConnEvent}
    (hSettle : s.settle es = some t)
    (hCovers : t.Covers e) :
    s.settle (es ++ [e]) = some (t.apply e) := by
  induction es generalizing s with
  | nil =>
      cases hSettle
      simp [settle, hCovers]
  | cons f es ih =>
      rw [settle] at hSettle
      split at hSettle
      · rename_i hHead
        rw [List.cons_append, settle, if_pos hHead]
        exact ih hSettle
      · cases hSettle

/-
  The first event is covered, and so are the others after
  it.
-/
theorem covers_of_settle
    {s t : IdleState} {es : List ConnEvent} {e : ConnEvent}
    (hSettle : s.settle (e :: es) = some t) :
    s.Covers e ∧ (s.apply e).settle es = some t := by
  rw [settle] at hSettle
  split at hSettle
  · rename_i hCovers
    exact ⟨hCovers, hSettle⟩
  · cases hSettle

/- A change that no event is affected by comes through. -/
private theorem settle_map
    (f : IdleState → IdleState)
    (hCovers : ∀ s e, s.Covers e → (f s).Covers e)
    (hApply :
      ∀ s e, s.Covers e → (f s).apply e = f (s.apply e))
    {s t : IdleState} {es : List ConnEvent}
    (hSettle : s.settle es = some t) :
    (f s).settle es = some (f t) := by
  induction es generalizing s with
  | nil =>
      cases hSettle
      rfl
  | cons e es ih =>
      rcases covers_of_settle hSettle with ⟨hHead, hRest⟩
      rw [settle, if_pos (hCovers s e hHead),
        hApply s e hHead]
      exact ih hRest

/- A new connection is counted whatever is pending. -/
theorem settle_accepted
    {s t : IdleState} {es : List ConnEvent}
    (hSettle : s.settle es = some t) :
    s.accepted.settle es = some t.accepted := by
  refine settle_map accepted ?_ ?_ hSettle
  · intro s e hCovers
    cases e with
    | ended => exact hCovers
    | _ => exact Nat.lt_succ_of_lt hCovers
  · intro s e hCovers
    cases e with
    | ended => rfl
    | _ =>
        have hPos : 0 < s.inHello := hCovers
        simp only [apply, accepted, decrement,
          IdleState.mk.injEq, and_true, true_and]
        omega

/-
  That the daemon is ready does not count for connections.
-/
theorem settle_initOk
    {s t : IdleState} {es : List ConnEvent}
    (hSettle : s.settle es = some t) :
    IdleState.settle { s with initOk := true } es =
      some { t with initOk := true } := by
  refine settle_map (fun s => { s with initOk := true })
    ?_ ?_ hSettle
  · intro s e hCovers
    cases e <;> exact hCovers
  · intro s e _
    cases e <;> rfl

/- Connections do not make the daemon ready. -/
theorem initOk_of_settle
    {s t : IdleState} {es : List ConnEvent}
    (hSettle : s.settle es = some t) :
    t.initOk = s.initOk := by
  induction es generalizing s with
  | nil =>
      cases hSettle
      rfl
  | cons e es ih =>
      rw [ih (covers_of_settle hSettle).2]
      cases e <;> rfl

theorem settle_nil
    {s t : IdleState}
    (hSettle : s.settle [] = some t) :
    s = t :=
  Option.some.inj hSettle

/- With both counts at zero nothing can be pending. -/
theorem eq_nil_of_shouldArm
    {s t : IdleState} {es : List ConnEvent}
    (hArm : s.shouldArm = true)
    (hSettle : s.settle es = some t) :
    es = [] := by
  cases es with
  | nil => rfl
  | cons e es =>
      exact absurd (covers_of_settle hSettle).1
        (not_covers_of_shouldArm hArm)

end IdleState

------------------------------------------------------------
-- The Deadline
------------------------------------------------------------

/-
  The deadline is set when nothing is connected.  An accept
  suspends it, and it comes back unless a hello passes.
-/
structure IdleTimer where
  state : IdleState
  timeout : Nat
  deadline : Option Nat
  suspended : Option Nat
deriving DecidableEq

namespace IdleTimer

/- A timer before the daemon is ready. -/
def new (timeout : Nat) : IdleTimer where
  state := ⟨false, 0, 0⟩
  timeout := timeout
  deadline := none
  suspended := none

def shouldArm (t : IdleTimer) : Bool :=
  t.state.shouldArm

/- From then on the timer may be armed. -/
def initSucceeded (t : IdleTimer) : IdleTimer :=
  { t with state := { t.state with initOk := true } }

/- A connection suspends the deadline that there is. -/
def accepted (t : IdleTimer) : IdleTimer :=
  { t with
    state := t.state.accepted
    deadline := none
    suspended :=
      match t.deadline with
      | some deadline => some deadline
      | none => t.suspended }

/- A hello that passes ends a suspended deadline. -/
def apply (t : IdleTimer) (e : ConnEvent) : IdleTimer :=
  { t with
    state := t.state.apply e
    suspended :=
      if e = .helloPassed then none else t.suspended }

/- Arms or disarms the deadline to match the counts. -/
def update (t : IdleTimer) (now : Nat) : IdleTimer :=
  match t.shouldArm, t.deadline with
  | true, none =>
      { t with
        deadline :=
          some (t.suspended.getD (now + t.timeout))
        suspended := none }
  | false, some _ => { t with deadline := none }
  | _, _ => t

/- A fresh countdown, for an exit that could not go ahead. -/
def postpone (t : IdleTimer) (now : Nat) : IdleTimer :=
  { t with deadline := some (now + t.timeout) }

/- An update does not touch the counts. -/
theorem update_state
    (t : IdleTimer)
    (now : Nat) :
    (t.update now).state = t.state := by
  unfold update
  split <;> rfl

/- After an update the deadline matches the counts. -/
theorem update_armed_iff
    (t : IdleTimer)
    (now : Nat) :
    (t.update now).deadline.isSome = t.shouldArm := by
  unfold update
  split
  · rename_i hArm _
    rw [hArm]
    rfl
  · rename_i hArm _
    rw [hArm]
    rfl
  · rename_i hNot hNot'
    cases hArm : t.shouldArm with
    | true =>
        cases hDeadline : t.deadline with
        | none => exact absurd hDeadline (hNot hArm)
        | some d => rfl
    | false =>
        cases hDeadline : t.deadline with
        | none => rfl
        | some d => exact absurd hDeadline (hNot' d hArm)

/- The deadline that is set, or that an accept suspended. -/
def Keeps (t : IdleTimer) (deadline : Nat) : Prop :=
  (t.deadline = some deadline ∧ t.shouldArm = true) ∨
    (t.deadline = none ∧ t.suspended = some deadline)

variable {t : IdleTimer} {deadline : Nat}

/- A connection keeps the deadline in mind. -/
theorem Keeps.accepted
    (hKeeps : t.Keeps deadline) :
    t.accepted.Keeps deadline := by
  refine Or.inr ⟨rfl, ?_⟩
  rcases hKeeps with ⟨hSet, _⟩ | ⟨hNone, hSuspended⟩
  · simp [IdleTimer.accepted, hSet]
  · simp [IdleTimer.accepted, hNone, hSuspended]

/- A hello that fails keeps the deadline in mind. -/
theorem Keeps.apply
    {e : ConnEvent}
    (hKeeps : t.Keeps deadline)
    (hCovers : t.state.Covers e)
    (hFailed : e ≠ .helloPassed) :
    (t.apply e).Keeps deadline := by
  rcases hKeeps with ⟨_, hArm⟩ | ⟨hNone, hSuspended⟩
  · exact absurd hCovers
      (IdleState.not_covers_of_shouldArm hArm)
  · exact Or.inr ⟨hNone, by
      simp [IdleTimer.apply, hFailed, hSuspended]⟩

/- An update keeps it as well. -/
theorem Keeps.update
    (hKeeps : t.Keeps deadline)
    (now : Nat) :
    (t.update now).Keeps deadline := by
  unfold IdleTimer.update
  rcases hKeeps with ⟨hSet, hArm⟩ | ⟨hNone, hSuspended⟩
  · rw [hArm, hSet]
    exact Or.inl ⟨hSet, hArm⟩
  · rw [hNone]
    cases hArm : t.shouldArm with
    | true => exact Or.inl ⟨by simp [hSuspended], hArm⟩
    | false => exact Or.inr ⟨hNone, hSuspended⟩

end IdleTimer

end Daemon

end Ferrex
