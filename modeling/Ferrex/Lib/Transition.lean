import Mathlib.Data.List.Basic

/-
  Labelled transition systems, their finite runs, and the
  induction rules for properties of runs.

  Main declarations:
    * `Machine`
    * `Machine.Run`
    * `Machine.Run.invariant`
    * `Machine.Run.history_invariant`
    * `Machine.restrict`
    * `Machine.Run.of_restrict`
    * `Machine.ofNext`
    * `Machine.recorded`
-/

------------------------------------------------------------
-- Machines and Runs
------------------------------------------------------------

/-
  A labelled transition system: the states it can start in
  and the steps it can take, each with one event.
-/
structure Machine (State Event : Type) where
  initial : State → Prop
  step : State → Event → State → Prop

namespace Machine

variable {State Event : Type}

/- Finite runs, with the events of their steps in order. -/
inductive Run
    (M : Machine State Event)
    (s : State) : List Event → State → Prop
| nil : Run M s [] s
| snoc {t u : State} {es : List Event} {e : Event} :
    Run M s es t → M.step t e u →
      Run M s (es ++ [e]) u

/- States that some run from an initial state ends in. -/
def Reachable
    (M : Machine State Event)
    (s : State) : Prop :=
  ∃ s₀ es, M.initial s₀ ∧ M.Run s₀ es s

namespace Run

variable {M : Machine State Event}
variable {s t u : State} {es fs : List Event} {e : Event}

/- A single step is a run. -/
theorem single
    (hStep : M.step s e t) :
    M.Run s [e] t :=
  Run.snoc Run.nil hStep

/- Runs compose. -/
theorem append
    (hFirst : M.Run s es t)
    (hSecond : M.Run t fs u) :
    M.Run s (es ++ fs) u := by
  induction hSecond with
  | nil => simpa using hFirst
  | snoc _ hStep ih =>
      rw [← List.append_assoc]
      exact Run.snoc ih hStep

/- A run can be extended at its front. -/
theorem cons
    (hStep : M.step s e t)
    (hRun : M.Run t es u) :
    M.Run s (e :: es) u :=
  append (single hStep) hRun

theorem eq_of_nil
    (hRun : M.Run s [] t) :
    t = s := by
  generalize hEvents : [] = events at hRun
  cases hRun with
  | nil => rfl
  | snoc => simp at hEvents

/- A run that is not empty begins with a step. -/
theorem uncons
    (hRun : M.Run s (e :: es) u) :
    ∃ t, M.step s e t ∧ M.Run t es u := by
  generalize hEvents : e :: es = events at hRun
  induction hRun generalizing es with
  | nil => cases hEvents
  | @snoc t u fs f hFirst hStep ih =>
      cases fs with
      | nil =>
          cases hEvents
          rw [hFirst.eq_of_nil] at hStep
          exact ⟨u, hStep, Run.nil⟩
      | cons g fs =>
          obtain ⟨rfl, rfl⟩ := List.cons.inj hEvents
          rcases ih rfl with ⟨v, hStep', hRest⟩
          exact ⟨v, hStep', Run.snoc hRest hStep⟩

/- A run of two parts passes through a state between them. -/
theorem split
    (hRun : M.Run s (es ++ fs) u) :
    ∃ t, M.Run s es t ∧ M.Run t fs u := by
  induction es generalizing s with
  | nil => exact ⟨s, Run.nil, hRun⟩
  | cons e es ih =>
      rcases hRun.uncons with ⟨t, hStep, hRest⟩
      rcases ih hRest with ⟨v, hFirst, hSecond⟩
      exact ⟨v, hFirst.cons hStep, hSecond⟩

/-
  A property of states that every step preserves holds at
  the end of a run when it holds at its start.
-/
theorem invariant
    {I : State → Prop}
    (hStep :
      ∀ s e t, I s → M.step s e t → I t)
    (hRun : M.Run s es t)
    (hStart : I s) :
    I t := by
  induction hRun with
  | nil => exact hStart
  | snoc _ hLast ih => exact hStep _ _ _ ih hLast

/-
  The same rule for a property of the state together with
  the events so far.
-/
theorem history_invariant
    {I : List Event → State → Prop}
    (hStep :
      ∀ es s e t, I es s → M.step s e t →
        I (es ++ [e]) t)
    (hRun : M.Run s es t)
    (hStart : I [] s) :
    I es t := by
  induction hRun with
  | nil => exact hStart
  | snoc _ hLast ih => exact hStep _ _ _ _ ih hLast

end Run

------------------------------------------------------------
-- Restricted Machines
------------------------------------------------------------

/-
  The machine whose steps are those of `M` that meet a
  condition on the state before the step and its event.
-/
def restrict
    (M : Machine State Event)
    (guard : State → Event → Prop) :
    Machine State Event where
  initial := M.initial
  step s e t := M.step s e t ∧ guard s e

namespace Run

variable {M : Machine State Event}
variable {guard : State → Event → Prop}
variable {s t : State} {es : List Event}

/- A run of a restricted machine is a run of the machine. -/
theorem of_restrict
    (hRun : (M.restrict guard).Run s es t) :
    M.Run s es t := by
  induction hRun with
  | nil => exact Run.nil
  | snoc _ hStep ih => exact Run.snoc ih hStep.1

/-
  A run of the machine is one of the restricted machine when
  its events meet the condition in every state.
-/
theorem restrict
    (hRun : M.Run s es t)
    (guard : State → Event → Prop)
    (hGuard : ∀ e ∈ es, ∀ s, guard s e) :
    (M.restrict guard).Run s es t := by
  induction hRun with
  | nil => exact Run.nil
  | snoc _ hStep ih =>
      refine Run.snoc (ih ?_) ⟨hStep, hGuard _ (by simp) _⟩
      exact fun e he => hGuard e (List.mem_append_left _ he)

/-
  The invariant rule for a restricted machine: the step may
  use the condition.
-/
theorem restrict_invariant
    {I : State → Prop}
    (hStep :
      ∀ s e t, I s → M.step s e t → guard s e → I t)
    (hRun : (M.restrict guard).Run s es t)
    (hStart : I s) :
    I t :=
  Run.invariant
    (M := M.restrict guard)
    (fun s e t hI hBoth =>
      hStep s e t hI hBoth.1 hBoth.2)
    hRun hStart

/-
  One condition on the steps gives another one, along runs
  that keep an invariant.
-/
theorem restrict_mono
    {I : State → Prop}
    {guard' : State → Event → Prop}
    (hStep :
      ∀ s e t, I s → M.step s e t → guard s e → I t)
    (hGuard : ∀ s e, I s → guard s e → guard' s e)
    (hRun : (M.restrict guard).Run s es t)
    (hStart : I s) :
    (M.restrict guard').Run s es t := by
  have hBoth :
      I t ∧ (M.restrict guard').Run s es t := by
    induction hRun with
    | nil => exact ⟨hStart, Run.nil⟩
    | snoc _ hLast ih =>
        exact ⟨hStep _ _ _ ih.1 hLast.1 hLast.2,
          Run.snoc ih.2 ⟨hLast.1, hGuard _ _ ih.1 hLast.2⟩⟩
  exact hBoth.2

end Run

theorem Reachable.of_restrict
    {M : Machine State Event}
    {guard : State → Event → Prop}
    {s : State}
    (hReach : (M.restrict guard).Reachable s) :
    M.Reachable s := by
  rcases hReach with ⟨s₀, es, hStart, hRun⟩
  exact ⟨s₀, es, hStart, hRun.of_restrict⟩

------------------------------------------------------------
-- Machines That Compute
------------------------------------------------------------

/- The machine whose steps are those of a function. -/
def ofNext
    (initial : State → Prop)
    (next : State → Event → Option State) :
    Machine State Event where
  initial := initial
  step s e t := next s e = some t

/- Steps that are taken only as long as they pass a check. -/
def checked
    (next : State → Event → Option State)
    (check : State → Event → Bool)
    (s : State)
    (e : Event) : Option State :=
  if check s e then next s e else none

namespace Run

variable {initial : State → Prop}
variable {next : State → Event → Option State}

theorem of_foldlM
    {s t : State} {es : List Event}
    (h : es.foldlM next s = some t) :
    ((ofNext initial next).Run s es t) := by
  induction es generalizing s with
  | nil =>
      cases h
      exact .nil
  | cons e es ih =>
      rw [List.foldlM_cons] at h
      rcases Option.bind_eq_some_iff.mp h with
        ⟨u, hNext, hRest⟩
      exact Run.cons hNext (ih hRest)

/- A computed run to a state that passes a test. -/
theorem of_any
    (initial : State → Prop)
    (s : State)
    (es : List Event)
    (test : State → Bool)
    (h : (es.foldlM next s).any test = true) :
    ∃ t, (ofNext initial next).Run s es t ∧
      test t = true := by
  rcases (Option.any_eq_true _ _).mp h with
    ⟨t, hRun, hTest⟩
  exact ⟨t, of_foldlM hRun, hTest⟩

/- A computed run of steps that meet a condition. -/
theorem restrict_of_any
    {check : State → Event → Bool}
    {guard : State → Event → Prop}
    (initial : State → Prop)
    (s : State)
    (es : List Event)
    (test : State → Bool)
    (hCheck : ∀ s e, check s e = true → guard s e)
    (h :
      (es.foldlM (checked next check) s).any test = true) :
    ∃ t, ((ofNext initial next).restrict guard).Run s es t ∧
      test t = true := by
  rcases of_any initial s es test h with ⟨t, hRun, hTest⟩
  refine ⟨t, ?_, hTest⟩
  clear h hTest
  induction hRun with
  | nil => exact .nil
  | snoc _ hStep ih =>
      refine .snoc ih ?_
      change checked next check _ _ = _ at hStep
      unfold checked at hStep
      split at hStep
      · rename_i hPass
        exact ⟨hStep, hCheck _ _ hPass⟩
      · cases hStep

end Run

------------------------------------------------------------
-- Machines With a Record
------------------------------------------------------------

/- A machine together with a record that its steps extend. -/
def recorded
    {Record : Type}
    (M : Machine State Event)
    (empty : Record)
    (record : State → Event → State → Record → Record) :
    Machine (State × Record) Event where
  initial x := M.initial x.1 ∧ x.2 = empty
  step x e y :=
    M.step x.1 e y.1 ∧ y.2 = record x.1 e y.1 x.2

/- The steps of a machine that computes, with a record. -/
def recordedNext
    {Record : Type}
    (next : State → Event → Option State)
    (record : State → Event → State → Record → Record)
    (x : State × Record)
    (e : Event) : Option (State × Record) :=
  (next x.1 e).map (fun t => (t, record x.1 e t x.2))

namespace Run

variable {Record : Type} {empty : Record}
variable {record : State → Event → State → Record → Record}

/- A computed run, with its record, of checked steps. -/
theorem recorded_of_any
    {next : State → Event → Option State}
    {check : State × Record → Event → Bool}
    {guard : State × Record → Event → Prop}
    (initial : State → Prop)
    (x : State × Record)
    (es : List Event)
    (test : State × Record → Bool)
    (hCheck : ∀ x e, check x e = true → guard x e)
    (h :
      (es.foldlM
        (checked (recordedNext next record) check)
          x).any test = true) :
    ∃ y,
      (((ofNext initial next).recorded empty
        record).restrict guard).Run x es y ∧
          test y = true := by
  rcases restrict_of_any (fun _ => True) x es test hCheck h
    with ⟨y, hRun, hTest⟩
  refine ⟨y, ?_, hTest⟩
  clear h hTest
  induction hRun with
  | nil => exact .nil
  | snoc _ hStep ih =>
      rcases Option.map_eq_some_iff.mp hStep.1 with
        ⟨t, hNext, rfl⟩
      exact .snoc ih ⟨⟨hNext, rfl⟩, hStep.2⟩

end Run

end Machine
