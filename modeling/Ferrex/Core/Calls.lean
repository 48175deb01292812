import Ferrex.Core.Effect
import Ferrex.Core.Service

/-
  What holds of each call on its own: the rule for
  properties of tasks that every step of a call preserves,
  and the request that a context belongs to.

  Main declarations:
    * `System.calls_next`
    * `System.tasks_next`, `System.live_next`
    * `StoreContext.Of`, `Task.Fits`, `System.Fits`
-/

------------------------------------------------------------
-- The Clock
------------------------------------------------------------

namespace Ferrex

namespace Core

open Store

variable {Vec F : Type}
variable {env : Env Vec F} {service : MemoryService F}

/- Time goes on only between the steps of calls. -/
theorem StoreStage.Effect.clock_eq
    {w w' : World Vec} {st st' : StoreStage Vec F}
    (hEffect : StoreStage.Effect env service w st w' st') :
    w'.clock = w.clock := by
  cases hEffect with
  | start hQuiet => exact hQuiet.clock
  | prepare _ _ _ _ hQuiet => exact hQuiet.clock
  | createEntity _ _ _ _ hQuiet => exact hQuiet.clock
  | entityPoint _ _ _ _ _ hQuiet => exact hQuiet.clock
  | stop hQuiet => exact hQuiet.clock
  | _ => rfl

/- A step of a forget leaves the clock alone. -/
theorem ForgetStage.step_clock
    (w : World Vec)
    (st : ForgetStage F) :
    (st.step env w).1.clock = w.clock := by
  cases st with
  | lookup p =>
      simp only [ForgetStage.step]
      split
      · rfl
      · split <;> rfl
  | insertOp p target =>
      simp only [ForgetStage.step]
      split <;> rfl
  | delete p target opId startedAt =>
      simp only [ForgetStage.step]
      split <;> rfl
  | _ => rfl

/- A step of a recovery leaves the clock alone. -/
theorem RecoveryStage.step_clock
    {w w' : World Vec} {st st' : RecoveryStage}
    (h : st.step env w = .ok (w', st')) :
    w'.clock = w.clock := by
  cases st with
  | check report ops =>
      cases ops with
      | nil =>
          cases h
          rfl
      | cons op ops =>
          simp only [RecoveryStage.step] at h
          split at h <;> cases h <;> rfl
  | deletePoint report op uuid ops =>
      simp only [RecoveryStage.step] at h
      split at h
      · cases h
      · cases h
        rfl
  | _ =>
      cases h
      rfl

variable [LE F] [LT F] [DecidableLE F] [DecidableLT F]
variable {s t : System Vec F} {e : Event F}

/- A step of any call leaves the clock alone. -/
theorem Task.step_clock
    (w : World Vec)
    (task : Task Vec F) :
    (task.step env service w).1.clock = w.clock := by
  cases task with
  | store req st =>
      exact (StoreStage.step_effect _ _ w st).clock_eq
  | forget ids st => exact ForgetStage.step_clock w st

/- The clock never goes back. -/
theorem System.clock_le
    (hNext : s.next env service e = some t) :
    s.world.clock ≤ t.world.clock := by
  cases System.next_eq_some hNext with
  | tick d => exact Int.le_add_of_nonneg_right (Int.natCast_nonneg d)
  | step i task _ => exact (task.step_clock s.world).ge
  | recover _ _ w _ hStep =>
      exact (RecoveryStage.step_clock hStep).ge
  | _ => exact le_rfl

/-
  Where a call of the next state comes from: it was there,
  it begins, or it has moved on.
-/
theorem System.calls_next
    {i : Nat} {call : Call Vec F}
    (hNext : s.next env service e = some t)
    (hCall : t.calls i = some call) :
    (∃ old, s.calls i = some old ∧ call.task = old.task) ∨
      (∃ req, e = .store i req ∧
        call.task = .store req (.ensure req)) ∨
      (∃ ids, e = .forget i ids ∧
        call.task = .forget ids (.start env ids)) ∨
      (∃ task, e = .step i ∧ s.live i = some task ∧
        call.task = (task.step env service s.world).2) ∨
      (∃ task err, e = .fail i err ∧
        s.live i = some task ∧
          call.task = task.fail err) := by
  have hSet :
      ∀ {j : Nat} {w : World Vec} {task : Task Vec F},
        (s.setTask j w task).calls i = some call →
          (i = j ∧ call.task = task) ∨
            s.calls i = some call := by
    intro j w task h
    rw [System.calls_setTask] at h
    split at h
    · rename_i hEq
      cases h
      exact Or.inl ⟨hEq, rfl⟩
    · exact Or.inr h
  cases System.next_eq_some hNext with
  | store j req _ _ =>
      rcases hSet hCall with ⟨rfl, hTask⟩ | hOld
      · exact Or.inr (Or.inl ⟨req, rfl, hTask⟩)
      · exact Or.inl ⟨call, hOld, rfl⟩
  | forget j ids _ _ =>
      rcases hSet hCall with ⟨rfl, hTask⟩ | hOld
      · exact Or.inr (Or.inr (Or.inl ⟨ids, rfl, hTask⟩))
      · exact Or.inl ⟨call, hOld, rfl⟩
  | step j task hLive =>
      rcases hSet (w := (task.step env service s.world).1)
          hCall with ⟨rfl, hTask⟩ | hOld
      · exact Or.inr (Or.inr (Or.inr (Or.inl
          ⟨task, rfl, hLive, hTask⟩)))
      · exact Or.inl ⟨call, hOld, rfl⟩
  | fail j task err hLive _ =>
      rcases hSet hCall with ⟨rfl, hTask⟩ | hOld
      · exact Or.inr (Or.inr (Or.inr (Or.inr
          ⟨task, err, rfl, hLive, hTask⟩)))
      · exact Or.inl ⟨call, hOld, rfl⟩
  | crash =>
      rcases Option.map_eq_some_iff.mp hCall with
        ⟨old, hOld, rfl⟩
      exact Or.inl ⟨old, hOld, rfl⟩
  | _ => exact Or.inl ⟨call, hCall, rfl⟩

------------------------------------------------------------
-- Properties of Tasks
------------------------------------------------------------

/-
  A property of tasks, as of a time, that holds of every
  call as it begins and that each step of a call, its
  failure and the passing of time preserve.
-/
structure TaskInvariant
    (env : Env Vec F)
    (service : MemoryService F)
    (P : DateTime → Task Vec F → Prop) : Prop where
  store : ∀ c req, P c (.store req (.ensure req))
  forget :
    ∀ c ids, P c (.forget ids (ForgetStage.start env ids))
  step :
    ∀ (w : World Vec) task, P w.clock task →
      P w.clock (task.step env service w).2
  fail : ∀ c task e, P c task → P c (task.fail e)
  mono : ∀ c c' task, c ≤ c' → P c task → P c' task

/- An invariant of single calls is one of the system. -/
theorem System.tasks_next
    {P : DateTime → Task Vec F → Prop}
    (hP : TaskInvariant env service P)
    (hNext : s.next env service e = some t)
    (hs :
      ∀ i call, s.calls i = some call →
        P s.world.clock call.task) :
    ∀ i call, t.calls i = some call →
      P t.world.clock call.task := by
  intro i call hCall
  have hLe := System.clock_le hNext
  rcases System.calls_next hNext hCall with
    ⟨old, hOld, hSame⟩ | ⟨req, _, hStart⟩ |
      ⟨ids, _, hStart⟩ | ⟨task, _, hLive, hStep⟩ |
        ⟨task, err, _, hLive, hFail⟩
  · rw [hSame]
    exact hP.mono _ _ _ hLe (hs i old hOld)
  · rw [hStart]
    exact hP.store _ _
  · rw [hStart]
    exact hP.forget _ _
  · have hTask := hs i _ (System.live_eq_some hLive).2
    rw [hStep]
    exact hP.mono _ _ _ hLe (hP.step _ _ hTask)
  · have hTask := hs i _ (System.live_eq_some hLive).2
    rw [hFail]
    exact hP.fail _ _ _ (hP.mono _ _ _ hLe hTask)

/-
  What an event is to a call that runs: nothing, a step of
  the call, its failure, or its end in a crash.
-/
theorem System.live_next
    {i : Nat} {task : Task Vec F}
    (hNext : s.next env service e = some t)
    (hLive : s.live i = some task) :
    t.live i = some task ∨
      (e = .step i ∧
        t.live i =
          some (task.step env service s.world).2) ∨
      (∃ err, e = .fail i err ∧
        t.live i = some (task.fail err)) ∨
      e = .crash := by
  rcases System.live_eq_some hLive with ⟨hMode, hCall⟩
  have hOther :
      ∀ {j : Nat} {w : World Vec} {task' : Task Vec F},
        i ≠ j → (s.setTask j w task').live i = some task := by
    intro j w task' hNe
    rw [System.live_setTask hMode, if_neg hNe, hLive]
  cases System.next_eq_some hNext with
  | tick d => exact Or.inl hLive
  | store j req _ hNone =>
      refine Or.inl (hOther ?_)
      rintro rfl
      simp [hCall] at hNone
  | forget j ids _ hNone =>
      refine Or.inl (hOther ?_)
      rintro rfl
      simp [hCall] at hNone
  | step j task' hLive' =>
      rw [System.live_setTask_committed hMode]
      by_cases hEq : i = j
      · subst hEq
        obtain rfl := Option.some.inj (hLive.symm.trans hLive')
        exact Or.inr (Or.inl ⟨rfl, if_pos rfl⟩)
      · exact Or.inl (by rw [if_neg hEq, hLive])
  | fail j task' err hLive' _ =>
      by_cases hEq : i = j
      · subst hEq
        obtain rfl := Option.some.inj (hLive.symm.trans hLive')
        exact Or.inr (Or.inr (Or.inl ⟨err, rfl,
          by rw [System.live_setTask hMode, if_pos rfl]⟩))
      · exact Or.inl (hOther hEq)
  | crash => exact Or.inr (Or.inr (Or.inr rfl))
  | restart hDown => simp [hMode] at hDown
  | recover _ _ _ hDown _ => simp [hMode] at hDown
  | recovered _ hDown => simp [hMode] at hDown

/- The call whose step an event is. -/
theorem System.live_step
    {i : Nat} {task : Task Vec F}
    (hNext : s.next env service (.step i) = some t)
    (hLive : s.live i = some task) :
    t.live i = some (task.step env service s.world).2 := by
  cases System.next_eq_some hNext with
  | step _ task' hLive' =>
      cases hLive.symm.trans hLive'
      rw [System.live_setTask_committed
        (System.live_eq_some hLive).1, if_pos rfl]

------------------------------------------------------------
-- Contexts and Their Requests
------------------------------------------------------------

/- What a context has from its request, at every stage. -/
structure StoreContext.Of
    (service : MemoryService F)
    (req : StoreRequest)
    (ctx : StoreContext Vec F) : Prop where
  request : ctx.req = req
  «namespace» : ctx.namespace = service.requestNamespace req
  memoryType : ctx.memoryType = detectMemoryType req

omit [LE F] [LT F] [DecidableLE F] [DecidableLT F] in
/- The context of a call stays that of its request. -/
theorem StoreContext.Of.sameCall
    {req : StoreRequest} {ctx ctx' : StoreContext Vec F}
    (h : ctx.Of service req)
    (hCall : SameCall ctx ctx') :
    ctx'.Of service req :=
  ⟨hCall.req.trans h.request,
    hCall.namespace.trans h.namespace,
    hCall.memoryType.trans h.memoryType⟩

/- The stage of a store call is a stage of its request. -/
def Task.Fits
    (service : MemoryService F) : Task Vec F → Prop
| .store req stage =>
    (∀ req', stage = .ensure req' → req' = req) ∧
      ∀ ctx, stage.context = some ctx → ctx.Of service req
| .forget _ _ => True

/- Every context fits the request of its call. -/
theorem taskInvariant_fits
    (env : Env Vec F)
    (service : MemoryService F) :
    TaskInvariant env service
      (fun _ task => task.Fits service) where
  store _ req := by
    refine ⟨fun req' h => ?_, fun ctx h => ?_⟩
    · exact (StoreStage.ensure.inj h).symm
    · simp [StoreStage.context, StoreStage.preparing] at h
  forget _ _ := trivial
  step w task hFits := by
    cases task with
    | forget ids st => trivial
    | store req st =>
        have hContext :
            ∀ {st' : StoreStage Vec F}
              {ctx : StoreContext Vec F},
              st'.context = some ctx →
              ctx.Of service req →
                Task.Fits service (.store req st') := by
          intro st' ctx hCtx hOf
          refine ⟨?_, ?_⟩
          · rintro req' rfl
            simp [StoreStage.context,
              StoreStage.preparing] at hCtx
          · intro ctx' hCtx'
            cases hCtx.symm.trans hCtx'
            exact hOf
        have hPreparing :
            ∀ {st' : StoreStage Vec F}
              {ctx ctx' : StoreContext Vec F},
              st.preparing = some ctx →
              st'.preparing = some ctx' →
              SameCall ctx ctx' →
                Task.Fits service (.store req st') :=
          fun hOld hNew hCall =>
            hContext (StoreStage.context_of_preparing hNew)
              ((hFits.2 _
                (StoreStage.context_of_preparing hOld)
                  ).sameCall hCall)
        have hDone :
            ∀ result,
              Task.Fits service
                (.store req (.done result) : Task Vec F) :=
          fun _ => ⟨by simp, by
            simp [StoreStage.context,
              StoreStage.preparing]⟩
        simp only [Task.step]
        generalize hNext : st.step env service w = next
        have hEffect :=
          StoreStage.step_effect env service w st
        rw [hNext] at hEffect
        rcases next with ⟨w', st'⟩
        cases hEffect with
        | @start req' _ ctx _ _ _ hCall =>
            obtain rfl := hFits.1 req' rfl
            exact hContext rfl
              (StoreContext.Of.sameCall
                ⟨rfl, rfl, rfl⟩ hCall)
        | prepare hOld hNew hCall =>
            exact hPreparing hOld hNew hCall
        | @createEntity _ _ _ ctx _ hOld hNew =>
            exact hPreparing hOld hNew (SameCall.refl ctx)
        | entityPoint hOld hNew hCall =>
            exact hPreparing hOld hNew hCall
        | stop _ _ => exact hDone _
        | log hInsert =>
            exact hContext rfl (hFits.2 _ rfl)
        | write hUpsert =>
            exact hContext rfl (hFits.2 _ rfl)
        | mark => exact hContext rfl (hFits.2 _ rfl)
        | commit hCommit => exact hDone _
        | done => exact hDone _
  fail _ task e hFits := by
    cases task with
    | forget ids st => trivial
    | store req st =>
        exact ⟨by simp, by
          simp [StoreStage.context, StoreStage.preparing]⟩
  mono _ _ _ _ hFits := hFits

/- All calls of the system fit their requests. -/
def System.Fits
    (service : MemoryService F)
    (s : System Vec F) : Prop :=
  ∀ i call, s.calls i = some call → call.task.Fits service

/- In every run the contexts are those of their requests. -/
theorem System.Fits.run
    {es : List (Event F)}
    (hCalls : ∀ i, s.calls i = none)
    (hRun : (machine env service).Run s es t) :
    t.Fits service :=
  hRun.invariant
    (fun _ _ _ hFits hNext =>
      System.tasks_next (taskInvariant_fits env service)
        hNext hFits)
    (fun i call hCall => by simp [hCalls i] at hCall)

end Core

end Ferrex
