import Ferrex.Core.Consistency

/-
  What the events of the service do to the memory rows, and
  the answers that its store calls have come to.

  Main declarations:
    * `RowChange`, `System.rowChange`
    * `System.Answered`, `System.answered_next`
-/

------------------------------------------------------------
-- Changes of the Rows
------------------------------------------------------------

namespace Ferrex

namespace Core

open Store

variable {Vec F : Type}
variable {env : Env Vec F} {service : MemoryService F}
variable {s t : System Vec F} {e : Event F}

/- The row that a commit inserts. -/
def Write.row
    (env : Env Vec F)
    (ctx : StoreContext Vec F) : MemoryRow :=
  (Write.buildMemory env ctx).toMemoryRow

theorem Write.row_id
    (env : Env Vec F)
    (ctx : StoreContext Vec F) :
    (Write.row env ctx).id = ctx.id :=
  rfl

/- The rows after a commit. -/
def Write.rows
    (env : Env Vec F)
    (ctx : StoreContext Vec F)
    (rows : List MemoryRow) : List MemoryRow :=
  Table.update (fun r => r.id ∈ Write.invalidateIds ctx)
    (Sqlite.invalidateRow ctx.now)
    (rows ++ [Write.row env ctx])

/-
  The rows stay, a call commits, or a forget call or the
  recovery deletes some of them.
-/
inductive RowChange
    (env : Env Vec F)
    (s t : System Vec F) : Event F → Prop
| keep {e : Event F}
    (hRows : t.world.db.memories = s.world.db.memories) :
    RowChange env s t e
| commit
    {i : Nat} {req : StoreRequest}
    {ctx : StoreContext Vec F} {opId : String}
    {startedAt : DateTime}
    (hLive :
      s.live i = some (.store req (.commit ctx opId startedAt)))
    (hFresh : ∀ r ∈ s.world.db.memories, r.id ≠ ctx.id)
    (hRows :
      t.world.db.memories =
        Write.rows env ctx s.world.db.memories)
    (hCommitted :
      t.committed = s.committed ++ [(ctx.namespace, ctx.id)])
    (hAnswer :
      t.live i =
        some (.store req
          (.done (.ok (Write.response env ctx))))) :
    RowChange env s t (.step i)
| delete {e : Event F}
    (p : MemoryRow → Bool)
    (hRows :
      t.world.db.memories =
        s.world.db.memories.filter p) :
    RowChange env s t e

/- An id that a forget stage or the recovery deletes. -/
private theorem rowChange_of_delete
    {ids : List String}
    (hRows :
      t.world.db.memories =
        (s.world.db.deleteMemories ids).memories) :
    RowChange env s t e :=
  .delete _ hRows

private theorem rowChange_forget
    {w : World Vec} {st : ForgetStage F}
    (hWorld : t.world = (st.step env w).1)
    (hSame : s.world = w) :
    RowChange env s t e := by
  subst hSame
  cases st with
  | lookup p =>
      simp only [ForgetStage.step] at hWorld
      split at hWorld
      · exact .keep (by rw [hWorld])
      · split at hWorld <;> exact .keep (by rw [hWorld])
  | insertOp p target =>
      simp only [ForgetStage.step] at hWorld
      split at hWorld
      · exact .keep (by rw [hWorld])
      · rename_i db hInsert
        rcases Sqlite.insertPendingOp_eq_ok hInsert with
          ⟨_, rfl⟩
        exact .keep (by rw [hWorld])
  | delete p target opId startedAt =>
      simp only [ForgetStage.step] at hWorld
      split at hWorld <;> exact .keep (by rw [hWorld])
  | mark p target opId startedAt =>
      exact .keep (by rw [hWorld]; rfl)
  | deleteRow p target opId startedAt =>
      exact rowChange_of_delete
        (by rw [hWorld]; rfl)
  | complete p target opId startedAt =>
      exact .keep (by rw [hWorld]; rfl)
  | done result => exact .keep (by rw [hWorld]; rfl)

private theorem rowChange_recovery
    {w : World Vec} {st st' : RecoveryStage}
    (hStep : st.step env s.world = .ok (w, st'))
    (hWorld : t.world = w) :
    RowChange env s t e := by
  subst hWorld
  cases st with
  | check report ops =>
      cases ops with
      | nil =>
          simp only [RecoveryStage.step, Except.ok.injEq,
            Prod.mk.injEq] at hStep
          exact .keep (by rw [hStep.1])
      | cons op ops =>
          simp only [RecoveryStage.step] at hStep
          split at hStep <;>
            simp only [Except.ok.injEq, Prod.mk.injEq]
              at hStep <;>
            exact .keep (by rw [hStep.1])
  | deletePoint report op uuid ops =>
      simp only [RecoveryStage.step] at hStep
      split at hStep
      · cases hStep
      · simp only [Except.ok.injEq, Prod.mk.injEq] at hStep
        exact .keep (by rw [← hStep.1])
  | deleteRow report op ops =>
      simp only [RecoveryStage.step, Except.ok.injEq,
        Prod.mk.injEq] at hStep
      exact rowChange_of_delete
        (by rw [← hStep.1])
  | clear report op ops =>
      simp only [RecoveryStage.step, Except.ok.injEq,
        Prod.mk.injEq] at hStep
      exact .keep (by rw [← hStep.1]; rfl)
  | list =>
      simp only [RecoveryStage.step, Except.ok.injEq,
        Prod.mk.injEq] at hStep
      exact .keep (by rw [hStep.1])
  | done report =>
      simp only [RecoveryStage.step, Except.ok.injEq,
        Prod.mk.injEq] at hStep
      exact .keep (by rw [hStep.1])

section Steps

variable [LE F] [LT F] [DecidableLE F] [DecidableLT F]

theorem System.rowChange
    (hNext : s.next env service e = some t) :
    RowChange env s t e := by
  cases System.next_eq_some hNext with
  | step i task hLive =>
      have hMode := (System.live_eq_some hLive).1
      cases task with
      | forget ids st => exact rowChange_forget rfl rfl
      | store req st =>
          have hEffect :=
            StoreStage.step_effect env service s.world st
          generalize hNextStage :
            st.step env service s.world = next at hEffect
          rcases next with ⟨w, st'⟩
          simp only [Task.step, hNextStage]
          cases hEffect with
          | start hQuiet => exact .keep hQuiet.memories
          | prepare _ _ _ _ hQuiet =>
              exact .keep hQuiet.memories
          | createEntity _ _ _ _ hQuiet =>
              exact .keep hQuiet.memories
          | entityPoint _ _ _ _ _ hQuiet =>
              exact .keep hQuiet.memories
          | stop hQuiet => exact .keep hQuiet.memories
          | log hInsert =>
              rcases Sqlite.insertPendingOp_eq_ok hInsert with
                ⟨_, rfl⟩
              exact .keep rfl
          | write => exact .keep rfl
          | mark => exact .keep rfl
          | commit hCommit =>
              rcases Sqlite.commitMemoryWrite_eq_ok hCommit
                with ⟨hFresh, links, rfl⟩
              exact .commit hLive
                (fun r hr hId => hFresh ⟨r, hr, hId⟩) rfl rfl
                (by
                  rw [System.live_setTask_committed hMode,
                    if_pos rfl])
          | done => exact .keep rfl
  | recover st st' w _ hStep =>
      exact rowChange_recovery hStep rfl
  | _ => exact .keep rfl

------------------------------------------------------------
-- Answers
------------------------------------------------------------

omit [LE F] [LT F] [DecidableLE F] [DecidableLT F] in
/- A store call that has committed, and its answer. -/
def System.Answered
    (s : System Vec F)
    (i : Nat)
    (req : StoreRequest)
    (resp : StoreResponse) : Prop :=
  ∃ call, s.calls i = some call ∧
    call.task = .store req (.done (.ok resp))

/- A call that has answered does nothing else. -/
theorem System.Answered.next
    {i : Nat} {req : StoreRequest} {resp : StoreResponse}
    (hAnswered : s.Answered i req resp)
    (hNext : s.next env service e = some t) :
    t.Answered i req resp := by
  rcases hAnswered with ⟨call, hCall, hTask⟩
  have hOther :
      ∀ {j : Nat} {w : World Vec} {task : Task Vec F},
        (i = j → task = .store req (.done (.ok resp))) →
          ∃ call, (s.setTask j w task).calls i = some call ∧
            call.task = .store req (.done (.ok resp)) := by
    intro j w task hSame
    rw [System.calls_setTask]
    by_cases hEq : i = j
    · exact ⟨_, if_pos hEq, hSame hEq⟩
    · exact ⟨call, by rw [if_neg hEq, hCall], hTask⟩
  have hLiveTask :
      ∀ {task : Task Vec F}, s.live i = some task →
        task = .store req (.done (.ok resp)) := by
    intro task hLive
    have hSame := (System.live_eq_some hLive).2
    cases hCall.symm.trans hSame
    exact hTask
  cases System.next_eq_some hNext with
  | store j req' _ hNone =>
      refine hOther ?_
      rintro rfl
      simp [hCall] at hNone
  | forget j ids _ hNone =>
      refine hOther ?_
      rintro rfl
      simp [hCall] at hNone
  | step j task hLive =>
      refine hOther
        (w := (task.step env service s.world).1) ?_
      rintro rfl
      rw [hLiveTask hLive]
      rfl
  | fail j task err hLive hCalls =>
      refine hOther ?_
      rintro rfl
      rw [hLiveTask hLive] at hCalls
      cases hCalls
  | crash =>
      exact ⟨{ call with lost := true },
        by simp [hCall], hTask⟩
  | _ => exact ⟨call, hCall, hTask⟩

/- An answer is an old one, or that of a commit. -/
theorem System.answered_next
    {i : Nat} {req : StoreRequest} {resp : StoreResponse}
    (hNext : s.next env service e = some t)
    (hAnswered : t.Answered i req resp) :
    s.Answered i req resp ∨
      ∃ ctx opId startedAt, e = .step i ∧
        s.live i =
            some (.store req (.commit ctx opId startedAt)) ∧
          resp = Write.response env ctx ∧
            t.world.db.memories =
              Write.rows env ctx s.world.db.memories ∧
            t.committed =
              s.committed ++ [(ctx.namespace, ctx.id)] := by
  rcases hAnswered with ⟨call, hCall, hTask⟩
  rcases System.calls_next hNext hCall with
    ⟨old, hOld, hSame⟩ | ⟨req', _, hStart⟩ |
      ⟨ids, _, hStart⟩ | ⟨task, rfl, hLive, hStep⟩ |
        ⟨task, err, _, _, hFail⟩
  · exact Or.inl ⟨old, hOld, hSame ▸ hTask⟩
  · simp [hTask] at hStart
  · simp [hTask] at hStart
  · cases task with
    | forget ids st => simp [hTask, Task.step] at hStep
    | store req' st =>
        have hEffect :=
          StoreStage.step_effect env service s.world st
        change s.next env service (.step i) = some t
          at hNext
        simp only [System.next, hLive,
          Option.some.injEq] at hNext
        subst hNext
        simp only [hTask, Task.step] at hStep ⊢
        generalize st.step env service s.world = next
          at hEffect hStep
        rcases next with ⟨w, st'⟩
        cases hStep
        cases hEffect with
        | prepare _ hNew =>
            simp [StoreStage.preparing] at hNew
        | createEntity _ hNew =>
            simp [StoreStage.preparing] at hNew
        | entityPoint _ hNew =>
            simp [StoreStage.preparing] at hNew
        | commit hCommit =>
            rcases Sqlite.commitMemoryWrite_eq_ok hCommit
              with ⟨_, links, rfl⟩
            exact Or.inr
              ⟨_, _, _, trivial, hLive, rfl, rfl, rfl⟩
        | done =>
            exact Or.inl
              ⟨_, (System.live_eq_some hLive).2, rfl⟩
  · cases task <;> simp [hTask, Task.fail] at hFail

end Steps

end Core

end Ferrex
