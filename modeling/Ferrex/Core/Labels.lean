import Ferrex.Core.Durable
import Ferrex.Core.Registry

/-
  What the ids of the two stores stand for, in all lives: a
  memory point has a namespace and a type, and no row ever
  comes to have its id and others; and every row is a first
  one, or what a store call has answered with.

  Main declarations:
    * `MemoryLabel`, `Promised`
    * `Labelled`, `Origin`
    * `Filed`, `RowsStep.filed`
-/

------------------------------------------------------------
-- Labels
------------------------------------------------------------

namespace Ferrex

namespace Store

/- What a memory point and the row of its id agree on. -/
structure MemoryLabel where
  «namespace» : String
  memoryType : MemoryType
deriving DecidableEq

/- The label of a row. -/
def MemoryRow.label (r : MemoryRow) : MemoryLabel :=
  ⟨r.namespace, r.memoryType⟩

/- The label of a memory point; entities have none. -/
def Payload.label : Payload → Option MemoryLabel
| .memory _ memoryType ns _ _ _ => some ⟨ns, memoryType⟩
| .entity .. => none

/- Only memory points have a label. -/
theorem Payload.isMemory_of_label
    {p : Payload} {label : MemoryLabel}
    (h : p.label = some label) :
    p.IsMemory := by
  cases p with
  | memory => trivial
  | entity => cases h

/- The columns that nothing rewrites are those of a row. -/
def MemoryRow.SameContent (r r' : MemoryRow) : Prop :=
  r' = { r with
    updatedAt := r'.updatedAt
    tInvalid := r'.tInvalid
    lastAccessed := r'.lastAccessed
    lastValidated := r'.lastValidated
    accessCount := r'.accessCount }

namespace MemoryRow.SameContent

variable {r r' r'' : MemoryRow}

/- A row has the content it has. -/
theorem refl (r : MemoryRow) : r.SameContent r :=
  rfl

/- An access or a validation does not touch the content. -/
theorem touched
    (h : r.SameContent r')
    (hSame : Sqlite.Touched r' r'') :
    r.SameContent r'' := by
  unfold SameContent at h ⊢
  rw [hSame, h]

/- An invalidation does not touch the content. -/
theorem invalidated
    (h : r.SameContent r')
    (now : DateTime) :
    r.SameContent (Sqlite.invalidateRow now r') := by
  unfold SameContent at h ⊢
  rw [h]
  rfl

end MemoryRow.SameContent

end Store

namespace Core

open Store

variable {Vec F : Type}
variable {env : Env Vec F} {service : MemoryService F}

/- The label that a call gives to its point and its row. -/
def StoreContext.label
    (ctx : StoreContext Vec F) : MemoryLabel :=
  ⟨ctx.namespace, ctx.memoryType⟩

/- A call keeps its label from stage to stage. -/
theorem SameCall.label
    {ctx ctx' : StoreContext Vec F}
    (hCall : SameCall ctx ctx') :
    ctx'.label = ctx.label := by
  unfold StoreContext.label
  rw [hCall.namespace, hCall.memoryType]

/- A call that has a context is to add the memory of it. -/
theorem Task.worker_of_context
    {task : Task Vec F} {ctx : StoreContext Vec F}
    (h : task.context = some ctx) :
    task.worker.task = some (.add, ctx.key) := by
  cases task with
  | forget ids stage => cases h
  | store req stage =>
      cases stage <;>
        simp_all [Task.worker, Task.context,
          StoreStage.context, StoreStage.preparing,
          IntentJournal.Worker.task, StoreContext.entry]

------------------------------------------------------------
-- Ids Still to Come
------------------------------------------------------------

/- A forget takes ids from the generator and returns none. -/
theorem ForgetStage.step_nextUuid
    (w : World Vec)
    (stage : ForgetStage F) :
    w.nextUuid ≤ (stage.step env w).1.nextUuid := by
  cases stage with
  | lookup p =>
      simp only [ForgetStage.step]
      split
      · exact le_rfl
      · split <;> exact le_rfl
  | insertOp p target =>
      simp only [ForgetStage.step]
      split <;> exact Nat.le_succ _
  | delete p target opId startedAt =>
      simp only [ForgetStage.step]
      split <;> exact le_rfl
  | _ => exact le_rfl

/- Recovery draws no id. -/
theorem RecoveryStage.step_nextUuid
    {w w' : World Vec} {stage stage' : RecoveryStage}
    (h : stage.step env w = .ok (w', stage')) :
    w'.nextUuid = w.nextUuid := by
  cases stage with
  | check report ops =>
      cases ops with
      | nil =>
          cases h
          rfl
      | cons op ops =>
          simp only [RecoveryStage.step] at h
          split at h <;> cases h <;> rfl
  | deletePoint report op uuid ops =>
      simp only [RecoveryStage.step] at h
      split at h
      · cases h
      · cases h
        rfl
  | _ =>
      cases h
      rfl

section Contexts

variable [LE F] [LT F] [DecidableLE F] [DecidableLT F]
variable {s t : System Vec F} {e : Event F}

/- Ids are only drawn, and never given back. -/
theorem System.nextUuid_le
    (hNext : s.next env service e = some t) :
    s.world.nextUuid ≤ t.world.nextUuid := by
  cases System.next_eq_some hNext with
  | step i task _ =>
      cases task with
      | store req stage =>
          exact (StoreStage.step_effect env service s.world
            stage).nextUuid_le
      | forget ids stage =>
          exact ForgetStage.step_nextUuid s.world stage
  | recover _ _ w _ hStep =>
      exact (RecoveryStage.step_nextUuid hStep).ge
  | _ => exact le_rfl

/- A context is that of the call before, or has a new id. -/
theorem Task.context_step
    {w : World Vec} {task : Task Vec F}
    {ctx' : StoreContext Vec F}
    (h :
      (task.step env service w).2.context = some ctx') :
    (∃ ctx, task.context = some ctx ∧ SameCall ctx ctx') ∨
      ctx'.id = env.uuid w.nextUuid := by
  cases task with
  | forget ids stage => cases h
  | store req stage =>
      have hEffect :=
        StoreStage.step_effect env service w stage
      simp only [Task.step, Task.context] at h ⊢
      generalize stage.step env service w = next
        at hEffect h
      rcases next with ⟨w', stage'⟩
      have hPreparing :
          ∀ {ctx ctx₁ : StoreContext Vec F},
            stage.preparing = some ctx →
            stage'.preparing = some ctx₁ →
            SameCall ctx ctx₁ →
              ∃ ctx, stage.context = some ctx ∧
                SameCall ctx ctx' := by
        intro ctx ctx₁ hOld hNew hCall
        cases (StoreStage.context_of_preparing hNew).symm.trans
          h
        exact ⟨ctx, StoreStage.context_of_preparing hOld,
          hCall⟩
      cases hEffect with
      | start _ _ _ hCall =>
          cases h
          exact Or.inr hCall.id
      | prepare hOld hNew hCall =>
          exact Or.inl (hPreparing hOld hNew hCall)
      | createEntity hOld hNew =>
          exact Or.inl (hPreparing hOld hNew (.refl _))
      | entityPoint hOld hNew hCall =>
          exact Or.inl (hPreparing hOld hNew hCall)
      | stop => cases h
      | commit => cases h
      | done => cases h
      | _ =>
          cases h
          exact Or.inl ⟨_, rfl, .refl _⟩

/-
  A call that has a context had it before, or has just been
  given one with a new id.
-/
theorem System.context_next
    {i : Nat} {task' : Task Vec F}
    {ctx' : StoreContext Vec F}
    (hSound : Sound env s)
    (hNext : s.next env service e = some t)
    (hLive : t.live i = some task')
    (hContext : task'.context = some ctx') :
    (∃ task ctx, s.live i = some task ∧
        task.context = some ctx ∧ SameCall ctx ctx') ∨
      ctx'.id = env.uuid s.world.nextUuid := by
  have hOld :
      s.live i = some task' →
        (∃ task ctx, s.live i = some task ∧
            task.context = some ctx ∧ SameCall ctx ctx') ∨
          ctx'.id = env.uuid s.world.nextUuid :=
    fun h => Or.inl ⟨task', ctx', h, hContext, .refl _⟩
  have hUp := (System.live_eq_some hLive).1
  cases System.next_eq_some hNext with
  | tick d => exact hOld hLive
  | store j req hMode _ =>
      rw [System.live_setTask hMode] at hLive
      split at hLive
      · cases hLive
        cases hContext
      · exact hOld hLive
  | forget j ids hMode _ =>
      rw [System.live_setTask hMode] at hLive
      split at hLive
      · cases hLive
        cases hContext
      · exact hOld hLive
  | step j task hTask =>
      rw [System.live_setTask_committed
        (System.live_eq_some hTask).1] at hLive
      split at hLive
      · rename_i hSame
        subst hSame
        cases hLive
        rcases Task.context_step hContext with
          ⟨ctx, hCtx, hCall⟩ | hNew
        · exact Or.inl ⟨task, ctx, hTask, hCtx, hCall⟩
        · exact Or.inr hNew
      · exact hOld hLive
  | fail j task err hTask _ =>
      rw [System.live_setTask
        (System.live_eq_some hTask).1] at hLive
      split at hLive
      · cases hLive
        cases task <;> cases hContext
      · exact hOld hLive
  | crash => cases hUp
  | restart => cases hUp
  | recover => cases hUp
  | recovered report hMode =>
      -- the calls of an earlier life are all lost
      have hLost :=
        hSound.lost (by simp [hMode]) i _
          (System.live_eq_some hLive).2
      cases hLost

end Contexts

------------------------------------------------------------
-- Promises
------------------------------------------------------------

/-
  An id that has been given out: a row that has it, or that
  a call under way is to commit with it, has the label.
-/
structure Promised
    (env : Env Vec F)
    (s : System Vec F)
    (id : String)
    (label : MemoryLabel) : Prop where
  rows :
    ∀ r ∈ s.world.db.memories, r.id = id → r.label = label
  calls :
    ∀ i task ctx, s.live i = some task →
      task.context = some ctx → ctx.id = id →
        ctx.label = label
  old : Old env s.world id

variable {s t : System Vec F} {e : Event F}
variable {id : String} {label : MemoryLabel}

/- The id of a call's context is the call's alone. -/
theorem Ordered.promised
    {i : Nat} {task : Task Vec F}
    {ctx : StoreContext Vec F}
    (hOrdered : Ordered env s)
    (hLive : s.live i = some task)
    (hContext : task.context = some ctx) :
    Promised env s ctx.id ctx.label where
  rows r hr hId := by
    have hFresh :=
      hOrdered.inv.adds_fresh i ctx.key
        (by
          change (s.journalWorkers i).task = _
          rw [System.journalWorkers_of_live hLive]
          exact Task.worker_of_context hContext)
        _ (hOrdered.sound.world.rows r hr)
    exact absurd hId hFresh
  calls j task' ctx' hLive' hContext' hId := by
    have hTask :
        ∀ {k : Nat} {task : Task Vec F}
          {ctx : StoreContext Vec F},
          s.live k = some task → task.context = some ctx →
            (s.journalWorkers k).task =
              some (.add, ctx.key) := by
      intro k task ctx hLive hContext
      rw [System.journalWorkers_of_live hLive]
      exact Task.worker_of_context hContext
    obtain rfl :=
      hOrdered.inv.adds_distinct j i ctx'.key ctx.key
        (hTask hLive' hContext') (hTask hLive hContext) hId
    cases hLive.symm.trans hLive'
    cases hContext.symm.trans hContext'
    rfl
  old := (hOrdered.sound.contexts i task ctx hLive hContext).2

/- Writes to other columns break no promise. -/
theorem Promised.touched
    {db : Sqlite}
    (hPromised : Promised env s id label)
    (hRows : Sqlite.TouchedRows s.world.db db) :
    Promised env (s.setDb db) id label := by
  rcases hRows with ⟨g, hg, rfl⟩
  refine ⟨?_, hPromised.calls, hPromised.old⟩
  intro r hr hId
  rcases List.mem_map.mp hr with ⟨r₀, hr₀, rfl⟩
  rw [hg r₀] at hId ⊢
  exact hPromised.rows r₀ hr₀ hId

section Events

variable [LE F] [LT F] [DecidableLE F] [DecidableLT F]

/- A promise is kept by every step of the stores. -/
theorem Promised.next
    (hPromised : Promised env s id label)
    (hSound : Sound env s)
    (hNext : s.next env service e = some t) :
    Promised env t id label := by
  refine ⟨?_, ?_, hPromised.old.mono
    (System.nextUuid_le hNext)⟩
  · intro r hr hId
    cases System.rowChange hNext with
    | keep hRows => exact hPromised.rows r (hRows ▸ hr) hId
    | delete p hRows =>
        rw [hRows] at hr
        exact hPromised.rows r (List.mem_of_mem_filter hr) hId
    | @commit i req ctx _ _ hLive _ hRows _ _ =>
        have hOld :
            ∀ r₀ ∈ s.world.db.memories ++ [Write.row env ctx],
              r₀.id = id → r₀.label = label := by
          intro r₀ hr₀ hId₀
          rcases List.mem_append.mp hr₀ with hMem | hNew
          · exact hPromised.rows r₀ hMem hId₀
          · rw [List.mem_singleton.mp hNew] at hId₀ ⊢
            exact hPromised.calls _ _ ctx hLive rfl hId₀
        rw [hRows] at hr
        rcases Write.mem_rows hr with
          ⟨_, _, r₀, hr₀, rfl⟩ | ⟨_, hMem⟩
        · exact hOld r₀ hr₀ hId
        · exact hOld r hMem hId
  · intro i task' ctx' hLive hContext hId
    rcases System.context_next hSound hNext hLive hContext
      with ⟨task, ctx, hOld, hCtx, hCall⟩ | hNew
    · rw [hCall.label]
      exact hPromised.calls i task ctx hOld hCtx
        (hCall.id.symm.trans hId)
    · exact absurd (hId.symm.trans hNew)
        hPromised.old.ne_next

/- A promise is kept by every step of the service. -/
theorem RowsStep.promised
    (hStep : RowsStep env service s t)
    (hOrdered : Ordered env s)
    (hPromised : Promised env s id label) :
    Promised env t id label := by
  cases hStep with
  | same => exact hPromised
  | event hNext => exact hPromised.next hOrdered.sound hNext
  | touched hRows => exact hPromised.touched hRows

end Events

------------------------------------------------------------
-- Points
------------------------------------------------------------

/- A memory point is an old one, or that of the context. -/
theorem StoreStage.Effect.point
    {w w' : World Vec} {stage stage' : StoreStage Vec F}
    {ns : String} {p : Point Vec}
    (hEffect :
      StoreStage.Effect env service w stage w' stage')
    (hp : p ∈ w'.qdrant.points ns)
    (hMemory : p.payload.IsMemory) :
    p ∈ w.qdrant.points ns ∨
      ∃ ctx, stage.context = some ctx ∧ p.id = ctx.id ∧
        ns = ctx.namespace ∧
          p.payload = Write.payload env ctx := by
  cases hEffect with
  | start _ hQdrant => exact Or.inl (hQdrant ▸ hp)
  | prepare _ _ _ _ _ hQdrant => exact Or.inl (hQdrant ▸ hp)
  | createEntity _ _ _ _ _ hQdrant =>
      exact Or.inl (hQdrant ▸ hp)
  | entityPoint _ _ _ _ _ _ hUpsert =>
      rw [Qdrant.upsert_eq_ok hUpsert ns] at hp
      split at hp
      · rename_i hNs
        subst hNs
        rcases Table.mem_upsert_iff.mp hp with rfl | ⟨hOld, _⟩
        · exact hMemory.elim
        · exact Or.inl hOld
      · exact Or.inl hp
  | stop _ hQdrant => exact Or.inl (hQdrant ▸ hp)
  | @write ctx _ _ _ _ hUpsert =>
      rw [Qdrant.upsert_eq_ok hUpsert ns] at hp
      split at hp
      · rename_i hNs
        subst hNs
        rcases Table.mem_upsert_iff.mp hp with rfl | ⟨hOld, _⟩
        · exact Or.inr ⟨ctx, rfl, rfl, rfl, rfl⟩
        · exact Or.inl hOld
      · exact Or.inl hp
  | _ => exact Or.inl hp

/- A deletion adds no point. -/
private theorem point_of_delete
    {q q' : Qdrant Vec} {ns ns' : String} {ids : List String}
    {p : Point Vec}
    (hDelete : q.deleteByIds ns' ids = .ok q')
    (hp : p ∈ q'.points ns) :
    p ∈ q.points ns := by
  rw [Qdrant.deleteByIds_eq_ok hDelete ns] at hp
  split at hp
  · rename_i hNs
    subst hNs
    exact (Table.mem_delete_iff.mp hp).1
  · exact hp

/- A forget adds no point. -/
theorem ForgetStage.step_point
    {w : World Vec} {stage : ForgetStage F}
    {ns : String} {p : Point Vec}
    (hp : p ∈ (stage.step env w).1.qdrant.points ns) :
    p ∈ w.qdrant.points ns := by
  cases stage with
  | lookup progress =>
      simp only [ForgetStage.step] at hp
      split at hp
      · exact hp
      · split at hp <;> exact hp
  | insertOp progress target =>
      simp only [ForgetStage.step] at hp
      split at hp <;> exact hp
  | delete progress target opId startedAt =>
      simp only [ForgetStage.step] at hp
      split at hp
      · exact hp
      · exact point_of_delete ‹_› hp
  | _ => exact hp

/- Recovery adds no point. -/
theorem RecoveryStage.step_point
    {w w' : World Vec} {stage stage' : RecoveryStage}
    {ns : String} {p : Point Vec}
    (h : stage.step env w = .ok (w', stage'))
    (hp : p ∈ w'.qdrant.points ns) :
    p ∈ w.qdrant.points ns := by
  cases stage with
  | check report ops =>
      cases ops with
      | nil =>
          cases h
          exact hp
      | cons op ops =>
          simp only [RecoveryStage.step] at h
          split at h <;> cases h <;> exact hp
  | deletePoint report op uuid ops =>
      simp only [RecoveryStage.step] at h
      split at h
      · cases h
      · cases h
        exact point_of_delete ‹_› hp
  | _ =>
      cases h
      exact hp

section PointEvents

variable [LE F] [LT F] [DecidableLE F] [DecidableLT F]

/-
  A new memory point is the one of a call, under its id and
  its label.
-/
theorem System.point_next
    {ns : String} {p : Point Vec}
    (hNext : s.next env service e = some t)
    (hp : p ∈ t.world.qdrant.points ns)
    (hMemory : p.payload.IsMemory) :
    p ∈ s.world.qdrant.points ns ∨
      ∃ i task ctx, s.live i = some task ∧
        task.context = some ctx ∧ p.id = ctx.id ∧
          ns = ctx.namespace ∧
            p.payload = Write.payload env ctx := by
  cases System.next_eq_some hNext with
  | step i task hLive =>
      cases task with
      | forget ids stage =>
          exact Or.inl (ForgetStage.step_point hp)
      | store req stage =>
          rcases (StoreStage.step_effect env service s.world
            stage).point hp hMemory with hOld | ⟨ctx, hNew⟩
          · exact Or.inl hOld
          · exact Or.inr ⟨i, _, ctx, hLive, hNew⟩
  | recover _ _ w _ hStep =>
      exact Or.inl (RecoveryStage.step_point hStep hp)
  | _ => exact Or.inl hp

end PointEvents

/- The memory points of a namespace stand for ids of it. -/
def Labelled
    (env : Env Vec F)
    (s : System Vec F) : Prop :=
  ∀ ns, ∀ p ∈ s.world.qdrant.points ns, ∀ label,
    p.payload.label = some label →
      label.namespace = ns ∧ Promised env s p.id label

------------------------------------------------------------
-- Origins
------------------------------------------------------------

/- A first row, or what a store call has answered with. -/
def Origin
    (env : Env Vec F)
    (service : MemoryService F)
    (first : List MemoryRow)
    (s : System Vec F)
    (r : MemoryRow) : Prop :=
  (∃ r₀ ∈ first, r₀.SameContent r) ∨
    ∃ i req resp, s.Answered i req resp ∧ resp.id = r.id ∧
      req.StoredIn env service r

namespace Origin

variable {first : List MemoryRow} {r r' : MemoryRow}

theorem touched
    (h : Origin env service first s r)
    (hSame : Sqlite.Touched r r') :
    Origin env service first s r' := by
  rcases h with ⟨r₀, hr₀, hContent⟩ |
    ⟨i, req, resp, hAnswered, hId, hStored⟩
  · exact Or.inl ⟨r₀, hr₀, hContent.touched hSame⟩
  · have hSameId : r'.id = r.id := by rw [hSame]
    exact Or.inr ⟨i, req, resp, hAnswered,
      hId.trans hSameId.symm, hStored.touched hSame⟩

theorem invalidated
    (h : Origin env service first s r)
    (now : DateTime) :
    Origin env service first s
      (Sqlite.invalidateRow now r) := by
  rcases h with ⟨r₀, hr₀, hContent⟩ |
    ⟨i, req, resp, hAnswered, hId, hStored⟩
  · exact Or.inl ⟨r₀, hr₀, hContent.invalidated now⟩
  · exact Or.inr ⟨i, req, resp, hAnswered, hId,
      hStored.invalidated now⟩

end Origin

/-
  The ids and the protocol are in order, the contexts are
  those of their requests, and points and rows are what the
  store calls made them.
-/
structure Filed
    (env : Env Vec F)
    (service : MemoryService F)
    (first : List MemoryRow)
    (s : System Vec F) : Prop where
  ordered : Ordered env s
  fits : s.Fits service
  labelled : Labelled env s
  origin :
    ∀ r ∈ s.world.db.memories, Origin env service first s r

/- Memory points are of their namespace, as their rows are. -/
def World.PointsMatchRows (w : World Vec) : Prop :=
  ∀ ns, ∀ p ∈ w.qdrant.points ns, ∀ label,
    p.payload.label = some label →
      label.namespace = ns ∧
        ∀ r ∈ w.db.memories, r.id = p.id → r.label = label

/- The rows at the start are their own origin. -/
theorem Idle.filed
    (hIdle : Idle env s)
    (hLabels : s.world.PointsMatchRows) :
    Filed env service s.world.db.memories s where
  ordered := hIdle.ordered
  fits i call hCall := by simp [hIdle.calls i] at hCall
  labelled ns p hp label hLabel := by
    rcases hLabels ns p hp label hLabel with ⟨hNs, hRows⟩
    refine ⟨hNs, hRows, ?_, hIdle.points ns p hp
      (Payload.isMemory_of_label hLabel)⟩
    intro i task ctx hLive
    simp [hIdle.live i] at hLive
  origin r hr := Or.inl ⟨r, hr, .refl r⟩

section Files

variable [LE F] [LT F] [DecidableLE F] [DecidableLT F]
variable {first : List MemoryRow}

/- A row keeps its origin. -/
theorem RowsStep.origin
    {r : MemoryRow}
    (hStep : RowsStep env service s t)
    (h : Origin env service first s r) :
    Origin env service first t r := by
  rcases h with hFirst | ⟨i, req, resp, hAnswered, hSame⟩
  · exact Or.inl hFirst
  · exact Or.inr ⟨i, req, resp, hStep.answered hAnswered,
      hSame⟩

private theorem Filed.labelled_next
    (h : Filed env service first s)
    (hNext : s.next env service e = some t) :
    Labelled env t := by
  intro ns p hp label hLabel
  have hSound := h.ordered.sound
  rcases System.point_next hNext hp
    (Payload.isMemory_of_label hLabel) with
    hOld | ⟨i, task, ctx, hLive, hContext, hId, rfl, hPayload⟩
  · rcases h.labelled ns p hOld label hLabel with
      ⟨hNs, hPromised⟩
    exact ⟨hNs, hPromised.next hSound hNext⟩
  · rw [hPayload] at hLabel
    cases hLabel
    rw [hId]
    exact ⟨rfl,
      (h.ordered.promised hLive hContext).next hSound hNext⟩

private theorem Filed.origin_next
    (h : Filed env service first s)
    (hNext : s.next env service e = some t) :
    ∀ r ∈ t.world.db.memories,
      Origin env service first t r := by
  have hStep : RowsStep env service s t := .event hNext
  intro r hr
  cases System.rowChange hNext with
  | keep hRows => exact hStep.origin (h.origin r (hRows ▸ hr))
  | delete p hRows =>
      rw [hRows] at hr
      exact hStep.origin
        (h.origin r (List.mem_of_mem_filter hr))
  | @commit i req ctx _ _ hLive _ hRows _ hAnswer =>
      have hOf : ctx.Of service req :=
        (h.fits i _ (System.live_eq_some hLive).2).2 ctx rfl
      have hOld :
          ∀ r₀ ∈ s.world.db.memories ++ [Write.row env ctx],
            Origin env service first t r₀ := by
        intro r₀ hr₀
        rcases List.mem_append.mp hr₀ with hMem | hNew
        · exact hStep.origin (h.origin r₀ hMem)
        · -- the row that the call has just answered with
          rw [List.mem_singleton.mp hNew]
          exact Or.inr ⟨i, req, Write.response env ctx,
            ⟨_, (System.live_eq_some hAnswer).2, rfl⟩, rfl,
            .of_context hOf⟩
      rw [hRows] at hr
      rcases Write.mem_rows hr with
        ⟨_, _, r₀, hr₀, rfl⟩ | ⟨_, hMem⟩
      · exact (hOld r₀ hr₀).invalidated ctx.now
      · exact hOld r hMem

theorem RowsStep.filed
    (hStep : RowsStep env service s t)
    (h : Filed env service first s) :
    Filed env service first t := by
  cases hStep with
  | same => exact h
  | event hNext =>
      exact ⟨h.ordered.next hNext,
        System.tasks_next (taskInvariant_fits env service)
          hNext h.fits,
        h.labelled_next hNext, h.origin_next hNext⟩
  | touched hRows =>
      refine ⟨h.ordered.touched hRows, h.fits, ?_, ?_⟩
      · intro ns p hp label hLabel
        rcases h.labelled ns p hp label hLabel with
          ⟨hNs, hPromised⟩
        exact ⟨hNs, hPromised.touched hRows⟩
      · rcases hRows with ⟨g, hg, rfl⟩
        intro r hr
        rcases List.mem_map.mp hr with ⟨r₀, hr₀, rfl⟩
        exact (h.origin r₀ hr₀).touched (hg r₀)

end Files

end Core

end Ferrex
