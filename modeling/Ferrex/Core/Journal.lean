import Ferrex.Lib.IntentJournal
import Ferrex.Core.Sound

/-
  The service as an instance of dual writes under an intent
  journal: its rows, points, pending ops and calls, read as
  the rows, points, entries and workers of the protocol.

  Main declarations:
    * `System.journal`
    * `journal_step`
-/

------------------------------------------------------------
-- Reading of a System
------------------------------------------------------------

namespace Ferrex

namespace Core

open Store

/- A memory, by its namespace and its id. -/
abbrev MemoryKey := String × String

variable {Vec F : Type}

/-
  A forget is an intent to remove, and any store one to add.
-/
def journalKind : PendingOpKind → IntentJournal.Kind
| .forget => .remove
| _ => .add

/- The row of an operation, as the protocol keeps it. -/
def journalEntry
    (op : PendingOp) :
    IntentJournal.Entry MemoryKey String where
  op := op.opId
  kind := journalKind op.kind
  key := (op.namespace, op.memoryId)
  reached := op.qdrantWritten

/- The keys of the memory rows. -/
def memoryKeys (db : Sqlite) : Set MemoryKey :=
  { k | ∃ r ∈ db.memories, (r.namespace, r.id) = k }

/- The keys of the memory points. -/
def memoryPoints (q : Qdrant Vec) : Set MemoryKey :=
  { k | q.HasMemoryPoint k.1 k.2 }

/- The journal of a database. -/
def journalEntries
    (db : Sqlite) :
    Set (IntentJournal.Entry MemoryKey String) :=
  { e | ∃ op ∈ db.pendingOps, journalEntry op = e }

namespace StoreContext

/- A memory is known by its namespace and its id. -/
def key (ctx : StoreContext Vec F) : MemoryKey :=
  (ctx.namespace, ctx.id)

/- The entry of a call's op while it is not marked. -/
def entry
    (ctx : StoreContext Vec F)
    (opId : String) :
    IntentJournal.Entry MemoryKey String :=
  ⟨opId, .add, ctx.key, false⟩

end StoreContext

/- Both are fixed for the whole call. -/
theorem SameCall.key
    {ctx ctx' : StoreContext Vec F}
    (h : SameCall ctx ctx') :
    ctx'.key = ctx.key :=
  Prod.ext h.namespace h.id

namespace ForgetTarget

/- The key of a memory that is to be forgotten. -/
def key (target : ForgetTarget) : MemoryKey :=
  (target.namespace, target.id)

/- What its operation writes to the journal. -/
def entry
    (target : ForgetTarget)
    (opId : String) :
    IntentJournal.Entry MemoryKey String :=
  ⟨opId, .remove, target.key, false⟩

end ForgetTarget

namespace Task

/- The place in the protocol that a call has reached. -/
def worker :
    Task Vec F → IntentJournal.Worker MemoryKey String
| .store _ (.upsert ctx _ opId _) => .logged (ctx.entry opId)
| .store _ (.mark ctx opId _) => .written (ctx.entry opId)
| .store _ (.commit ctx opId _) => .marked (ctx.entry opId)
| .store _ stage =>
    match stage.preparing with
    | some ctx => .chosen .add ctx.key
    | none => .idle
| .forget _ (.insertOp _ target) => .chosen .remove target.key
| .forget _ (.delete _ target opId _) =>
    .logged (target.entry opId)
| .forget _ (.mark _ target opId _) =>
    .written (target.entry opId)
| .forget _ (.deleteRow _ target opId _) =>
    .marked (target.entry opId)
| .forget _ (.complete _ target opId _) =>
    .deleted (target.entry opId)
| .forget _ _ => .idle

/- The ids that a call asks to forget. -/
def named : Task Vec F → List String
| .store _ _ => []
| .forget ids _ => ids

/-
  Before its operation is written, a store has only chosen
  its id.
-/
theorem worker_of_preparing
    {req : StoreRequest} {st : StoreStage Vec F}
    {ctx : StoreContext Vec F}
    (h : st.preparing = some ctx) :
    worker (.store req st) = .chosen .add ctx.key := by
  cases st <;>
    simp_all [StoreStage.preparing, Task.worker]

/- An addition of the protocol is a call with a context. -/
theorem context_of_worker
    {task : Task Vec F} {k : MemoryKey}
    (h : task.worker.task = some (.add, k)) :
    ∃ ctx, task.context = some ctx ∧ ctx.key = k := by
  cases task with
  | store req stage =>
      cases stage <;>
        simp_all [Task.worker, Task.context,
          StoreStage.context, StoreStage.preparing,
          IntentJournal.Worker.task, StoreContext.entry]
  | forget ids stage =>
      cases stage <;>
        simp_all [Task.worker, IntentJournal.Worker.task,
          ForgetTarget.entry]

end Task

namespace Mode

/-
  A recovery is past the first store for an op once its
  point is deleted, and past both once its row is.
-/
def journal : Mode → IntentJournal.Mode MemoryKey String
| .up => .up
| .recovering (.deleteRow _ op _) =>
    match op.kind with
    | .forget => .down
    | _ => .pointUndone (journalEntry op)
| .recovering (.clear _ op _) => .undone (journalEntry op)
| _ => .down

end Mode

namespace System

/- All workers, idle where there is no live call. -/
def journalWorkers
    (s : System Vec F)
    (i : Nat) : IntentJournal.Worker MemoryKey String :=
  match s.live i with
  | some task => task.worker
  | none => .idle

/- Some forget call was given the id. -/
def NamedByForget (s : System Vec F) (id : String) : Prop :=
  ∃ i call, s.calls i = some call ∧ id ∈ call.task.named

/-
  The state of the protocol that a state of the system
  stands for.
-/
def journal
    (s : System Vec F) :
    IntentJournal.State MemoryKey String where
  rows := memoryKeys s.world.db
  points := memoryPoints s.world.qdrant
  journal := journalEntries s.world.db
  workers := s.journalWorkers
  mode := s.mode.journal
  committed := { k | k ∈ s.committed }
  named := { k | s.NamedByForget k.2 }

end System

------------------------------------------------------------
-- Writes to the Stores, Read by the Protocol
------------------------------------------------------------

section Stores

open IntentJournal

variable {db db' : Sqlite} {q q' : Qdrant Vec}

/- What a store writes to the journal is its entry. -/
theorem journalEntry_pendingOp
    (ctx : StoreContext Vec F)
    (opId : String)
    (startedAt : DateTime) :
    journalEntry (Write.pendingOp ctx opId startedAt) =
      ctx.entry opId := by
  simp only [journalEntry, Write.pendingOp, Write.opKind,
    StoreContext.entry, StoreContext.key]
  split <;> rfl

/- An inserted operation is one more entry. -/
theorem journalEntries_insertPendingOp
    {op : PendingOp}
    (h : db.insertPendingOp op = .ok db') :
    journalEntries db' =
      journalEntries db ∪ {journalEntry op} := by
  rcases Sqlite.insertPendingOp_eq_ok h with ⟨_, rfl⟩
  ext e
  simp only [journalEntries, Set.mem_ofPred_eq,
    List.mem_append, List.mem_singleton, Set.mem_union,
    Set.mem_singleton_iff]
  constructor
  · rintro ⟨x, hx | rfl, rfl⟩
    · exact Or.inl ⟨x, hx, rfl⟩
    · exact Or.inr rfl
  · rintro (⟨x, hx, rfl⟩ | rfl)
    · exact ⟨x, Or.inl hx, rfl⟩
    · exact ⟨op, Or.inr rfl, rfl⟩

/- The mark is set on the operation's entry. -/
theorem journalEntries_mark
    (opId : String) :
    journalEntries (db.markPendingOpQdrantWritten opId) =
      markEntry opId (journalEntries db) := by
  ext e
  simp only [journalEntries, Set.mem_ofPred_eq,
    Sqlite.markPendingOpQdrantWritten, Table.mem_update_iff,
    mem_markEntry_iff]
  constructor
  · rintro ⟨_, ⟨x, hx, rfl⟩, rfl⟩
    by_cases hOp : x.opId = opId
    · rw [if_pos hOp]
      exact Or.inr ⟨_, ⟨x, hx, rfl⟩, hOp, rfl⟩
    · rw [if_neg hOp]
      exact Or.inl ⟨⟨x, hx, rfl⟩, hOp⟩
  · rintro (⟨⟨x, hx, rfl⟩, hOp⟩ | ⟨_, ⟨x, hx, rfl⟩, hOp, rfl⟩)
    · exact ⟨x, ⟨x, hx, if_neg hOp⟩, rfl⟩
    · exact ⟨_, ⟨x, hx, if_pos hOp⟩, rfl⟩

/- A cleared operation is no entry any more. -/
theorem journalEntries_delete
    {opId : String}
    (h :
      db'.pendingOps =
        Table.delete (fun op => op.opId = opId)
          db.pendingOps) :
    journalEntries db' =
      clearEntry opId (journalEntries db) := by
  ext e
  simp only [journalEntries, Set.mem_ofPred_eq, h,
    Table.mem_delete_iff, mem_clearEntry_iff]
  constructor
  · rintro ⟨x, ⟨hx, hOp⟩, rfl⟩
    exact ⟨⟨x, hx, rfl⟩, hOp⟩
  · rintro ⟨⟨x, hx, rfl⟩, hOp⟩
    exact ⟨x, ⟨hx, hOp⟩, rfl⟩

/- A logged op leaves the memories alone. -/
theorem memoryKeys_insertPendingOp
    {op : PendingOp}
    (h : db.insertPendingOp op = .ok db') :
    memoryKeys db' = memoryKeys db := by
  rcases Sqlite.insertPendingOp_eq_ok h with ⟨_, rfl⟩
  rfl

/- The commit adds the row of its memory. -/
theorem memoryKeys_commit
    {memory : Memory} {entityIds ids : List String}
    {t : DateTime} {op : CompletedOp}
    (h :
      db.commitMemoryWrite memory entityIds ids t op =
        .ok db') :
    memoryKeys db' =
      memoryKeys db ∪ {(memory.namespace, memory.id)} := by
  rcases Sqlite.commitMemoryWrite_eq_ok h with
    ⟨_, links, rfl⟩
  have hSame :
      ∀ r : MemoryRow,
        ((if r.id ∈ ids then Sqlite.invalidateRow t r
            else r).namespace,
          (if r.id ∈ ids then Sqlite.invalidateRow t r
            else r).id) = (r.namespace, r.id) := by
    intro r
    split <;> rfl
  ext k
  simp only [memoryKeys, Set.mem_ofPred_eq,
    Table.mem_update_iff, List.mem_append,
    List.mem_singleton, Set.mem_union,
    Set.mem_singleton_iff]
  constructor
  · rintro ⟨_, ⟨r, hr | rfl, rfl⟩, rfl⟩
    · exact Or.inl ⟨r, hr, (hSame r).symm⟩
    · exact Or.inr (hSame _)
  · rintro (⟨r, hr, rfl⟩ | rfl)
    · exact ⟨_, ⟨r, Or.inl hr, rfl⟩, hSame r⟩
    · exact ⟨_, ⟨_, Or.inr rfl, rfl⟩, hSame _⟩

/- A forget deletes every row with its id. -/
theorem memoryKeys_deleteMemories
    (db : Sqlite)
    (k : MemoryKey) :
    memoryKeys (db.deleteMemories [k.2]) =
      deleteRows Prod.snd k (memoryKeys db) := by
  ext x
  simp only [memoryKeys, Set.mem_ofPred_eq,
    Sqlite.deleteMemories, Table.mem_delete_iff,
    List.mem_singleton, mem_deleteRows_iff]
  constructor
  · rintro ⟨r, ⟨hr, hId⟩, rfl⟩
    exact ⟨⟨r, hr, rfl⟩, hId⟩
  · rintro ⟨⟨r, hr, rfl⟩, hId⟩
    exact ⟨r, ⟨hr, hId⟩, rfl⟩

/- An upsert adds the point of its memory. -/
theorem memoryPoints_upsert
    {ns id text : String} {vector : Vec}
    {payload : Payload}
    (h : q.upsert ns id vector text payload = .ok q')
    (hMemory : payload.IsMemory) :
    memoryPoints q' = memoryPoints q ∪ {(ns, id)} := by
  ext k
  simp only [memoryPoints, Set.mem_ofPred_eq, Set.mem_union,
    Set.mem_singleton_iff,
    Qdrant.hasMemoryPoint_upsert_iff h hMemory,
    Prod.ext_iff]
  exact or_comm

/- A deletion takes the point of its id away. -/
theorem memoryPoints_deleteByIds
    {ns id : String}
    (h : q.deleteByIds ns [id] = .ok q') :
    memoryPoints q' = memoryPoints q \ {(ns, id)} := by
  ext k
  simp only [memoryPoints, Set.mem_ofPred_eq, Set.mem_sdiff,
    Set.mem_singleton_iff,
    Qdrant.hasMemoryPoint_deleteByIds_iff h, Prod.ext_iff]
  exact and_comm

end Stores

------------------------------------------------------------
-- A Call's Next Task, Read by the Protocol
------------------------------------------------------------

namespace System

variable {s : System Vec F} {i : Nat} {task : Task Vec F}
variable {w : World Vec} {committed : List MemoryKey}

/- A call keeps the ids that it was asked to forget. -/
theorem namedByForget_setTask
    {id : String}
    (hNamed :
      match s.calls i with
      | some call => task.named = call.task.named
      | none => task.named = []) :
    (s.setTask i w task).NamedByForget id ↔
      s.NamedByForget id := by
  constructor
  · rintro ⟨j, call, hCall, hId⟩
    rw [calls_setTask] at hCall
    split at hCall
    · cases hCall
      split at hNamed
      · rename_i call' hCall'
        exact ⟨i, call', hCall', hNamed ▸ hId⟩
      · simp [hNamed] at hId
    · exact ⟨j, call, hCall, hId⟩
  · rintro ⟨j, call, hCall, hId⟩
    by_cases hj : j = i
    · subst hj
      simp only [hCall] at hNamed
      exact ⟨j, ⟨task, false⟩, by simp [calls_setTask],
        hNamed ▸ hId⟩
    · exact ⟨j, call, by simpa [calls_setTask, hj] using hCall,
        hId⟩

/- The protocol's state after a call has moved on. -/
theorem journal_setTask
    (task : Task Vec F)
    (committed : List (String × String))
    (hMode : s.mode = .up)
    (hNamed :
      match s.calls i with
      | some call => task.named = call.task.named
      | none => task.named = []) :
    System.journal
        { s.setTask i w task with committed := committed } =
      { s.journal with
        rows := memoryKeys w.db
        points := memoryPoints w.qdrant
        journal := journalEntries w.db
        workers :=
          Function.update s.journalWorkers i task.worker
        committed := { k | k ∈ committed } } := by
  have hWorkers :
      System.journalWorkers
          { s.setTask i w task with
            committed := committed } =
        Function.update s.journalWorkers i task.worker := by
    funext j
    have hLive :
        System.live
            { s.setTask i w task with
              committed := committed } j =
          if j = i then some task else s.live j :=
      live_setTask (w := w) hMode
    unfold journalWorkers
    rw [hLive]
    by_cases hj : j = i
    · subst hj
      simp
    · simp [hj]
  have hSame :
      ∀ k : MemoryKey,
        System.NamedByForget
            { s.setTask i w task with
              committed := committed } k.2 ↔
          s.NamedByForget k.2 :=
    fun k => namedByForget_setTask (w := w) hNamed
  simp only [System.journal, hWorkers, hSame]
  rfl

/- A live call is a worker. -/
theorem journalWorkers_of_live
    (hLive : s.live i = some task) :
    s.journalWorkers i = task.worker := by
  simp [journalWorkers, hLive]

end System

------------------------------------------------------------
-- Simulation
------------------------------------------------------------

section Simulation

open Ferrex.Core.System IntentJournal

variable {env : Env Vec F} {s t : System Vec F}

/- One event is one step of the protocol, or none. -/
def JournalStep (s t : System Vec F) : Prop :=
  t.journal = s.journal ∨
    IntentJournal.Step Prod.snd s.journal t.journal

/- No op of the journal has the next UUID. -/
private theorem op_ne_next
    (hSound : Sound env s) :
    ∀ e ∈ s.journal.journal,
      e.op ≠ env.uuid s.world.nextUuid := by
  rintro _ ⟨op, hOp, rfl⟩
  exact (hSound.world.ops op hOp).1.ne_next

/- A new UUID is fresh for the protocol. -/
private theorem fresh_next
    {k : MemoryKey}
    (hSound : Sound env s)
    (hId : k.2 = env.uuid s.world.nextUuid) :
    Fresh Prod.snd s.journal k where
  committed x hx :=
    hId ▸ (hSound.world.committed x hx).2.ne_next
  journal := by
    rintro _ ⟨op, hOp, rfl⟩
    exact hId ▸ (hSound.world.ops op hOp).2.1.ne_next
  workers := by
    intro i x hTask
    unfold System.journal journalWorkers at hTask
    dsimp only at hTask
    cases hLive : s.live i with
    | none => simp [hLive, Worker.task] at hTask
    | some task =>
        rw [hLive] at hTask
        rcases Task.context_of_worker hTask with
          ⟨ctx, hCtx, rfl⟩
        rw [hId]
        exact (hSound.contexts i task ctx hLive hCtx).2.ne_next

/-
  A quiet write changes neither the rows nor the journal.
-/
private theorem quiet_journal
    {w w' : World Vec}
    (hQuiet : Quiet w w') :
    memoryKeys w'.db = memoryKeys w.db ∧
      journalEntries w'.db = journalEntries w.db := by
  simp [memoryKeys, journalEntries, hQuiet.memories,
    hQuiet.pendingOps]

/- A step of a store call, read by the protocol. -/
private theorem journal_storeStep
    {service : MemoryService F}
    {i : Nat} {req : StoreRequest}
    {st st' : StoreStage Vec F} {w : World Vec}
    (hSound : Sound env s)
    (hLive : s.live i = some (.store req st))
    (hEffect :
      StoreStage.Effect env service s.world st w st') :
    JournalStep s
      { s.setTask i w (.store req st') with
        committed := s.committed ++
          Task.commits (.store req st)
            (.store req st') } := by
  have hMode := (live_eq_some hLive).1
  have hUp : s.journal.mode = .up := by
    simp [System.journal, hMode, Mode.journal]
  have hWorker : s.journal.workers i =
      (Task.store req st).worker :=
    journalWorkers_of_live hLive
  have hSame :
      ∀ {st₁ st₂ : StoreStage Vec F}
        {ctx ctx' : StoreContext Vec F},
        st₁.preparing = some ctx →
        st₂.preparing = some ctx' →
        SameCall ctx ctx' →
        s.live i = some (.store req st₁) →
          Function.update s.journalWorkers i
              (Task.store req st₂).worker =
            s.journalWorkers := by
    intro st₁ st₂ ctx ctx' hOld hNew hCall hLive₁
    rw [Function.update_eq_self_iff,
      journalWorkers_of_live hLive₁,
      Task.worker_of_preparing hOld,
      Task.worker_of_preparing hNew, hCall.key]
  rw [JournalStep, journal_setTask _ _ hMode
    (by simp [(live_eq_some hLive).2, Task.named])]
  cases hEffect with
  | @start req' _ ctx hQuiet hQdrant hNext hCall =>
      rw [Task.commits_eq_nil (by simp), List.append_nil,
        (quiet_journal hQuiet).1, (quiet_journal hQuiet).2,
        hQdrant]
      exact Or.inr (.chooseAdd hUp hWorker
        (fresh_next hSound hCall.id))
  | @prepare _ _ _ ctx ctx' hOld hNew hCall hEntity hQuiet
      hQdrant =>
      rw [Task.commits_eq_nil
          (fun r => Task.ne_done_of_preparing hNew (.ok r)),
        List.append_nil, hSame hOld hNew hCall hLive,
        (quiet_journal hQuiet).1, (quiet_journal hQuiet).2,
        hQdrant]
      exact Or.inl rfl
  | @createEntity _ _ _ ctx entity hOld hNew hEntity hId
      hQuiet hQdrant hNext =>
      rw [Task.commits_eq_nil
          (fun r => Task.ne_done_of_preparing hNew (.ok r)),
        List.append_nil,
        hSame hOld hNew (SameCall.refl ctx) hLive,
        (quiet_journal hQuiet).1, (quiet_journal hQuiet).2,
        hQdrant]
      exact Or.inl rfl
  | @entityPoint _ _ _ ctx ctx' entity embedding hOld hNew
      hCall hEntity hEntity' hQuiet hUpsert =>
      -- the entity's id is no memory point's
      have hFresh :=
        hSound.entity_points i _ entity hLive hEntity
          ctx.namespace
      have hPoints :
          memoryPoints w.qdrant =
            memoryPoints s.world.qdrant := by
        ext k
        exact Qdrant.hasMemoryPoint_upsert_entity_iff
          hUpsert (fun h => h) hFresh
      rw [Task.commits_eq_nil
          (fun r => Task.ne_done_of_preparing hNew (.ok r)),
        List.append_nil, hSame hOld hNew hCall hLive,
        (quiet_journal hQuiet).1, (quiet_journal hQuiet).2,
        hPoints]
      exact Or.inl rfl
  | stop hQuiet hQdrant =>
      rw [Task.commits_eq_nil (by simp), List.append_nil,
        (quiet_journal hQuiet).1, (quiet_journal hQuiet).2,
        hQdrant]
      exact Or.inr (.stop hUp)
  | @log ctx embedding db hInsert =>
      rw [Task.commits_eq_nil (by simp), List.append_nil,
        journalEntries_insertPendingOp hInsert,
        journalEntry_pendingOp,
        memoryKeys_insertPendingOp hInsert]
      exact Or.inr (.log hUp hWorker (op_ne_next hSound))
  | @write ctx embedding opId startedAt qdrant hUpsert =>
      rw [Task.commits_eq_nil (by simp), List.append_nil,
        memoryPoints_upsert hUpsert trivial]
      exact Or.inr (.writeAdd hUp hWorker rfl)
  | @mark ctx opId startedAt =>
      rw [Task.commits_eq_nil (by simp), List.append_nil,
        journalEntries_mark]
      exact Or.inr (.mark hUp hWorker)
  | @commit ctx opId startedAt db hCommit =>
      have hEntries :
          journalEntries db =
            clearEntry opId (journalEntries s.world.db) :=
        journalEntries_delete (by
            rcases Sqlite.commitMemoryWrite_eq_ok hCommit
              with ⟨_, links, rfl⟩
            rfl)
      have hCommitted :
          { k | k ∈ s.committed ++ [ctx.key] } =
            { k | k ∈ s.committed } ∪ {ctx.key} := by
        ext k
        simp [or_comm]
      rw [memoryKeys_commit hCommit, hEntries,
        show Task.commits (.store req (.commit ctx opId _))
            (.store req (.done (.ok _))) = [ctx.key]
          from rfl,
        hCommitted]
      exact Or.inr (.commit hUp hWorker rfl)
  | done =>
      have hSelf :
          Function.update s.journalWorkers i .idle =
            s.journalWorkers := by
        rw [Function.update_eq_self_iff]
        exact hWorker.symm
      rw [show Task.commits (.store req (.done _))
          (.store req (.done _)) = [] from rfl,
        List.append_nil]
      exact Or.inl (congrArg
        (fun workers =>
          { s.journal with workers := workers }) hSelf)

/- A step of a forget call, read by the protocol. -/
private theorem journal_forgetStep
    {i : Nat} {ids : List String} {st : ForgetStage F}
    (hSound : Sound env s)
    (hLive : s.live i = some (.forget ids st)) :
    JournalStep s
      (s.setTask i (st.step env s.world).1
        (.forget ids (st.step env s.world).2)) := by
  have hMode := (live_eq_some hLive).1
  have hCall := (live_eq_some hLive).2
  have hKeeps := hSound.forgets i _ hLive
  have hUp : s.journal.mode = .up := by
    simp [System.journal, hMode, Mode.journal]
  have hWorker :
      s.journal.workers i =
        Task.worker (.forget ids st) :=
    journalWorkers_of_live hLive
  have hJournal :
      ∀ (w : World Vec) (st' : ForgetStage F),
        System.journal (s.setTask i w (.forget ids st')) =
          { s.journal with
            rows := memoryKeys w.db
            points := memoryPoints w.qdrant
            journal := journalEntries w.db
            workers :=
              Function.update s.journalWorkers i
                (Task.forget ids st' : Task Vec F).worker } :=
    fun w st' =>
      journal_setTask (i := i)
        (w := w) _ _ hMode
        (by simp [hCall, Task.named])
  -- a task of an idle worker whose next one is idle too
  have hIdle :
      (Task.forget ids st : Task Vec F).worker = .idle →
        Function.update s.journalWorkers i .idle =
          s.journalWorkers := by
    intro h
    rw [Function.update_eq_self_iff,
      journalWorkers_of_live hLive, h]
  rw [JournalStep, hJournal]
  cases st with
  | lookup p =>
      rcases p with ⟨rest, deleted, notFound⟩
      cases rest with
      | nil =>
          exact Or.inl (congrArg
            (fun workers =>
              { s.journal with workers := workers })
            (hIdle rfl))
      | cons x rest =>
          rcases x with ⟨id, uuid⟩
          simp only [ForgetStage.step]
          cases hGet : s.world.db.getMemory id with
          | none =>
              exact Or.inl (congrArg
                (fun workers =>
                  { s.journal with workers := workers })
                (hIdle rfl))
          | some memory =>
              have hRow := Sqlite.getMemory_eq_some hGet
              have hId := (hKeeps.1 (id, uuid)
                (by simp [ForgetStage.remaining])).1
              exact Or.inr (.chooseRemove hUp hWorker
                ⟨_, hRow.1, Prod.ext rfl hRow.2⟩
                ⟨i, _, hCall, hId⟩)
  | insertOp p target =>
      simp only [ForgetStage.step]
      split
      · exact Or.inr (.stop hUp)
      · rename_i db hInsert
        rw [journalEntries_insertPendingOp hInsert,
          memoryKeys_insertPendingOp hInsert]
        exact Or.inr (.log hUp hWorker (op_ne_next hSound))
  | delete p target opId startedAt =>
      simp only [ForgetStage.step]
      split
      · exact Or.inr (.stop hUp)
      · rename_i qdrant hDelete
        -- the UUID of a memory's id prints as the id
        have hUuid : target.uuid = target.id := by
          have hParse := (hKeeps.1 (target.id, target.uuid)
            (by simp [ForgetStage.remaining])).2
          have hCanonical := (hSound.world.committed _
            (hKeeps.2 target rfl)).1
          exact Option.some.inj
            (hParse.symm.trans hCanonical)
        rw [memoryPoints_deleteByIds hDelete, hUuid]
        exact Or.inr (.writeRemove hUp hWorker rfl)
  | mark p target opId startedAt =>
      simp only [ForgetStage.step]
      rw [journalEntries_mark]
      exact Or.inr (.mark hUp hWorker)
  | deleteRow p target opId startedAt =>
      have hRows :=
        memoryKeys_deleteMemories s.world.db target.key
      simp only [ForgetStage.step]
      rw [show [target.id] = [target.key.2] from rfl, hRows]
      exact Or.inr (.deleteRow hUp hWorker rfl)
  | complete p target opId startedAt =>
      simp only [ForgetStage.step]
      rw [journalEntries_delete rfl]
      exact Or.inr (.complete hUp hWorker)
  | done result =>
      exact Or.inl (congrArg
        (fun workers =>
          { s.journal with workers := workers })
        (hIdle rfl))

/- While the process is down, or recovers, nobody works. -/
private theorem journalWorkers_of_not_up
    (hMode : s.mode ≠ .up) :
    s.journalWorkers = fun _ => .idle := by
  funext i
  simp [journalWorkers, live_of_not_up hMode]

/- The protocol's state while the process is not up. -/
private theorem journal_of_not_up
    (mode : Mode)
    {w : World Vec}
    (hMode : s.mode ≠ .up)
    (hMode' : mode ≠ .up) :
    System.journal { s with world := w, mode := mode } =
      { s.journal with
        rows := memoryKeys w.db
        points := memoryPoints w.qdrant
        journal := journalEntries w.db
        mode := mode.journal } := by
  have hWorkers :=
    journalWorkers_of_not_up (s := s) hMode
  have hWorkers' :=
    journalWorkers_of_not_up
      (s := { s with world := w, mode := mode }) hMode'
  simp only [System.journal, hWorkers, hWorkers']
  rfl

/- A recovery that has deleted a point has undone it. -/
private theorem journalMode_deleteRow
    {report : RecoveryReport} {op : PendingOp}
    {ops : List PendingOp}
    (hKind : op.kind ≠ .forget) :
    (Mode.recovering (.deleteRow report op ops)).journal =
      .pointUndone (journalEntry op) := by
  unfold Mode.journal
  cases hCases : op.kind <;> simp_all

/- Stores, updates and supersessions are all additions. -/
private theorem journalKind_of_ne_forget
    {kind : PendingOpKind}
    (hKind : kind ≠ .forget) :
    journalKind kind = .add := by
  cases kind <;> simp_all [journalKind]

/- A step of the recovery, read by the protocol. -/
private theorem journal_recover
    {stage stage' : RecoveryStage} {w : World Vec}
    (hSound : Sound env s)
    (hMode : s.mode = .recovering stage)
    (hStep : stage.step env s.world = .ok (w, stage')) :
    JournalStep s
      { s with world := w, mode := .recovering stage' } := by
  have hTracks := hSound.recovery stage hMode
  have hJournalMode :
      s.journal.mode = (Mode.recovering stage).journal :=
    congrArg Mode.journal hMode
  have hEntry :
      ∀ {op : PendingOp} {ops : List PendingOp},
        RecoveryStage.Lists (op :: ops) s.world.db →
          journalEntry op ∈ s.journal.journal :=
    fun h => ⟨_, (h.1 _).mp (by simp), rfl⟩
  -- a stage with the same reading and an untouched world
  have hStay :
      ∀ next : RecoveryStage,
        (Mode.recovering next).journal = s.journal.mode →
          JournalStep s
            { s with mode := .recovering next } := by
    intro next hSame
    have hEq :=
      journal_of_not_up (s := s) (w := s.world)
        (.recovering next) (by simp [hMode]) (by simp)
    rw [hSame] at hEq
    exact Or.inl hEq
  cases stage with
  | list =>
      cases hStep
      exact hStay _ hJournalMode.symm
  | check report ops =>
      cases ops with
      | nil =>
          cases hStep
          exact hStay _ hJournalMode.symm
      | cons op ops =>
          have hOp := hSound.world.ops op
            ((hTracks.1 op).mp (by simp))
          have hDown : s.journal.mode = .down := hJournalMode
          simp only [RecoveryStage.step] at hStep
          split at hStep
          · rename_i hCompleted
            exact absurd (of_decide_eq_true hCompleted)
              hOp.2.2.2
          · cases hStep
            unfold RecoveryStage.compensate
            split
            · rename_i hWritten
              rw [JournalStep, journal_of_not_up _
                (by simp [hMode]) (by simp)]
              exact Or.inr (.skip hDown (hEntry hTracks)
                hWritten)
            · rename_i hKind hWritten
              exact hStay _ (by
                simp [Mode.journal, hKind, hDown])
            · rename_i hWritten hKind
              rw [hOp.2.2.1 hKind]
              exact hStay _ hDown.symm
  | deletePoint report op uuid ops =>
      rcases hTracks with ⟨hLists, hKind, hWritten, rfl⟩
      simp only [RecoveryStage.step] at hStep
      split at hStep
      · cases hStep
      · rename_i qdrant hDelete
        cases hStep
        rw [JournalStep, journal_of_not_up _
          (by simp [hMode]) (by simp),
          journalMode_deleteRow hKind,
          memoryPoints_deleteByIds hDelete]
        exact Or.inr (.undoPoint hJournalMode
          (hEntry hLists) hWritten
          (journalKind_of_ne_forget hKind))
  | deleteRow report op ops =>
      rcases hTracks with ⟨hLists, hWritten⟩
      have hRows :=
        memoryKeys_deleteMemories s.world.db
          (journalEntry op).key
      cases hStep
      rw [JournalStep, journal_of_not_up _
        (by simp [hMode]) (by simp),
        show [op.memoryId] = [(journalEntry op).key.2]
          from rfl, hRows]
      refine Or.inr (.undoRow ?_)
      by_cases hKind : op.kind = .forget
      · refine Or.inr ⟨?_, hEntry hLists, hWritten, ?_⟩
        · simp [hJournalMode, Mode.journal, hKind]
        · simp [journalEntry, journalKind, hKind]
      · exact Or.inl (hJournalMode.trans
          (journalMode_deleteRow hKind))
  | clear report op ops =>
      cases hStep
      rw [JournalStep, journal_of_not_up _
        (by simp [hMode]) (by simp),
        journalEntries_delete rfl]
      exact Or.inr (.clear hJournalMode)
  | done report =>
      cases hStep
      exact hStay _ hJournalMode.symm

variable [LE F] [LT F] [DecidableLE F] [DecidableLT F]
variable {service : MemoryService F} {e : Event F}

/-
  Every event of the service is a step of the protocol, or
  nothing to it.
-/
theorem journal_step
    (hSound : Sound env s)
    (hNext : s.next env service e = some t) :
    JournalStep s t := by
  cases System.next_eq_some hNext with
  | tick d => exact Or.inl rfl
  | store i req hMode hNone =>
      have hEq :=
        journal_setTask (i := i) (w := s.world)
          (.store req (.ensure req)) s.committed hMode
          (by simp [hNone, Task.named])
      have hSelf :
          Function.update s.journalWorkers i .idle =
            s.journalWorkers := by
        rw [Function.update_eq_self_iff]
        simp [journalWorkers, System.live, hNone]
      exact Or.inl (hEq.trans (congrArg
        (fun workers =>
          { s.journal with workers := workers }) hSelf))
  | forget i ids hMode hNone =>
      have hIdle :
          (Task.forget ids (ForgetStage.start env ids) :
              Task Vec F).worker =
            .idle := by
        unfold ForgetStage.start
        split <;> rfl
      have hWorkers :
          System.journalWorkers
              (s.setTask i s.world
                (.forget ids (ForgetStage.start env ids))) =
            s.journalWorkers := by
        funext j
        unfold journalWorkers
        rw [live_setTask hMode]
        by_cases hj : j = i
        · subst hj
          simp [hIdle, System.live, hNone]
        · simp [hj]
      have hNamed :
          ∀ k : MemoryKey,
            (s.setTask i s.world
              (.forget ids (ForgetStage.start env ids))
                ).NamedByForget k.2 ↔
              s.NamedByForget k.2 ∨ k.2 ∈ ids := by
        intro k
        constructor
        · rintro ⟨j, call, hCall, hId⟩
          rw [calls_setTask] at hCall
          split at hCall
          · cases hCall
            exact Or.inr hId
          · exact Or.inl ⟨j, call, hCall, hId⟩
        · rintro (⟨j, call, hCall, hId⟩ | hId)
          · have hj : j ≠ i := by
              rintro rfl
              simp [hNone] at hCall
            exact ⟨j, call,
              by simpa [calls_setTask, hj] using hCall, hId⟩
          · exact ⟨i,
              ⟨.forget ids (ForgetStage.start env ids), false⟩,
              by simp [calls_setTask], hId⟩
      have hEq :
          (s.setTask i s.world
            (.forget ids (ForgetStage.start env ids))
              ).journal =
            { s.journal with
              named :=
                s.journal.named ∪ { k | k.2 ∈ ids } } := by
        simp only [System.journal, hWorkers, hNamed]
        rfl
      rw [JournalStep, hEq]
      exact Or.inr (.name _)
  | step i task hLive =>
      cases task with
      | store req st =>
          exact journal_storeStep hSound hLive
            (StoreStage.step_effect _ _ s.world st)
      | forget ids st =>
          have hStep := journal_forgetStep hSound hLive
          rw [show Task.commits (.forget ids st) _ = []
            from rfl, List.append_nil]
          exact hStep
  | fail i task e hLive hCalls =>
      have hMode := (live_eq_some hLive).1
      have hEq :=
        journal_setTask (i := i) (w := s.world)
          (task.fail e) s.committed hMode
          (by
            cases task <;>
              simp [(live_eq_some hLive).2, Task.named,
                Task.fail])
      have hIdle : (task.fail e).worker = .idle := by
        cases task <;> rfl
      rw [hIdle] at hEq
      have hStop :
          IntentJournal.Step Prod.snd s.journal
            { s.journal with
              workers :=
                Function.update s.journalWorkers i .idle } :=
        .stop (by simp [System.journal, hMode, Mode.journal])
      exact Or.inr (hEq ▸ hStop)
  | crash =>
      have hNamed :
          ∀ id : String,
            System.NamedByForget
                { s with
                  calls := fun i =>
                    (s.calls i).map
                      (fun c => { c with lost := true })
                  mode := .down } id ↔
              s.NamedByForget id := by
        intro id
        constructor
        · rintro ⟨i, call, hCall, hId⟩
          rcases Option.map_eq_some_iff.mp hCall with
            ⟨call₀, hCall₀, rfl⟩
          exact ⟨i, call₀, hCall₀, hId⟩
        · rintro ⟨i, call, hCall, hId⟩
          exact ⟨i, { call with lost := true },
            by simp [hCall], hId⟩
      have hWorkers :=
        journalWorkers_of_not_up
          (s := { s with
            calls := fun i =>
              (s.calls i).map
                (fun c => { c with lost := true })
            mode := .down }) (by simp)
      have hCrash :
          IntentJournal.Step Prod.snd s.journal
            { s.journal with
              workers := fun _ => .idle
              mode := .down } :=
        .crash
      rw [JournalStep]
      refine Or.inr ?_
      simp only [System.journal, hNamed, hWorkers]
      exact hCrash
  | restart hMode =>
      have hEq :=
        journal_of_not_up (s := s) (w := s.world)
          (.recovering .list)
          (by simp [hMode]) (by simp)
      exact Or.inl (hEq.trans (by
        simp [System.journal, hMode, Mode.journal]))
  | recover stage stage' w hMode hStep =>
      exact journal_recover hSound hMode hStep
  | recovered report hMode =>
      have hLost := hSound.lost (by simp [hMode])
      have hOps : s.world.db.pendingOps = [] :=
        hSound.recovery _ hMode
      have hWorkers :
          System.journalWorkers { s with mode := .up } =
            s.journalWorkers := by
        rw [journalWorkers_of_not_up (s := s)
          (by simp [hMode])]
        funext i
        unfold journalWorkers System.live
        split
        · rename_i task hLive
          split at hLive
          · rename_i hCall
            exact absurd (hLost i _ hCall) (by simp)
          · cases hLive
        · rfl
      have hEq :
          System.journal { s with mode := .up } =
            { s.journal with mode := .up } := by
        simp only [System.journal, hWorkers]
        rfl
      rw [JournalStep, hEq]
      exact Or.inr (.recovered (congrArg Mode.journal hMode)
        (by simp [System.journal, journalEntries, hOps]))

end Simulation

end Core

end Ferrex
