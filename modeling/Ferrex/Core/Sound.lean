import Ferrex.Core.Calls
import Ferrex.Core.Service

/-
  What holds of the ids in every state of the service: each
  id in use was generated before, memories keep clear of the
  entities that share their collections, journal and
  completed ops are apart, and a recovery works on the ops
  that are in the journal.

  Main declarations:
    * `Old`
    * `WorldSound`, `Sound`
    * `Sound.setTask`
    * `Sound.next`
-/

------------------------------------------------------------
-- Old Ids
------------------------------------------------------------

namespace Ferrex

namespace Core

open Store

variable {Vec F : Type}

/- An id that no UUID still to be generated will have. -/
def Old
    (env : Env Vec F)
    (w : World Vec)
    (id : String) : Prop :=
  ∀ n, w.nextUuid ≤ n → id ≠ env.uuid n

namespace Old

variable {env : Env Vec F} {w w' : World Vec}
variable {id : String}

theorem mono
    (h : Old env w id)
    (hNext : w.nextUuid ≤ w'.nextUuid) :
    Old env w' id :=
  fun n hn => h n (hNext.trans hn)

theorem ne_next
    (h : Old env w id) :
    id ≠ env.uuid w.nextUuid :=
  h _ le_rfl

/- The UUID generated next is old as soon as it is taken. -/
theorem of_next
    (hNext : w.nextUuid < w'.nextUuid) :
    Old env w' (env.uuid w.nextUuid) := by
  intro n hn hEq
  have hSame := env.uuid_injective _ _ hEq
  omega

end Old

------------------------------------------------------------
-- Readings of a Task
------------------------------------------------------------

namespace ForgetStage

/- The ids a forget call still has to deal with. -/
def remaining : ForgetStage F → List (String × String)
| .lookup p => p.rest
| .insertOp p target => (target.id, target.uuid) :: p.rest
| .delete p target _ _ => (target.id, target.uuid) :: p.rest
| .mark p target _ _ => (target.id, target.uuid) :: p.rest
| .deleteRow p target _ _ =>
    (target.id, target.uuid) :: p.rest
| .complete p target _ _ =>
    (target.id, target.uuid) :: p.rest
| .done _ => []

/- The memory that a forget call is working on. -/
def target : ForgetStage F → Option ForgetTarget
| .insertOp _ target => some target
| .delete _ target _ _ => some target
| .mark _ target _ _ => some target
| .deleteRow _ target _ _ => some target
| .complete _ target _ _ => some target
| _ => none

end ForgetStage

namespace Task

def context : Task Vec F → Option (StoreContext Vec F)
| .store _ stage => stage.context
| .forget _ _ => none

/- The op that a call has logged and not completed. -/
def opId : Task Vec F → Option String
| .store _ (.upsert _ _ opId _) => some opId
| .store _ (.mark _ opId _) => some opId
| .store _ (.commit _ opId _) => some opId
| .forget _ (.delete _ _ opId _) => some opId
| .forget _ (.mark _ _ opId _) => some opId
| .forget _ (.deleteRow _ _ opId _) => some opId
| .forget _ (.complete _ _ opId _) => some opId
| _ => none

def newEntity : Task Vec F → Option Store.Entity
| .store _ stage => stage.newEntity
| .forget _ _ => none

/-
  A forget call keeps to its ids and their UUIDs, and works
  on memories that were committed.
-/
def KeepsIds
    (env : Env Vec F)
    (committed : List (String × String)) :
    Task Vec F → Prop
| .store _ _ => True
| .forget ids stage =>
    (∀ x ∈ stage.remaining,
      x.1 ∈ ids ∧ env.parseUuid x.1 = some x.2) ∧
    ∀ target ∈ stage.target,
      (target.namespace, target.id) ∈ committed

theorem KeepsIds.mono
    {env : Env Vec F} {task : Task Vec F}
    {committed committed' : List (String × String)}
    (h : task.KeepsIds env committed)
    (hSubset : committed ⊆ committed') :
    task.KeepsIds env committed' := by
  cases task with
  | store req stage => trivial
  | forget ids stage =>
      exact ⟨h.1, fun target hTarget =>
        hSubset (h.2 target hTarget)⟩

/- A stage that is not the end of a call commits nothing. -/
theorem commits_eq_nil
    {req : StoreRequest}
    {st st' : StoreStage Vec F}
    (h : ∀ response, st' ≠ .done (.ok response)) :
    commits (.store req st) (.store req st') = [] := by
  unfold commits
  split
  · rename_i hNext
    injection hNext with _ hStage
    exact absurd hStage (h _)
  · rfl

theorem opId_of_preparing
    {req : StoreRequest} {st : StoreStage Vec F}
    {ctx : StoreContext Vec F}
    (h : st.preparing = some ctx) :
    opId (.store req st) = none := by
  cases st <;> simp_all [StoreStage.preparing, opId]

theorem ne_done_of_preparing
    {st : StoreStage Vec F} {ctx : StoreContext Vec F}
    (h : st.preparing = some ctx)
    (result : Except (CoreError F) StoreResponse) :
    st ≠ .done result := by
  rintro rfl
  simp [StoreStage.preparing] at h

end Task

theorem mem_of_parseUuids
    {env : Env Vec F} {ids : List String}
    {rest : List (String × String)}
    (h :
      parseUuids env ids =
        (.ok rest : Except (CoreError F) _)) :
    ∀ x ∈ rest, x.1 ∈ ids ∧ env.parseUuid x.1 = some x.2 := by
  induction ids generalizing rest with
  | nil =>
      cases h
      simp
  | cons id ids ih =>
      unfold parseUuids at h
      split at h
      · cases h
      · rename_i uuid hParse
        split at h
        · cases h
        · rename_i rest' hRest
          cases h
          intro x hx
          rcases List.mem_cons.mp hx with rfl | hx
          · exact ⟨by simp, hParse⟩
          · have hTail := ih hRest x hx
            exact ⟨by simp [hTail.1], hTail.2⟩

/- A forget call starts with the ids that it was given. -/
theorem keepsIds_start
    (env : Env Vec F)
    (ids : List String)
    (committed : List (String × String)) :
    Task.KeepsIds env committed
      (.forget ids (ForgetStage.start env ids)) := by
  simp only [Task.KeepsIds, ForgetStage.start]
  cases hParse :
      (parseUuids env ids : Except (CoreError F) _) with
  | error e =>
      simp [ForgetStage.remaining, ForgetStage.target]
  | ok rest =>
      exact ⟨mem_of_parseUuids hParse,
        by simp [ForgetStage.target]⟩

namespace RecoveryStage

/- The ops of a stage are those of the journal, once each. -/
def Lists (ops : List PendingOp) (db : Sqlite) : Prop :=
  (∀ op, op ∈ ops ↔ op ∈ db.pendingOps) ∧
    Table.KeyUnique PendingOp.opId ops

/- What a recovery knows about the journal at each stage. -/
def Tracks (db : Sqlite) : RecoveryStage → Prop
| .list => True
| .check _ ops => Lists ops db
| .deletePoint _ op uuid ops =>
    Lists (op :: ops) db ∧ op.kind ≠ .forget ∧
      op.qdrantWritten = true ∧ uuid = op.memoryId
| .deleteRow _ op ops =>
    Lists (op :: ops) db ∧ op.qdrantWritten = true
| .clear _ op ops => Lists (op :: ops) db
| .done _ => db.pendingOps = []

end RecoveryStage

------------------------------------------------------------
-- Soundness of a World
------------------------------------------------------------

/-
  The ids of the stores and of the journal, together with
  the history of what was committed.
-/
structure WorldSound
    (env : Env Vec F)
    (w : World Vec)
    (committed : List (String × String)) : Prop where
  rows :
    ∀ r ∈ w.db.memories, (r.namespace, r.id) ∈ committed
  rows_unique : Table.KeyUnique MemoryRow.id w.db.memories
  committed :
    ∀ k ∈ committed,
      env.parseUuid k.2 = some k.2 ∧ Old env w k.2
  ops :
    ∀ op ∈ w.db.pendingOps,
      Old env w op.opId ∧ Old env w op.memoryId ∧
        (op.kind ≠ .forget →
          env.parseUuid op.memoryId = some op.memoryId) ∧
        ¬ Table.HasKey CompletedOp.opId op.opId
          w.db.completedOps
  ops_unique :
    Table.KeyUnique PendingOp.opId w.db.pendingOps
  completed :
    ∀ op ∈ w.db.completedOps, Old env w op.opId
  points :
    ∀ ns, ∀ p ∈ w.qdrant.points ns,
      p.payload.IsMemory → Old env w p.id

namespace WorldSound

variable {env : Env Vec F} {w w' : World Vec}
variable {committed : List (String × String)}

/- A step that adds nothing to journal or points. -/
theorem quiet
    (hSound : WorldSound env w committed)
    (hQuiet : Quiet w w')
    (hPoints :
      ∀ ns, ∀ p ∈ w'.qdrant.points ns,
        p.payload.IsMemory → p ∈ w.qdrant.points ns) :
    WorldSound env w' committed := by
  have hNext := hQuiet.nextUuid
  constructor
  case rows =>
    rw [hQuiet.memories]
    exact hSound.rows
  case rows_unique =>
    rw [hQuiet.memories]
    exact hSound.rows_unique
  case committed =>
    intro k hk
    have hOld := hSound.committed k hk
    exact ⟨hOld.1, hOld.2.mono hNext⟩
  case ops =>
    intro op hop
    have hOld := hSound.ops op (hQuiet.pendingOps ▸ hop)
    rw [hQuiet.completedOps]
    exact ⟨hOld.1.mono hNext, hOld.2.1.mono hNext,
      hOld.2.2⟩
  case ops_unique =>
    rw [hQuiet.pendingOps]
    exact hSound.ops_unique
  case completed =>
    intro op hop
    exact (hSound.completed op
      (hQuiet.completedOps ▸ hop)).mono hNext
  case points =>
    intro ns p hp hMemory
    exact (hSound.points ns p (hPoints ns p hp hMemory)
      hMemory).mono hNext

/- An op that is logged under the next UUID. -/
theorem log
    {op : PendingOp} {db : Sqlite}
    (hSound : WorldSound env w committed)
    (hInsert : w.db.insertPendingOp op = .ok db)
    (hOp : op.opId = env.uuid w.nextUuid)
    (hMemory : Old env w op.memoryId)
    (hUuid :
      op.kind ≠ .forget →
        env.parseUuid op.memoryId = some op.memoryId) :
    WorldSound env
      { w with db := db, nextUuid := w.nextUuid + 1 }
      committed := by
  rcases Sqlite.insertPendingOp_eq_ok hInsert with
    ⟨hFresh, rfl⟩
  have hNext : w.nextUuid ≤ w.nextUuid + 1 := Nat.le_succ _
  constructor
  case rows => exact hSound.rows
  case rows_unique => exact hSound.rows_unique
  case committed =>
    intro k hk
    have hOld := hSound.committed k hk
    exact ⟨hOld.1, hOld.2.mono hNext⟩
  case ops =>
    intro x hx
    rcases List.mem_append.mp hx with hx | hx
    · have hOld := hSound.ops x hx
      exact ⟨hOld.1.mono hNext, hOld.2.1.mono hNext,
        hOld.2.2⟩
    · obtain rfl := List.mem_singleton.mp hx
      refine ⟨hOp ▸ Old.of_next (Nat.lt_succ_self _),
        hMemory.mono hNext, hUuid, ?_⟩
      rintro ⟨c, hc, hEq⟩
      exact (hSound.completed c hc).ne_next (hEq.trans hOp)
  case ops_unique =>
    exact hSound.ops_unique.append hFresh
  case completed =>
    intro x hx
    exact (hSound.completed x hx).mono hNext
  case points =>
    intro ns p hp hMem
    exact (hSound.points ns p hp hMem).mono hNext

theorem mark
    (hSound : WorldSound env w committed)
    (opId : String) :
    WorldSound env
      { w with db := w.db.markPendingOpQdrantWritten opId }
      committed where
  rows := hSound.rows
  rows_unique := hSound.rows_unique
  committed := hSound.committed
  ops := by
    intro x hx
    rcases Table.mem_update_iff.mp hx with ⟨y, hy, rfl⟩
    have hOld := hSound.ops y hy
    by_cases hEq : y.opId = opId
    · rw [if_pos hEq]
      exact hOld
    · rw [if_neg hEq]
      exact hOld
  ops_unique := hSound.ops_unique.update (fun _ => rfl)
  completed := hSound.completed
  points := hSound.points

/- An op that is completed leaves the journal. -/
private theorem complete
    (db : Sqlite)
    {op : CompletedOp}
    (hSound : WorldSound env w committed)
    (hOp : Old env w op.opId)
    (hPending :
      db.pendingOps =
        Table.delete (fun p => p.opId = op.opId)
          w.db.pendingOps)
    (hCompleted :
      db.completedOps =
        Table.upsert CompletedOp.opId op
          w.db.completedOps) :
    (∀ x ∈ db.pendingOps,
      Old env w x.opId ∧ Old env w x.memoryId ∧
        (x.kind ≠ .forget →
          env.parseUuid x.memoryId = some x.memoryId) ∧
        ¬ Table.HasKey CompletedOp.opId x.opId
          db.completedOps) ∧
    Table.KeyUnique PendingOp.opId db.pendingOps ∧
    ∀ x ∈ db.completedOps, Old env w x.opId := by
  refine ⟨?_, ?_, ?_⟩
  · intro x hx
    simp only [hPending, Table.mem_delete_iff] at hx
    have hOld := hSound.ops x hx.1
    refine ⟨hOld.1, hOld.2.1, hOld.2.2.1, ?_⟩
    rintro ⟨c, hc, hEq⟩
    simp only [hCompleted, Table.mem_upsert_iff] at hc
    rcases hc with rfl | ⟨hc, _⟩
    · exact hx.2 hEq.symm
    · exact hOld.2.2.2 ⟨c, hc, hEq⟩
  · rw [hPending]
    exact hSound.ops_unique.delete
  · intro x hx
    simp only [hCompleted, Table.mem_upsert_iff] at hx
    rcases hx with rfl | ⟨hx, _⟩
    · exact hOp
    · exact hSound.completed x hx

theorem completeOp
    {op : CompletedOp}
    (hSound : WorldSound env w committed)
    (hOp : Old env w op.opId) :
    WorldSound env { w with db := w.db.completeOp op }
      committed := by
  have hJournal :=
    complete (w.db.completeOp op) hSound hOp rfl rfl
  exact ⟨hSound.rows, hSound.rows_unique, hSound.committed,
    hJournal.1, hJournal.2.1, hJournal.2.2, hSound.points⟩

/- A commit adds one memory, and its key to the history. -/
theorem commit
    {memory : Memory} {entityIds ids : List String}
    {t : DateTime} {op : CompletedOp} {db : Sqlite}
    (hSound : WorldSound env w committed)
    (hCommit :
      w.db.commitMemoryWrite memory entityIds ids t op =
        .ok db)
    (hOp : Old env w op.opId)
    (hUuid : env.parseUuid memory.id = some memory.id)
    (hOld : Old env w memory.id) :
    WorldSound env { w with db := db }
      (committed ++ [(memory.namespace, memory.id)]) := by
  rcases Sqlite.commitMemoryWrite_eq_ok hCommit with
    ⟨hFresh, links, rfl⟩
  have hKey :
      ∀ r : MemoryRow,
        (Sqlite.invalidateRow t r).id = r.id :=
    fun _ => rfl
  have hJournal :=
    complete
      { w.db with
        completedOps :=
          Table.upsert CompletedOp.opId op w.db.completedOps
        pendingOps :=
          Table.delete (fun p => p.opId = op.opId)
            w.db.pendingOps } hSound hOp rfl rfl
  constructor
  case rows =>
    intro r hr
    rcases Table.mem_update_iff.mp hr with ⟨r₀, hr₀, rfl⟩
    have hSame :
        ∀ r' : MemoryRow,
          (if r'.id ∈ ids then Sqlite.invalidateRow t r'
            else r').namespace = r'.namespace ∧
          (if r'.id ∈ ids then Sqlite.invalidateRow t r'
            else r').id = r'.id := by
      intro r'
      split <;> exact ⟨rfl, rfl⟩
    rw [(hSame r₀).1, (hSame r₀).2]
    rcases List.mem_append.mp hr₀ with hr₀ | hr₀
    · exact List.mem_append_left _ (hSound.rows r₀ hr₀)
    · obtain rfl := List.mem_singleton.mp hr₀
      exact List.mem_append_right _ (by simp)
  case rows_unique =>
    exact (hSound.rows_unique.append hFresh).update hKey
  case committed =>
    intro k hk
    rcases List.mem_append.mp hk with hk | hk
    · exact hSound.committed k hk
    · obtain rfl := List.mem_singleton.mp hk
      exact ⟨hUuid, hOld⟩
  case ops => exact hJournal.1
  case ops_unique => exact hJournal.2.1
  case completed => exact hJournal.2.2
  case points => exact hSound.points

theorem clear
    (hSound : WorldSound env w committed)
    (opId : String) :
    WorldSound env
      { w with db := w.db.clearPendingOp opId }
      committed where
  rows := hSound.rows
  rows_unique := hSound.rows_unique
  committed := hSound.committed
  ops x hx := hSound.ops x (Table.mem_delete_iff.mp hx).1
  ops_unique := hSound.ops_unique.delete
  completed := hSound.completed
  points := hSound.points

/- The points of Qdrant change, with no new memory id. -/
theorem setQdrant
    {qdrant : Qdrant Vec}
    (hSound : WorldSound env w committed)
    (hPoints :
      ∀ ns, ∀ p ∈ qdrant.points ns,
        p.payload.IsMemory → Old env w p.id) :
    WorldSound env { w with qdrant := qdrant }
      committed where
  rows := hSound.rows
  rows_unique := hSound.rows_unique
  committed := hSound.committed
  ops := hSound.ops
  ops_unique := hSound.ops_unique
  completed := hSound.completed
  points := hPoints

/- Deleting memories is nothing to the ids in use. -/
theorem deleteMemories
    (hSound : WorldSound env w committed)
    (ids : List String) :
    WorldSound env
      { w with db := w.db.deleteMemories ids }
      committed where
  rows r hr := hSound.rows r (Table.mem_delete_iff.mp hr).1
  rows_unique := hSound.rows_unique.delete
  committed := hSound.committed
  ops := hSound.ops
  ops_unique := hSound.ops_unique
  completed := hSound.completed
  points := hSound.points

end WorldSound

------------------------------------------------------------
-- Soundness of a System
------------------------------------------------------------

structure Sound
    (env : Env Vec F)
    (s : System Vec F) : Prop where
  world : WorldSound env s.world s.committed
  contexts :
    ∀ i task ctx, s.live i = some task →
      task.context = some ctx →
        env.parseUuid ctx.id = some ctx.id ∧
          Old env s.world ctx.id
  opIds :
    ∀ i task opId, s.live i = some task →
      task.opId = some opId → Old env s.world opId
  entities :
    ∀ i task e, s.live i = some task →
      task.newEntity = some e → Old env s.world e.id
  entity_points :
    ∀ i task e, s.live i = some task →
      task.newEntity = some e →
        ∀ ns, ∀ p ∈ s.world.qdrant.points ns,
          p.payload.IsMemory → p.id ≠ e.id
  entity_contexts :
    ∀ i task e, s.live i = some task →
      task.newEntity = some e →
        ∀ j task' ctx, s.live j = some task' →
          task'.context = some ctx → ctx.id ≠ e.id
  forgets :
    ∀ i task, s.live i = some task →
      task.KeepsIds env s.committed
  lost :
    s.mode ≠ .up →
      ∀ i call, s.calls i = some call → call.lost = true
  recovery :
    ∀ stage, s.mode = .recovering stage →
      stage.Tracks s.world.db

namespace Sound

open Ferrex.Core.System

variable {env : Env Vec F} {s : System Vec F}

/- A state without live calls and without a recovery. -/
theorem of_no_calls
    (hWorld : WorldSound env s.world s.committed)
    (hCalls : ∀ i, s.live i = none)
    (hLost :
      ∀ i call, s.calls i = some call → call.lost = true)
    (hRecovery :
      ∀ stage, s.mode = .recovering stage →
        stage.Tracks s.world.db) :
    Sound env s := by
  constructor <;> grind

/-
  A call goes to its next task.  A context it has then is
  its old one, or has just got its id; a new entity has just
  got its id; a new memory point is that of its context.
-/
theorem setTask
    (task task' : Task Vec F)
    {i : Nat} {w : World Vec}
    {committed : List (String × String)}
    (hSound : Sound env s)
    (hMode : s.mode = .up)
    (hTask :
      s.live i = some task ∨ task.context = none)
    (hNext : s.world.nextUuid ≤ w.nextUuid)
    (hWorld : WorldSound env w committed)
    (hPoints :
      ∀ ns, ∀ p ∈ w.qdrant.points ns,
        p.payload.IsMemory →
          p ∈ s.world.qdrant.points ns ∨
            ∃ ctx, task.context = some ctx ∧ p.id = ctx.id)
    (hContext :
      ∀ ctx', task'.context = some ctx' →
        (∃ ctx, task.context = some ctx ∧
          ctx'.id = ctx.id) ∨
        (ctx'.id = env.uuid s.world.nextUuid ∧
          s.world.nextUuid < w.nextUuid))
    (hOpId :
      ∀ opId, task'.opId = some opId →
        (s.live i = some task ∧ task.opId = some opId) ∨
        (opId = env.uuid s.world.nextUuid ∧
          s.world.nextUuid < w.nextUuid))
    (hEntity :
      ∀ e, task'.newEntity = some e →
        e.id = env.uuid s.world.nextUuid ∧
          s.world.nextUuid < w.nextUuid ∧
            ∃ ctx ctx', task.context = some ctx ∧
              task'.context = some ctx' ∧ ctx'.id = ctx.id)
    (hCommitted : s.committed ⊆ committed)
    (hForget : task'.KeepsIds env committed) :
    Sound env
      { s.setTask i w task' with committed := committed } := by
  have hLive {j : Nat} :
      System.live
          { s.setTask i w task' with
            committed := committed } j =
        if j = i then some task' else s.live j :=
    live_setTask (i := i) (w := w) hMode
  have hOldContext :
      ∀ ctx, task.context = some ctx →
        env.parseUuid ctx.id = some ctx.id ∧
          Old env s.world ctx.id := by
    intro ctx hCtx
    rcases hTask with hTask | hNone
    · exact hSound.contexts i task ctx hTask hCtx
    · simp [hNone] at hCtx
  have hOldEntity :
      ∀ j task₀ e, s.live j = some task₀ →
        task₀.newEntity = some e →
          ∀ ctx, task.context = some ctx →
            ctx.id ≠ e.id := by
    intro j task₀ e hj he ctx hCtx
    rcases hTask with hTask | hNone
    · exact hSound.entity_contexts j task₀ e hj he
        i task ctx hTask hCtx
    · simp [hNone] at hCtx
  constructor
  case world => exact hWorld
  case contexts =>
    intro j task₀ ctx hj hCtx
    rw [hLive] at hj
    split at hj
    · cases hj
      rcases hContext ctx hCtx with
        ⟨ctx₀, hCtx₀, hId⟩ | ⟨hId, hTaken⟩
      · have hOld := hOldContext ctx₀ hCtx₀
        exact hId ▸ ⟨hOld.1, hOld.2.mono hNext⟩
      · exact hId ▸ ⟨env.parseUuid_uuid _,
          Old.of_next hTaken⟩
    · have hOld := hSound.contexts j task₀ ctx hj hCtx
      exact ⟨hOld.1, hOld.2.mono hNext⟩
  case opIds =>
    intro j task₀ opId hj hOp
    rw [hLive] at hj
    split at hj
    · cases hj
      rcases hOpId opId hOp with
        ⟨hTask, hOld⟩ | ⟨hId, hTaken⟩
      · exact (hSound.opIds i task opId hTask hOld).mono
          hNext
      · exact hId ▸ Old.of_next hTaken
    · exact (hSound.opIds j task₀ opId hj hOp).mono hNext
  case entities =>
    intro j task₀ e hj he
    rw [hLive] at hj
    split at hj
    · cases hj
      have hNew := hEntity e he
      exact hNew.1 ▸ Old.of_next hNew.2.1
    · exact (hSound.entities j task₀ e hj he).mono hNext
  case entity_points =>
    intro j task₀ e hj he ns p hp hMemory
    rw [hLive] at hj
    rcases hPoints ns p hp hMemory with
      hp' | ⟨ctx, hCtx, hId⟩
    · split at hj
      · cases hj
        exact (hEntity e he).1 ▸
          (hSound.world.points ns p hp' hMemory).ne_next
      · exact hSound.entity_points j task₀ e hj he ns p hp'
          hMemory
    · split at hj
      · cases hj
        rw [hId, (hEntity e he).1]
        exact (hOldContext ctx hCtx).2.ne_next
      · exact hId ▸ hOldEntity j task₀ e hj he ctx hCtx
  case entity_contexts =>
    intro j task₀ e hj he k task₁ ctx hk hCtx
    rw [hLive] at hj hk
    split at hj
    · cases hj
      have hNew := hEntity e he
      split at hk
      · cases hk
        rcases hNew.2.2 with ⟨ctx₀, ctx', hCtx₀, hCtx', hId⟩
        cases hCtx.symm.trans hCtx'
        rw [hNew.1, hId]
        exact (hOldContext ctx₀ hCtx₀).2.ne_next
      · exact hNew.1 ▸
          (hSound.contexts k task₁ ctx hk hCtx).2.ne_next
    · split at hk
      · cases hk
        rcases hContext ctx hCtx with
          ⟨ctx₀, hCtx₀, hId⟩ | ⟨hId, _⟩
        · exact hId ▸ hOldEntity j task₀ e hj he ctx₀ hCtx₀
        · exact hId ▸
            (hSound.entities j task₀ e hj he).ne_next.symm
      · exact hSound.entity_contexts j task₀ e hj he
          k task₁ ctx hk hCtx
  case forgets =>
    intro j task₀ hj
    rw [hLive] at hj
    split at hj
    · cases hj
      exact hForget
    · exact (hSound.forgets j task₀ hj).mono hCommitted
  case lost => exact fun hNot => absurd hMode hNot
  case recovery =>
    intro stage hStage
    exact absurd (hMode.symm.trans hStage) (by simp)

------------------------------------------------------------
-- Soundness Along the Steps
------------------------------------------------------------

/- A step of a store call keeps the system sound. -/
theorem storeStep
    {service : MemoryService F}
    {i : Nat} {req : StoreRequest}
    {st st' : StoreStage Vec F} {w : World Vec}
    (hSound : Sound env s)
    (hLive : s.live i = some (.store req st))
    (hEffect :
      StoreStage.Effect env service s.world st w st') :
    Sound env
      { s.setTask i w (.store req st') with
        committed := s.committed ++
          Task.commits (.store req st)
            (.store req st') } := by
  have hMode := (live_eq_some hLive).1
  have hContexts := fun ctx =>
    hSound.contexts i _ ctx hLive
  cases hEffect with
  | start hQuiet hQdrant hNext hCall =>
      rw [Task.commits_eq_nil (by simp), List.append_nil]
      refine hSound.setTask _ _ hMode (Or.inl hLive)
        hQuiet.nextUuid
        (hSound.world.quiet hQuiet
          (by simp +contextual [hQdrant]))
        (by simp +contextual [hQdrant]) ?_
        (by simp [Task.opId])
        (by simp [Task.newEntity, StoreStage.newEntity])
        (List.Subset.refl _) trivial
      intro ctx' hCtx
      simp only [Task.context, StoreStage.context,
        StoreStage.preparing, Option.some.injEq] at hCtx
      exact Or.inr ⟨hCtx ▸ hCall.id, by omega⟩
  | prepare hOld hNew hCall hEntity hQuiet hQdrant =>
      rw [Task.commits_eq_nil
        (fun r => Task.ne_done_of_preparing hNew (.ok r)),
        List.append_nil]
      refine hSound.setTask _ _ hMode (Or.inl hLive)
        hQuiet.nextUuid
        (hSound.world.quiet hQuiet
          (by simp +contextual [hQdrant]))
        (by simp +contextual [hQdrant]) ?_
        (by simp [Task.opId_of_preparing hNew])
        (by simp [Task.newEntity, hEntity])
        (List.Subset.refl _) trivial
      intro ctx' hCtx
      rw [Task.context,
        StoreStage.context_of_preparing hNew] at hCtx
      cases hCtx
      exact Or.inl ⟨_,
        StoreStage.context_of_preparing hOld, hCall.id⟩
  | createEntity hOld hNew hEntity hId hQuiet hQdrant hNext =>
      rw [Task.commits_eq_nil
        (fun r => Task.ne_done_of_preparing hNew (.ok r)),
        List.append_nil]
      have hOldCtx := StoreStage.context_of_preparing hOld
      have hNewCtx := StoreStage.context_of_preparing hNew
      refine hSound.setTask _ _ hMode (Or.inl hLive)
        hQuiet.nextUuid
        (hSound.world.quiet hQuiet
          (by simp +contextual [hQdrant]))
        (by simp +contextual [hQdrant]) ?_
        (by simp [Task.opId_of_preparing hNew]) ?_
        (List.Subset.refl _) trivial
      · intro ctx' hCtx
        rw [Task.context, hNewCtx] at hCtx
        cases hCtx
        exact Or.inl ⟨_, hOldCtx, rfl⟩
      · intro e he
        rw [Task.newEntity, hEntity] at he
        cases he
        exact ⟨hId, by omega, _, _, hOldCtx, hNewCtx, rfl⟩
  | entityPoint hOld hNew hCall hEntity hEntity' hQuiet
      hUpsert =>
      rw [Task.commits_eq_nil
        (fun r => Task.ne_done_of_preparing hNew (.ok r)),
        List.append_nil]
      have hPoints :
          ∀ ns, ∀ p ∈ w.qdrant.points ns,
            p.payload.IsMemory →
              p ∈ s.world.qdrant.points ns := by
        intro ns p hp hMemory
        rw [Qdrant.upsert_eq_ok hUpsert] at hp
        split at hp
        · rename_i hNs
          subst hNs
          rcases Table.mem_upsert_iff.mp hp with
            rfl | ⟨hp, _⟩
          · exact hMemory.elim
          · exact hp
        · exact hp
      refine hSound.setTask _ _ hMode (Or.inl hLive)
        hQuiet.nextUuid (hSound.world.quiet hQuiet hPoints)
        (fun ns p hp hMemory =>
          Or.inl (hPoints ns p hp hMemory)) ?_
        (by simp [Task.opId_of_preparing hNew])
        (by simp [Task.newEntity, hEntity'])
        (List.Subset.refl _) trivial
      intro ctx' hCtx
      rw [Task.context,
        StoreStage.context_of_preparing hNew] at hCtx
      cases hCtx
      exact Or.inl ⟨_,
        StoreStage.context_of_preparing hOld, hCall.id⟩
  | stop hQuiet hQdrant =>
      rw [Task.commits_eq_nil (by simp), List.append_nil]
      exact hSound.setTask _ _ hMode (Or.inl hLive)
        hQuiet.nextUuid
        (hSound.world.quiet hQuiet
          (by simp +contextual [hQdrant]))
        (by simp +contextual [hQdrant])
        (by simp [Task.context, StoreStage.context,
          StoreStage.preparing])
        (by simp [Task.opId])
        (by simp [Task.newEntity, StoreStage.newEntity])
        (List.Subset.refl _) trivial
  | @log ctx embedding db hInsert =>
      rw [Task.commits_eq_nil (by simp), List.append_nil]
      have hCtx := hContexts ctx rfl
      refine hSound.setTask _ _ hMode (Or.inl hLive)
        (Nat.le_succ _)
        (hSound.world.log hInsert rfl hCtx.2
          (fun _ => hCtx.1))
        (by simp +contextual) ?_ ?_
        (by simp [Task.newEntity, StoreStage.newEntity])
        (List.Subset.refl _) trivial
      · intro ctx' hCtx'
        cases hCtx'
        exact Or.inl ⟨_, rfl, rfl⟩
      · intro opId hOp
        cases hOp
        exact Or.inr ⟨rfl, Nat.lt_succ_self _⟩
  | @write ctx embedding opId startedAt qdrant hUpsert =>
      rw [Task.commits_eq_nil (by simp), List.append_nil]
      have hCtx := hContexts ctx rfl
      have hPoints :
          ∀ ns, ∀ p ∈ qdrant.points ns,
            p.payload.IsMemory →
              p ∈ s.world.qdrant.points ns ∨
                p.id = ctx.id := by
        intro ns p hp hMemory
        rw [Qdrant.upsert_eq_ok hUpsert] at hp
        split at hp
        · rename_i hNs
          subst hNs
          rcases Table.mem_upsert_iff.mp hp with
            rfl | ⟨hp, _⟩
          · exact Or.inr rfl
          · exact Or.inl hp
        · exact Or.inl hp
      refine hSound.setTask _ _ hMode (Or.inl hLive) le_rfl
        (hSound.world.setQdrant ?_) ?_ ?_ ?_
        (by simp [Task.newEntity, StoreStage.newEntity])
        (List.Subset.refl _) trivial
      · intro ns p hp hMemory
        rcases hPoints ns p hp hMemory with hp' | hId
        · exact hSound.world.points ns p hp' hMemory
        · exact hId ▸ hCtx.2
      · intro ns p hp hMemory
        exact (hPoints ns p hp hMemory).imp_right
          (fun hId => ⟨ctx, rfl, hId⟩)
      · intro ctx' hCtx'
        cases hCtx'
        exact Or.inl ⟨_, rfl, rfl⟩
      · intro opId' hOp
        exact Or.inl ⟨hLive, hOp⟩
  | @mark ctx opId startedAt =>
      rw [Task.commits_eq_nil (by simp), List.append_nil]
      refine hSound.setTask _ _ hMode (Or.inl hLive) le_rfl
        (hSound.world.mark opId) (by simp +contextual) ?_ ?_
        (by simp [Task.newEntity, StoreStage.newEntity])
        (List.Subset.refl _) trivial
      · intro ctx' hCtx'
        cases hCtx'
        exact Or.inl ⟨_, rfl, rfl⟩
      · intro opId' hOp
        exact Or.inl ⟨hLive, hOp⟩
  | @commit ctx opId startedAt db hCommit =>
      have hCtx := hContexts ctx rfl
      exact hSound.setTask _ _ hMode (Or.inl hLive) le_rfl
        (hSound.world.commit hCommit
          (hSound.opIds i _ opId hLive rfl) hCtx.1 hCtx.2)
        (by simp +contextual)
        (by simp [Task.context, StoreStage.context,
          StoreStage.preparing])
        (by simp [Task.opId])
        (by simp [Task.newEntity, StoreStage.newEntity])
        (List.subset_append_left _ _) trivial
  | done =>
      rw [show Task.commits (.store req (.done _))
          (.store req (.done _)) = [] from rfl,
        List.append_nil]
      exact hSound.setTask _ _ hMode (Or.inl hLive) le_rfl
        hSound.world (by simp +contextual)
        (by simp [Task.context, StoreStage.context,
          StoreStage.preparing])
        (by simp [Task.opId])
        (by simp [Task.newEntity, StoreStage.newEntity])
        (List.Subset.refl _) trivial

/- A forget call has neither a context nor an entity. -/
private theorem setForget
    {i : Nat} {ids : List String} {st : ForgetStage F}
    (hSound : Sound env s)
    (hLive : s.live i = some (.forget ids st))
    (w : World Vec)
    (st' : ForgetStage F)
    (hNext : s.world.nextUuid ≤ w.nextUuid)
    (hWorld : WorldSound env w s.committed)
    (hPoints :
      ∀ ns, ∀ p ∈ w.qdrant.points ns,
        p.payload.IsMemory →
          p ∈ s.world.qdrant.points ns)
    (hOpId :
      ∀ opId,
        (Task.forget ids st' : Task Vec F).opId =
            some opId →
          (Task.forget ids st : Task Vec F).opId =
              some opId ∨
            (opId = env.uuid s.world.nextUuid ∧
              s.world.nextUuid < w.nextUuid))
    (hForget :
      Task.KeepsIds env s.committed (.forget ids st')) :
    Sound env (s.setTask i w (.forget ids st')) :=
  hSound.setTask _ _
    (live_eq_some hLive).1 (Or.inl hLive) hNext hWorld
    (fun ns p hp hMemory => Or.inl (hPoints ns p hp hMemory))
    (by simp [Task.context])
    (fun opId hOp =>
      (hOpId opId hOp).imp_left (fun h => ⟨hLive, h⟩))
    (by simp [Task.newEntity])
    (List.Subset.refl _) hForget

/- A step of a forget call keeps the system sound. -/
theorem forgetStep
    {i : Nat} {ids : List String} {st : ForgetStage F}
    (hSound : Sound env s)
    (hLive : s.live i = some (.forget ids st)) :
    Sound env
      (s.setTask i (st.step env s.world).1
        (.forget ids (st.step env s.world).2)) := by
  have hKeeps := hSound.forgets i _ hLive
  have hSet := setForget hSound hLive
  cases st with
  | lookup p =>
      rcases p with ⟨rest, deleted, notFound⟩
      cases rest with
      | nil =>
          simp only [ForgetStage.step]
          exact hSet _ _ le_rfl hSound.world
            (fun _ _ hp _ => hp) (by simp [Task.opId])
            ⟨by simp [ForgetStage.remaining],
              by simp [ForgetStage.target]⟩
      | cons x rest =>
          rcases x with ⟨id, uuid⟩
          have hRest :
              ∀ y ∈ rest, y.1 ∈ ids ∧
                env.parseUuid y.1 = some y.2 :=
            fun y hy => hKeeps.1 y (List.mem_cons_of_mem _ hy)
          simp only [ForgetStage.step]
          cases hGet : s.world.db.getMemory id with
          | none =>
              exact hSet _ _ le_rfl hSound.world
                (fun _ _ hp _ => hp) (by simp [Task.opId])
                ⟨hRest, by simp [ForgetStage.target]⟩
          | some memory =>
              have hRow := Sqlite.getMemory_eq_some hGet
              have hKey := hSound.world.rows _ hRow.1
              rw [hRow.2] at hKey
              refine hSet _ _ le_rfl hSound.world
                (fun _ _ hp _ => hp) (by simp [Task.opId])
                ⟨?_, ?_⟩
              · exact hKeeps.1
              · intro target hTarget
                cases hTarget
                exact hKey
  | insertOp p target =>
      have hKey := hKeeps.2 target rfl
      have hOld := hSound.world.committed _ hKey
      simp only [ForgetStage.step]
      split
      · exact hSet _ _ (Nat.le_succ _)
          (hSound.world.quiet
            ⟨rfl, rfl, rfl, rfl, Nat.le_succ _⟩
            (fun _ _ hp _ => hp))
          (fun _ _ hp _ => hp) (by simp [Task.opId])
          ⟨by simp [ForgetStage.remaining],
            by simp [ForgetStage.target]⟩
      · rename_i db hInsert
        refine hSet _ _ (Nat.le_succ _)
          (hSound.world.log hInsert rfl hOld.2
            (fun hKind => absurd rfl hKind))
          (fun _ _ hp _ => hp) ?_ hKeeps
        intro opId hOp
        cases hOp
        exact Or.inr ⟨rfl, Nat.lt_succ_self _⟩
  | delete p target opId startedAt =>
      simp only [ForgetStage.step]
      split
      · exact hSet _ _ le_rfl hSound.world
          (fun _ _ hp _ => hp) (by simp [Task.opId])
          ⟨by simp [ForgetStage.remaining],
            by simp [ForgetStage.target]⟩
      · rename_i qdrant hDelete
        have hPoints :
            ∀ ns, ∀ p ∈ qdrant.points ns,
              p.payload.IsMemory →
                p ∈ s.world.qdrant.points ns := by
          intro ns p hp _
          rw [Qdrant.deleteByIds_eq_ok hDelete] at hp
          split at hp
          · rename_i hNs
            exact hNs ▸ (Table.mem_delete_iff.mp hp).1
          · exact hp
        exact hSet _ _ le_rfl
          (hSound.world.setQdrant
            (fun ns p hp hMemory =>
              hSound.world.points ns p
                (hPoints ns p hp hMemory) hMemory))
          hPoints (fun _ hOp => Or.inl hOp) hKeeps
  | mark p target opId startedAt =>
      exact hSet _ _ le_rfl (hSound.world.mark opId)
        (fun _ _ hp _ => hp) (fun _ hOp => Or.inl hOp)
        hKeeps
  | deleteRow p target opId startedAt =>
      exact hSet _ _ le_rfl
        (hSound.world.deleteMemories [target.id])
        (fun _ _ hp _ => hp) (fun _ hOp => Or.inl hOp)
        hKeeps
  | complete p target opId startedAt =>
      simp only [ForgetStage.step]
      refine hSet _ _ le_rfl
        (hSound.world.completeOp
          (hSound.opIds i _ opId hLive rfl))
        (fun _ _ hp _ => hp) (by simp [Task.opId])
        ⟨?_, by simp [ForgetStage.target]⟩
      exact fun y hy =>
        hKeeps.1 y (List.mem_cons_of_mem _ hy)
  | done result =>
      simp only [ForgetStage.step]
      exact hSet _ _ le_rfl hSound.world
        (fun _ _ hp _ => hp) (by simp [Task.opId])
        ⟨by simp [ForgetStage.remaining],
          by simp [ForgetStage.target]⟩

end Sound

------------------------------------------------------------
-- Soundness Along a Recovery
------------------------------------------------------------

namespace RecoveryStage

variable {env : Env Vec F} {w w' : World Vec}
variable {committed : List (String × String)}

theorem lists_listPendingOps
    {db : Sqlite}
    (hUnique :
      Table.KeyUnique PendingOp.opId db.pendingOps) :
    Lists db.listPendingOps db := by
  refine ⟨fun op => Sqlite.mem_listPendingOps_iff, ?_⟩
  have hPerm :
      db.listPendingOps.Perm db.pendingOps :=
    List.perm_insertionSort _ _
  exact (hPerm.map PendingOp.opId).nodup_iff.mpr hUnique

/- Clearing the first listed op leaves the others listed. -/
theorem lists_clear
    {db : Sqlite} {op : PendingOp} {ops : List PendingOp}
    (h : Lists (op :: ops) db) :
    Lists ops (db.clearPendingOp op.opId) := by
  have hNodup := List.nodup_cons.mp h.2
  refine ⟨fun x => ?_, hNodup.2⟩
  simp only [Sqlite.clearPendingOp, Table.mem_delete_iff,
    ← h.1 x, List.mem_cons]
  constructor
  · intro hx
    refine ⟨Or.inr hx, fun hEq => hNodup.1 ?_⟩
    exact hEq ▸ List.mem_map_of_mem hx
  · rintro ⟨rfl | hx, hNe⟩
    · exact absurd rfl hNe
    · exact hx

/- The compensation of an op that the journal holds. -/
theorem tracks_compensate
    {report : RecoveryReport} {op : PendingOp}
    {ops : List PendingOp}
    (hSound : WorldSound env w committed)
    (hLists : Lists (op :: ops) w.db) :
    (compensate env report op ops).Tracks w.db := by
  have hOp :=
    hSound.ops op ((hLists.1 op).mp (by simp))
  unfold compensate
  split
  · exact hLists
  · rename_i hWritten
    exact ⟨hLists, hWritten⟩
  · rename_i hWritten hForget
    have hKind : op.kind ≠ .forget := hForget
    rw [hOp.2.2.1 hKind]
    exact ⟨hLists, hKind, hWritten, rfl⟩

/- A step of the recovery keeps the world sound. -/
theorem step_tracks
    {stage stage' : RecoveryStage}
    (hSound : WorldSound env w committed)
    (hTracks : stage.Tracks w.db)
    (hStep : stage.step env w = .ok (w', stage')) :
    WorldSound env w' committed ∧ stage'.Tracks w'.db := by
  cases stage with
  | list =>
      cases hStep
      exact ⟨hSound,
        lists_listPendingOps hSound.ops_unique⟩
  | check report ops =>
      cases ops with
      | nil =>
          cases hStep
          refine ⟨hSound, ?_⟩
          exact List.eq_nil_iff_forall_not_mem.mpr
            (fun op hop => by
              simpa using (hTracks.1 op).mpr hop)
      | cons op ops =>
          simp only [step] at hStep
          split at hStep
          · cases hStep
            exact ⟨hSound, hTracks⟩
          · cases hStep
            exact ⟨hSound, tracks_compensate hSound hTracks⟩
  | deletePoint report op uuid ops =>
      simp only [step] at hStep
      split at hStep
      · cases hStep
      · rename_i qdrant hDelete
        cases hStep
        refine ⟨hSound.setQdrant ?_,
          hTracks.1, hTracks.2.2.1⟩
        intro ns p hp hMemory
        rw [Qdrant.deleteByIds_eq_ok hDelete] at hp
        split at hp
        · exact hSound.points _ p
            (Table.mem_delete_iff.mp hp).1 hMemory
        · exact hSound.points ns p hp hMemory
  | deleteRow report op ops =>
      cases hStep
      exact ⟨hSound.deleteMemories [op.memoryId], hTracks.1⟩
  | clear report op ops =>
      cases hStep
      exact ⟨hSound.clear op.opId, lists_clear hTracks⟩
  | done report =>
      cases hStep
      exact ⟨hSound, hTracks⟩

end RecoveryStage

------------------------------------------------------------
-- Soundness Along the Moves
------------------------------------------------------------

namespace Sound

open Ferrex.Core.System

variable [LE F] [LT F] [DecidableLE F] [DecidableLT F]
variable {env : Env Vec F} {service : MemoryService F}
variable {s t : System Vec F} {e : Event F}

/- Every event keeps the system sound. -/
theorem next
    (hSound : Sound env s)
    (hNext : s.next env service e = some t) :
    Sound env t := by
  have hDown :
      ∀ {s' : System Vec F}, s'.mode ≠ .up →
        ∀ i, s'.live i = none :=
    fun h _ => live_of_not_up h
  cases System.next_eq_some hNext with
  | tick d =>
      have hWorld := hSound.world
      exact {
        world := ⟨hWorld.rows, hWorld.rows_unique,
          hWorld.committed, hWorld.ops, hWorld.ops_unique,
          hWorld.completed, hWorld.points⟩
        contexts := hSound.contexts
        opIds := hSound.opIds
        entities := hSound.entities
        entity_points := hSound.entity_points
        entity_contexts := hSound.entity_contexts
        forgets := hSound.forgets
        lost := hSound.lost
        recovery := hSound.recovery }
  | store i req hMode hNone =>
      exact hSound.setTask (.store req (.ensure req))
        (.store req (.ensure req)) hMode
        (Or.inr rfl) le_rfl hSound.world
        (fun _ _ hp _ => Or.inl hp)
        (by simp [Task.context, StoreStage.context,
          StoreStage.preparing])
        (by simp [Task.opId])
        (by simp [Task.newEntity, StoreStage.newEntity])
        (List.Subset.refl _) trivial
  | forget i ids hMode hNone =>
      have hOpId :
          (Task.forget ids (ForgetStage.start env ids) :
              Task Vec F).opId =
            none := by
        unfold ForgetStage.start
        split <;> rfl
      exact hSound.setTask
        (.forget ids (ForgetStage.start env ids))
        (.forget ids (ForgetStage.start env ids))
        hMode (Or.inr rfl) le_rfl hSound.world
        (fun _ _ hp _ => Or.inl hp)
        (by simp [Task.context]) (by simp [hOpId])
        (by simp [Task.newEntity])
        (List.Subset.refl _)
        (keepsIds_start env ids s.committed)
  | step i task hLive =>
      cases task with
      | store req st =>
          exact hSound.storeStep hLive
            (StoreStage.step_effect _ _ s.world st)
      | forget ids st =>
          have hStep := hSound.forgetStep hLive
          rw [show Task.commits (.forget ids st) _ = []
            from rfl, List.append_nil]
          exact hStep
  | fail i task e hLive hCalls =>
      cases task with
      | store req st =>
          exact hSound.setTask _ _
            (live_eq_some hLive).1 (Or.inl hLive) le_rfl
            hSound.world (fun _ _ hp _ => Or.inl hp)
            (by simp [Task.fail, Task.context,
              StoreStage.context, StoreStage.preparing])
            (by simp [Task.fail, Task.opId])
            (by simp [Task.fail, Task.newEntity,
              StoreStage.newEntity])
            (List.Subset.refl _) trivial
      | forget ids st =>
          exact hSound.setTask _ _
            (live_eq_some hLive).1 (Or.inl hLive) le_rfl
            hSound.world (fun _ _ hp _ => Or.inl hp)
            (by simp [Task.fail, Task.context])
            (by simp [Task.fail, Task.opId])
            (by simp [Task.fail, Task.newEntity])
            (List.Subset.refl _)
            ⟨by simp [ForgetStage.remaining],
              by simp [ForgetStage.target]⟩
  | crash =>
      refine of_no_calls hSound.world (hDown (by simp)) ?_
        (by simp)
      intro i call hCall
      rcases Option.map_eq_some_iff.mp hCall with
        ⟨call₀, _, rfl⟩
      rfl
  | restart hMode =>
      exact of_no_calls hSound.world (hDown (by simp))
        (hSound.lost (by simp [hMode]))
        (by simp [RecoveryStage.Tracks])
  | recover stage stage' w hMode hStep =>
      have hTracks := RecoveryStage.step_tracks
        hSound.world (hSound.recovery stage hMode) hStep
      exact of_no_calls hTracks.1 (hDown (by simp))
        (hSound.lost (by simp [hMode]))
        (by simpa using hTracks.2)
  | recovered report hMode =>
      have hLost := hSound.lost (by simp [hMode])
      refine of_no_calls hSound.world ?_ hLost (by simp)
      intro i
      unfold System.live
      split
      · rename_i hCall
        exact absurd (hLost i _ hCall) (by simp)
      · rfl

end Sound

end Core

end Ferrex
