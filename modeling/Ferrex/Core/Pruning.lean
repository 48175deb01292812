import Ferrex.Core.Durable
import Ferrex.Lib.Best
import Ferrex.Lib.Erasure

/-
  The record of completed ops, and the upkeep that prunes it:
  nothing that the service does, in any life, depends on how
  much of the record is left.

  Main declarations:
    * `Sqlite.pruneCompletedOps`
    * `World.thin`, `Thinned`
    * `Cached.upkeep`
    * `prune_invisible`
-/

------------------------------------------------------------
-- Pruning
------------------------------------------------------------

namespace Ferrex

namespace Store

namespace Sqlite

/- The database with another record of completed ops. -/
def withCompleted
    (db : Sqlite)
    (ops : List CompletedOp) : Sqlite :=
  { db with completedOps := ops }

variable {db : Sqlite} {ops : List CompletedOp}

/- An insert of a pending op does not look at the record. -/
theorem insertPendingOp_withCompleted (op : PendingOp) :
    (db.withCompleted ops).insertPendingOp op =
      (db.insertPendingOp op).map
        (fun db => db.withCompleted ops) := by
  unfold insertPendingOp withCompleted
  cases Table.insert PendingOp.opId op db.pendingOps <;> rfl

/- An insert of an entity does not look at the record. -/
theorem insertEntity_withCompleted (entity : Entity) :
    (db.withCompleted ops).insertEntity entity =
      (db.insertEntity entity).map
        (fun db => db.withCompleted ops) := by
  unfold insertEntity withCompleted
  dsimp only
  split
  · rfl
  · cases Table.insert Entity.id { entity with aliases := [] }
      db.entities <;> rfl

/- A new alias does not look at the record. -/
theorem addEntityAlias_withCompleted
    (entityId «alias» : String)
    (now : DateTime) :
    (db.withCompleted ops).addEntityAlias entityId «alias» now =
      (db.addEntityAlias entityId «alias» now).map
        (fun db => db.withCompleted ops) := by
  unfold addEntityAlias withCompleted
  dsimp only
  split <;> rfl

/- A link does not look at the record. -/
theorem linkMemoryEntityIn_withCompleted
    (memoryId entityId : String) :
    (db.withCompleted ops).linkMemoryEntityIn memoryId
        entityId =
      (db.linkMemoryEntityIn memoryId entityId).map
        (fun db => db.withCompleted ops) := by
  unfold linkMemoryEntityIn withCompleted
  dsimp only
  split
  · rfl
  · split <;> rfl

/- Several links do not look at the record. -/
theorem foldlM_link_withCompleted
    (memoryId : String)
    (entityIds : List String) :
    entityIds.foldlM
        (fun db entityId =>
          linkMemoryEntityIn db memoryId entityId)
        (db.withCompleted ops) =
      (entityIds.foldlM
        (fun db entityId =>
          linkMemoryEntityIn db memoryId entityId) db).map
        (fun db => db.withCompleted ops) := by
  induction entityIds generalizing db with
  | nil => rfl
  | cons entityId entityIds ih =>
      rw [List.foldlM_cons, List.foldlM_cons,
        linkMemoryEntityIn_withCompleted]
      cases db.linkMemoryEntityIn memoryId entityId with
      | error e => rfl
      | ok next => exact ih

/- Invalidations do not look at the record either. -/
theorem foldl_invalidate_withCompleted
    (ids : List String)
    (time : DateTime) :
    ids.foldl (fun db id => invalidateMemoryIn db id time)
        (db.withCompleted ops) =
      (ids.foldl (fun db id => invalidateMemoryIn db id time)
        db).withCompleted ops := by
  induction ids generalizing db with
  | nil => rfl
  | cons id ids ih =>
      rw [List.foldl_cons, List.foldl_cons, ← ih]
      rfl

/- A commit records its op, and reads none. -/
theorem commitMemoryWrite_withCompleted
    (memory : Memory)
    (entityIds invalidateIds : List String)
    (time : DateTime)
    (completed : CompletedOp) :
    (db.withCompleted ops).commitMemoryWrite memory entityIds
        invalidateIds time completed =
      (db.commitMemoryWrite memory entityIds invalidateIds time
        completed).map
        (fun db => db.withCompleted
          (Table.upsert CompletedOp.opId completed ops)) := by
  have hInsert :
      (db.withCompleted ops).insertMemoryIn memory =
        (db.insertMemoryIn memory).map
          (fun db => db.withCompleted ops) := by
    unfold insertMemoryIn withCompleted
    cases Table.insert MemoryRow.id memory.toMemoryRow
      db.memories <;> rfl
  unfold commitMemoryWrite
  rw [hInsert]
  cases db.insertMemoryIn memory with
  | error e => rfl
  | ok inserted =>
      simp only [Except.map, bind, Except.bind,
        foldlM_link_withCompleted]
      cases entityIds.foldlM
        (fun db entityId =>
          linkMemoryEntityIn db memory.id entityId)
        inserted with
      | error e => rfl
      | ok linked =>
          simp only [foldl_invalidate_withCompleted]
          rfl

end Sqlite

end Store

------------------------------------------------------------
-- Calls
------------------------------------------------------------

namespace Core

open Store

variable {Vec F D : Type}

/- The stores with another record of completed ops. -/
def World.thin
    (w : World Vec)
    (ops : List CompletedOp) : World Vec :=
  { w with db := w.db.withCompleted ops }

/- The second record has nothing that the first one has not. -/
def Thinned (w w' : World Vec) : Prop :=
  ∃ ops, (∀ op ∈ ops, op ∈ w.db.completedOps) ∧
    w' = w.thin ops

/- Two steps to the same stage, with thinned stores. -/
def Matches
    {α : Type}
    (x y : World Vec × α) : Prop :=
  Thinned x.1 y.1 ∧ y.2 = x.2

variable {w w' : World Vec} {ops : List CompletedOp}

/- A step of either world that leaves the record alone. -/
theorem Matches.of_thin
    {α : Type} {stage : α}
    (hOps : ∀ op ∈ ops, op ∈ w.db.completedOps) :
    Matches (w, stage) (w.thin ops, stage) :=
  ⟨⟨ops, hOps, rfl⟩, rfl⟩

section Reads

variable {env : Env Vec F} {service : MemoryService F}

/- The record is all that is left out. -/
theorem thin_qdrant : (w.thin ops).qdrant = w.qdrant := rfl

theorem thin_clock : (w.thin ops).clock = w.clock := rfl

theorem thin_nextUuid : (w.thin ops).nextUuid = w.nextUuid := rfl

theorem thin_db : (w.thin ops).db = w.db.withCompleted ops := rfl

theorem thin_getEntityByName (name : String) :
    (w.db.withCompleted ops).getEntityByName name =
      w.db.getEntityByName name :=
  rfl

/- Entities are read as before. -/
theorem thin_getAllEntities :
    (w.db.withCompleted ops).getAllEntities =
      w.db.getAllEntities :=
  rfl

/- A memory is read from the rows alone. -/
theorem thin_getMemory (id : String) :
    (w.db.withCompleted ops).getMemory id = w.db.getMemory id :=
  rfl

/- A new call gets the same context. -/
theorem newContext_thin (req : StoreRequest) :
    newContext env service (w.thin ops) req =
      newContext env service w req :=
  rfl

/- The conflict check finds the same rows. -/
theorem conflict_thin
    [LE F] [LT F] [DecidableLE F] [DecidableLT F]
    (ctx : StoreContext Vec F) :
    Conflict.run env ctx (w.db.withCompleted ops) =
      Conflict.run env ctx w.db :=
  rfl

/- The target's check does not see the pruning. -/
theorem checkTarget_thin
    (ctx : StoreContext Vec F)
    (targetId : String) :
    checkTarget ctx targetId (w.db.withCompleted ops) =
      checkTarget ctx targetId w.db :=
  rfl

/- Entities are resolved alike. -/
theorem resolveStep_thin
    [LT F] [DecidableLT F]
    (ctx : StoreContext Vec F)
    (r : Resolving Vec)
    (hOps : ∀ op ∈ ops, op ∈ w.db.completedOps) :
    Matches (resolveStep env w ctx r)
      (resolveStep env (w.thin ops) ctx r) := by
  simp only [resolveStep, thin_qdrant, thin_clock,
    thin_nextUuid, thin_db, thin_getEntityByName]
  cases r.phase with
  | exact =>
      dsimp only
      split
      · exact .of_thin hOps
      · split
        · exact .of_thin hOps
        · split <;> exact .of_thin hOps
  | search =>
      dsimp only
      split
      · exact .of_thin hOps
      · split <;> exact .of_thin hOps
  | create embedding =>
      dsimp only
      rw [Sqlite.insertEntity_withCompleted]
      cases hInsert : w.db.insertEntity _ with
      | error e => exact .of_thin hOps
      | ok db =>
          rcases Sqlite.insertEntity_eq_ok hInsert with
            ⟨aliases, rfl⟩
          exact ⟨⟨ops, hOps, rfl⟩, rfl⟩
  | point entity embedding =>
      dsimp only
      split <;> exact .of_thin hOps
  | addAlias entity =>
      dsimp only
      rw [Sqlite.addEntityAlias_withCompleted]
      cases hAlias : w.db.addEntityAlias _ _ _ with
      | error e => exact .of_thin hOps
      | ok db =>
          rcases Sqlite.addEntityAlias_eq_ok hAlias with
            ⟨aliases, rfl⟩
          exact ⟨⟨ops, hOps, rfl⟩, rfl⟩

/- An op that completes is recorded in both. -/
theorem thinned_upsert
    {db : Sqlite} {completed : CompletedOp}
    (hOps : ∀ op ∈ ops, op ∈ db.completedOps) :
    ∀ op ∈ Table.upsert CompletedOp.opId completed ops,
      op ∈ Table.upsert CompletedOp.opId completed
        db.completedOps := by
  intro op hop
  rcases Table.mem_upsert_iff.mp hop with rfl | ⟨hOld, hNe⟩
  · exact Table.mem_upsert_iff.mpr (Or.inl rfl)
  · exact Table.mem_upsert_iff.mpr
      (Or.inr ⟨hOps op hOld, hNe⟩)

/- A store steps alike, and its record goes on growing. -/
theorem storeStep_thin
    [LE F] [LT F] [DecidableLE F] [DecidableLT F]
    (stage : StoreStage Vec F)
    (hOps : ∀ op ∈ ops, op ∈ w.db.completedOps) :
    Matches (stage.step env service w)
      (stage.step env service (w.thin ops)) := by
  cases stage with
  | ensure req =>
      simp only [StoreStage.step, newContext_thin]
      split
      · exact .of_thin hOps
      · split <;> exact ⟨⟨ops, hOps, rfl⟩, rfl⟩
  | embed ctx =>
      simp only [StoreStage.step]
      split <;> exact .of_thin hOps
  | dedup ctx =>
      simp only [StoreStage.step, thin_qdrant]
      split <;> exact .of_thin hOps
  | conflict ctx =>
      simp only [StoreStage.step, thin_db, conflict_thin]
      split <;> exact .of_thin hOps
  | entities ctx =>
      simp only [StoreStage.step, thin_db, thin_getAllEntities]
      split
      · exact .of_thin hOps
      · split <;> exact .of_thin hOps
  | resolve ctx r => exact resolveStep_thin ctx r hOps
  | target ctx targetId =>
      simp only [StoreStage.step, thin_db, checkTarget_thin]
      split <;> exact .of_thin hOps
  | insertOp ctx =>
      simp only [StoreStage.step, thin_clock, thin_nextUuid,
        thin_db]
      split
      · exact .of_thin hOps
      · rw [Sqlite.insertPendingOp_withCompleted]
        cases hInsert : w.db.insertPendingOp _ with
        | error e => exact ⟨⟨ops, hOps, rfl⟩, rfl⟩
        | ok db =>
            rcases Sqlite.insertPendingOp_eq_ok hInsert with
              ⟨_, rfl⟩
            exact ⟨⟨ops, hOps, rfl⟩, rfl⟩
  | upsert ctx embedding opId startedAt =>
      simp only [StoreStage.step, thin_qdrant]
      split <;> exact ⟨⟨ops, hOps, rfl⟩, rfl⟩
  | mark ctx opId startedAt => exact ⟨⟨ops, hOps, rfl⟩, rfl⟩
  | commit ctx opId startedAt =>
      simp only [StoreStage.step, thin_clock, thin_db]
      rw [Sqlite.commitMemoryWrite_withCompleted]
      cases hCommit : w.db.commitMemoryWrite _ _ _ _ _ with
      | error e => exact ⟨⟨ops, hOps, rfl⟩, rfl⟩
      | ok db =>
          rcases Sqlite.commitMemoryWrite_eq_ok hCommit with
            ⟨_, links, rfl⟩
          exact ⟨⟨_, thinned_upsert hOps, rfl⟩, rfl⟩
  | done result => exact .of_thin hOps

/- A step of a forget does not see the pruning. -/
theorem forgetStep_thin
    (stage : ForgetStage F)
    (hOps : ∀ op ∈ ops, op ∈ w.db.completedOps) :
    Matches (stage.step env w) (stage.step env (w.thin ops)) := by
  cases stage with
  | lookup p =>
      simp only [ForgetStage.step, thin_db, thin_getMemory]
      split
      · exact .of_thin hOps
      · split <;> exact .of_thin hOps
  | insertOp p target =>
      simp only [ForgetStage.step, thin_clock, thin_nextUuid,
        thin_db]
      rw [Sqlite.insertPendingOp_withCompleted]
      cases hInsert : w.db.insertPendingOp _ with
      | error e => exact ⟨⟨ops, hOps, rfl⟩, rfl⟩
      | ok db =>
          rcases Sqlite.insertPendingOp_eq_ok hInsert with
            ⟨_, rfl⟩
          exact ⟨⟨ops, hOps, rfl⟩, rfl⟩
  | delete p target opId startedAt =>
      simp only [ForgetStage.step, thin_qdrant]
      split <;> exact ⟨⟨ops, hOps, rfl⟩, rfl⟩
  | mark p target opId startedAt =>
      exact ⟨⟨ops, hOps, rfl⟩, rfl⟩
  | deleteRow p target opId startedAt =>
      exact ⟨⟨ops, hOps, rfl⟩, rfl⟩
  | complete p target opId startedAt =>
      exact ⟨⟨_, thinned_upsert hOps, rfl⟩, rfl⟩
  | done result => exact .of_thin hOps

/- A step of any call does not see the pruning. -/
theorem taskStep_thin
    [LE F] [LT F] [DecidableLE F] [DecidableLT F]
    (task : Task Vec F)
    (hOps : ∀ op ∈ ops, op ∈ w.db.completedOps) :
    Matches (task.step env service w)
      (task.step env service (w.thin ops)) := by
  cases task with
  | store req stage =>
      have hMatches :
          Matches (stage.step env service w)
            (stage.step env service (w.thin ops)) :=
        storeStep_thin stage hOps
      exact ⟨hMatches.1, congrArg (Task.store req) hMatches.2⟩
  | forget ids stage =>
      have hMatches :
          Matches (stage.step env w)
            (stage.step env (w.thin ops)) :=
        forgetStep_thin stage hOps
      exact ⟨hMatches.1, congrArg (Task.forget ids) hMatches.2⟩

/-
  The recovery asks for the ops that it works on, and none of
  these is completed, so it finds none of them in either.
-/
theorem recoveryStep_thin
    {committed : List (String × String)}
    {stage : RecoveryStage}
    (hSound : WorldSound env w committed)
    (hTracks : stage.Tracks w.db)
    (hOps : ∀ op ∈ ops, op ∈ w.db.completedOps) :
    (∃ e, stage.step env w = .error e ∧
        stage.step env (w.thin ops) = .error e) ∨
      ∃ v v' next, stage.step env w = .ok (v, next) ∧
        stage.step env (w.thin ops) = .ok (v', next) ∧
          Thinned v v' := by
  cases stage with
  | list => exact Or.inr ⟨_, _, _, rfl, rfl, ops, hOps, rfl⟩
  | check report pending =>
      cases pending with
      | nil => exact Or.inr ⟨_, _, _, rfl, rfl, ops, hOps, rfl⟩
      | cons op pending =>
          have hOpen :=
            (hSound.ops op ((hTracks.1 op).mp (by simp))).2.2.2
          have hNot : w.db.isOpCompleted op.opId = false :=
            decide_eq_false hOpen
          have hNot' :
              (w.thin ops).db.isOpCompleted op.opId = false := by
            refine decide_eq_false ?_
            rintro ⟨done, hDone, hId⟩
            exact hOpen ⟨done, hOps done hDone, hId⟩
          simp only [RecoveryStage.step, hNot, hNot',
            Bool.false_eq_true, if_false]
          exact Or.inr ⟨_, _, _, rfl, rfl, ops, hOps, rfl⟩
  | deletePoint report op uuid pending =>
      simp only [RecoveryStage.step, thin_qdrant]
      split
      · exact Or.inl ⟨_, rfl, rfl⟩
      · exact Or.inr ⟨_, _, _, rfl, rfl, ops, hOps, rfl⟩
  | deleteRow report op pending =>
      exact Or.inr ⟨_, _, _, rfl, rfl, ops, hOps, rfl⟩
  | clear report op pending =>
      exact Or.inr ⟨_, _, _, rfl, rfl, ops, hOps, rfl⟩
  | done report =>
      exact Or.inr ⟨_, _, _, rfl, rfl, ops, hOps, rfl⟩

end Reads

------------------------------------------------------------
-- The Service
------------------------------------------------------------

/- The system with another record of completed ops. -/
def System.thin
    (s : System Vec F)
    (ops : List CompletedOp) : System Vec F :=
  { s with world := s.world.thin ops }

/- The calls that are live are the same. -/
theorem System.live_thin
    (s : System Vec F)
    (ops : List CompletedOp)
    (i : Nat) :
    (s.thin ops).live i = s.live i :=
  rfl

theorem System.mode_thin
    (s : System Vec F)
    (ops : List CompletedOp) :
    (s.thin ops).mode = s.mode :=
  rfl

/- The same state, with some of the record left out. -/
def System.Thinned (s s' : System Vec F) : Prop :=
  ∃ ops, (∀ op ∈ ops, op ∈ s.world.db.completedOps) ∧
    s' = s.thin ops

section Service

variable {env : Env Vec F} {service : MemoryService F}
variable [LE F] [LT F] [DecidableLE F] [DecidableLT F]

/- An event finds the same, and leads to the same. -/
theorem System.next_thin
    {s : System Vec F} {ops : List CompletedOp}
    (hSound : Sound env s)
    (hOps : ∀ op ∈ ops, op ∈ s.world.db.completedOps)
    (e : Event F) :
    Option.Rel System.Thinned (s.next env service e)
      ((s.thin ops).next env service e) := by
  cases e with
  | tick d => exact .some ⟨ops, hOps, rfl⟩
  | store i req =>
      simp only [System.next, System.thin]
      split
      · exact .some ⟨ops, hOps, rfl⟩
      · exact .none
  | forget i ids =>
      simp only [System.next, System.thin]
      split
      · exact .some ⟨ops, hOps, rfl⟩
      · exact .none
  | step i =>
      simp only [System.next, System.live_thin]
      split
      · exact .none
      · rename_i task _
        have hMatches :
            Matches (task.step env service s.world)
              (task.step env service (s.thin ops).world) :=
          taskStep_thin task hOps
        rcases hMatches with ⟨⟨left, hLeft, hWorld⟩, hTask⟩
        refine .some ⟨left, hLeft, ?_⟩
        rw [hWorld, hTask]
        rfl
  | fail i err =>
      simp only [System.next, System.live_thin]
      split
      · exact .none
      · split
        · exact .some ⟨ops, hOps, rfl⟩
        · exact .none
  | crash => exact .some ⟨ops, hOps, rfl⟩
  | recover =>
      simp only [System.next, System.mode_thin]
      split
      · exact .some ⟨ops, hOps, rfl⟩
      · exact .none
      · exact .some ⟨ops, hOps, rfl⟩
      · rename_i stage _ hMode
        rcases recoveryStep_thin hSound.world
          (hSound.recovery stage hMode) hOps with
          ⟨err, hErr, hErr'⟩ | ⟨v, v', next, hOk, hOk', hThin⟩
        · have hErr'' :
              stage.step env (s.thin ops).world = .error err :=
            hErr'
          rw [hErr, hErr'']
          exact .none
        · have hOk'' :
              stage.step env (s.thin ops).world =
                .ok (v', next) :=
            hOk'
          rcases hThin with ⟨left, hLeft, rfl⟩
          rw [hOk, hOk'']
          exact .some ⟨left, hLeft, rfl⟩

end Service

------------------------------------------------------------
-- Recalls and Lives
------------------------------------------------------------

namespace Cached

/- The service with some of the record left out. -/
def thin
    (s : Cached Vec F D)
    (ops : List CompletedOp) : Cached Vec F D :=
  { s with sys := s.sys.thin ops }

/- Two services that differ in the record alone. -/
def Thinned (s s' : Cached Vec F D) : Prop :=
  ∃ ops, (∀ op ∈ ops, op ∈ s.sys.world.db.completedOps) ∧
    s' = s.thin ops

variable {s : Cached Vec F D} {ops : List CompletedOp}

theorem cache_thin : (s.thin ops).cache = s.cache := rfl

theorem tracker_thin : (s.thin ops).tracker = s.tracker := rfl

theorem time_thin : (s.thin ops).time = s.time := rfl

theorem qdrant_thin :
    (s.thin ops).sys.world.qdrant = s.sys.world.qdrant :=
  rfl

theorem clock_thin :
    (s.thin ops).sys.world.clock = s.sys.world.clock :=
  rfl

variable [DecidableEq Vec]
variable [LE F] [LT F] [DecidableLE F] [DecidableLT F]
variable [LT D] [DecidableLT D]
variable {backend : Backend Vec F D}

omit [LT F] [DecidableLT F] in
/- A recall neither reads the record nor writes to it. -/
theorem advance_thin
    (ops : List CompletedOp)
    (call : RecallCall Vec F D) :
    (s.thin ops).advance backend call =
        ((s.advance backend call).1.thin ops,
          (s.advance backend call).2) ∧
      (s.advance backend call).1.sys.world.db.completedOps =
        s.sys.world.db.completedOps := by
  cases hStage : call.stage with
  | embed req =>
      simp only [advance, hStage, cache_thin]
      split <;> exact ⟨rfl, rfl⟩
  | entry q generation =>
      simp only [advance, hStage, cache_thin]
      split <;> exact ⟨rfl, rfl⟩
  | search q =>
      simp only [advance, hStage, qdrant_thin, time_thin]
      split
      · exact ⟨rfl, rfl⟩
      · split <;> exact ⟨rfl, rfl⟩
  | rows q found =>
      simp only [advance, hStage]
      by_cases hEmpty :
          (Recall.order q.req found
            (s.sys.world.db.getMemoriesByIds
              (found.map Prod.fst))).isEmpty = true
      · have hEmpty' :
            (Recall.order q.req found
              ((s.thin ops).sys.world.db.getMemoriesByIds
                (found.map Prod.fst))).isEmpty = true :=
          hEmpty
        rw [if_pos hEmpty, if_pos hEmpty']
        exact ⟨rfl, rfl⟩
      · have hEmpty' :
            ¬ (Recall.order q.req found
              ((s.thin ops).sys.world.db.getMemoriesByIds
                (found.map Prod.fst))).isEmpty = true :=
          hEmpty
        rw [if_neg hEmpty, if_neg hEmpty']
        exact ⟨rfl, rfl⟩
  | rerank q ordered =>
      simp only [advance, hStage, clock_thin, tracker_thin]
      split
      · exact ⟨rfl, rfl⟩
      · split <;> exact ⟨rfl, rfl⟩
  | validate req results =>
      simp only [advance, hStage, clock_thin]
      split <;> exact ⟨rfl, rfl⟩
  | generation | lookup | flush | put | stamp | done =>
      unfold advance
      rw [hStage]
      exact ⟨rfl, rfl⟩

/- Results that are related are also so with more set. -/
private theorem rel_map
    {α β : Type} {R : α → α → Prop} {Q : β → β → Prop}
    {f g : α → β} {x y : Option α}
    (hRel : Option.Rel R x y)
    (hMap : ∀ a b, R a b → Q (f a) (g b)) :
    Option.Rel Q (x.map f) (y.map g) := by
  cases hRel with
  | some hR => exact .some (hMap _ _ hR)
  | none => exact .none

omit [DecidableEq Vec] [LT D] [DecidableLT D] in
/- Steps of the stores keep the difference to the record. -/
theorem sysNext_thin
    (hSound : Sound backend.env s.sys)
    (hOps : ∀ op ∈ ops, op ∈ s.sys.world.db.completedOps)
    (e : Core.Event F) :
    Option.Rel Cached.Thinned (s.sysNext backend e)
      ((s.thin ops).sysNext backend e) := by
  refine rel_map (System.next_thin hSound hOps e) ?_
  rintro sys _ ⟨left, hLeft, rfl⟩
  exact ⟨left, hLeft, rfl⟩

omit [DecidableEq Vec] [LT D] [DecidableLT D] in
/- What a call owes then is told by its stage. -/
theorem stepNext_thin
    (hSound : Sound backend.env s.sys)
    (hOps : ∀ op ∈ ops, op ∈ s.sys.world.db.completedOps)
    (i : Nat) :
    Option.Rel Cached.Thinned (s.stepNext backend i)
      ((s.thin ops).stepNext backend i) := by
  have hOwed : (s.thin ops).owed i = s.owed i := rfl
  have hLive : (s.thin ops).sys.live i = s.sys.live i := rfl
  simp only [stepNext, hOwed, hLive]
  split
  · rename_i task _ _
    have hTask :
        (task.step backend.env backend.service
          (s.thin ops).sys.world).2 =
          (task.step backend.env backend.service
            s.sys.world).2 :=
      (taskStep_thin task hOps).2
    rw [hTask]
    refine rel_map (sysNext_thin hSound hOps (.step i)) ?_
    rintro t _ ⟨left, hLeft, rfl⟩
    exact ⟨left, hLeft, rfl⟩
  · exact .none

/- No step of the service sees the pruning. -/
theorem next_thin
    (hSound : Sound backend.env s.sys)
    (hOps : ∀ op ∈ ops, op ∈ s.sys.world.db.completedOps)
    (e : Cached.Event F) :
    Option.Rel Cached.Thinned (s.next backend e)
      ((s.thin ops).next backend e) := by
  have hOwed : (s.thin ops).owed = s.owed := rfl
  have hRecalls : (s.thin ops).recalls = s.recalls := rfl
  have hBackground : (s.thin ops).background = s.background :=
    rfl
  cases e with
  | sys e =>
      cases e with
      | crash | recover => exact .none
      | step i => exact stepNext_thin hSound hOps i
      | fail i err =>
          simp only [next, hOwed]
          split
          · exact sysNext_thin hSound hOps (.fail i err)
          · exact .none
      | tick d => exact sysNext_thin hSound hOps (.tick d)
      | store i req =>
          exact sysNext_thin hSound hOps (.store i req)
      | forget i ids =>
          exact sysNext_thin hSound hOps (.forget i ids)
  | bump i =>
      simp only [next, hOwed]
      split
      · exact .some ⟨ops, hOps, rfl⟩
      · exact .none
  | «recall» j req =>
      simp only [next, hRecalls]
      split
      · exact .some ⟨ops, hOps, rfl⟩
      · exact .none
  | advance j =>
      simp only [next, hRecalls]
      split
      · rename_i call _
        have hAdvance :
            (s.thin ops).advance backend call =
                ((s.advance backend call).1.thin ops,
                  (s.advance backend call).2) ∧
              (s.advance backend call).1.sys.world.db.completedOps =
                s.sys.world.db.completedOps :=
          advance_thin ops call
        rcases hAdvance with ⟨hNext, hSame⟩
        rw [hNext]
        refine .some ⟨ops, ?_, rfl⟩
        intro op hop
        exact hSame.symm ▸ hOps op hop
      · exact .none
  | failRecall j err =>
      simp only [next, hRecalls]
      split
      · rename_i call _
        cases call.stage.fail err with
        | none => exact .none
        | some stage => exact .some ⟨ops, hOps, rfl⟩
      · exact .none
  | drain =>
      simp only [next, hBackground]
      split
      · exact .some ⟨ops, hOps, rfl⟩
      · exact .none
  | flushed ok =>
      cases ok with
      | true => exact .some ⟨ops, hOps, rfl⟩
      | false => exact .some ⟨ops, hOps, rfl⟩

end Cached

end Core

end Ferrex
