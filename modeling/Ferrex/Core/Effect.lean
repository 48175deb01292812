import Ferrex.Core.Store

/-
  What one step of a store call can do to the world: the
  four writes of the dual write, the two writes to the
  entity registry's points, or nothing that a memory, an op
  or a point depends on.

  Main declarations:
    * `StoreStage.preparing`, `StoreStage.context`
    * `StoreStage.Effect`
    * `StoreStage.step_effect`
-/

------------------------------------------------------------
-- Readings of a Stage
------------------------------------------------------------

namespace Ferrex

namespace Core

open Store

variable {Vec F : Type}

namespace StoreStage

/- The context of a call that has not logged its op. -/
def preparing :
    StoreStage Vec F → Option (StoreContext Vec F)
| .embed ctx => some ctx
| .dedup ctx => some ctx
| .conflict ctx => some ctx
| .entities ctx => some ctx
| .resolve ctx _ => some ctx
| .target ctx _ => some ctx
| .insertOp ctx => some ctx
| _ => none

/- The context of a call that has not committed. -/
def context :
    StoreStage Vec F → Option (StoreContext Vec F)
| .upsert ctx _ _ _ => some ctx
| .mark ctx _ _ => some ctx
| .commit ctx _ _ => some ctx
| st => st.preparing

/- An entity that is created but not yet a point. -/
def newEntity : StoreStage Vec F → Option Store.Entity
| .resolve _ ⟨_, _, _, .point entity _⟩ => some entity
| _ => none

/- A call that is being prepared has a context. -/
theorem context_of_preparing
    {st : StoreStage Vec F} {ctx : StoreContext Vec F}
    (h : st.preparing = some ctx) :
    st.context = some ctx := by
  cases st <;> simp_all [preparing, context]

end StoreStage

------------------------------------------------------------
-- Effects
------------------------------------------------------------

/- Nothing happens to the memories or to the ops. -/
structure Quiet (w w' : World Vec) : Prop where
  memories : w'.db.memories = w.db.memories
  pendingOps : w'.db.pendingOps = w.db.pendingOps
  completedOps : w'.db.completedOps = w.db.completedOps
  clock : w'.clock = w.clock
  nextUuid : w.nextUuid ≤ w'.nextUuid

/- Nothing has been written. -/
theorem Quiet.refl (w : World Vec) : Quiet w w :=
  ⟨rfl, rfl, rfl, rfl, le_rfl⟩

namespace StoreStage

/- The step from a stage in a world, by what it changes. -/
inductive Effect
    (env : Env Vec F)
    (service : MemoryService F)
    (w : World Vec) :
    StoreStage Vec F → World Vec → StoreStage Vec F → Prop
| start
    {req : StoreRequest} {w' : World Vec}
    {ctx : StoreContext Vec F}
    (hQuiet : Quiet w w')
    (hQdrant : w'.qdrant = w.qdrant)
    (hNext : w'.nextUuid = w.nextUuid + 1)
    (hCall : SameCall (newContext env service w req) ctx) :
    Effect env service w (.ensure req) w' (.embed ctx)
| prepare
    {st st' : StoreStage Vec F} {w' : World Vec}
    {ctx ctx' : StoreContext Vec F}
    (hOld : st.preparing = some ctx)
    (hNew : st'.preparing = some ctx')
    (hCall : SameCall ctx ctx')
    (hEntity : st'.newEntity = none)
    (hQuiet : Quiet w w')
    (hQdrant : w'.qdrant = w.qdrant) :
    Effect env service w st w' st'
| createEntity
    {st st' : StoreStage Vec F} {w' : World Vec}
    {ctx : StoreContext Vec F} {entity : Store.Entity}
    (hOld : st.preparing = some ctx)
    (hNew : st'.preparing = some ctx)
    (hEntity : st'.newEntity = some entity)
    (hId : entity.id = env.uuid w.nextUuid)
    (hQuiet : Quiet w w')
    (hQdrant : w'.qdrant = w.qdrant)
    (hNext : w'.nextUuid = w.nextUuid + 1) :
    Effect env service w st w' st'
| entityPoint
    {st st' : StoreStage Vec F} {w' : World Vec}
    {ctx ctx' : StoreContext Vec F}
    {entity : Store.Entity} {embedding : Vec}
    (hOld : st.preparing = some ctx)
    (hNew : st'.preparing = some ctx')
    (hCall : SameCall ctx ctx')
    (hEntity : st.newEntity = some entity)
    (hEntity' : st'.newEntity = none)
    (hQuiet : Quiet w w')
    (hUpsert :
      w.qdrant.upsert ctx.namespace entity.id embedding
        entity.name (entityPayload entity ctx.namespace) =
          .ok w'.qdrant) :
    Effect env service w st w' st'
| stop
    {st : StoreStage Vec F} {w' : World Vec}
    {e : CoreError F}
    (hQuiet : Quiet w w')
    (hQdrant : w'.qdrant = w.qdrant) :
    Effect env service w st w' (.done (.error e))
| log
    {ctx : StoreContext Vec F} {embedding : Vec}
    {db : Sqlite}
    (hInsert :
      w.db.insertPendingOp
        (Write.pendingOp ctx (env.uuid w.nextUuid)
          w.clock) = .ok db) :
    Effect env service w (.insertOp ctx)
      { w with db := db, nextUuid := w.nextUuid + 1 }
      (.upsert ctx embedding (env.uuid w.nextUuid) w.clock)
| write
    {ctx : StoreContext Vec F} {embedding : Vec}
    {opId : String} {startedAt : DateTime}
    {qdrant : Qdrant Vec}
    (hUpsert :
      w.qdrant.upsert ctx.namespace ctx.id embedding
        (ctx.searchText.getD "") (Write.payload env ctx) =
          .ok qdrant) :
    Effect env service w (.upsert ctx embedding opId startedAt)
      { w with qdrant := qdrant } (.mark ctx opId startedAt)
| mark
    {ctx : StoreContext Vec F} {opId : String}
    {startedAt : DateTime} :
    Effect env service w (.mark ctx opId startedAt)
      { w with db := w.db.markPendingOpQdrantWritten opId }
      (.commit ctx opId startedAt)
| commit
    {ctx : StoreContext Vec F} {opId : String}
    {startedAt : DateTime} {db : Sqlite}
    (hCommit :
      w.db.commitMemoryWrite (Write.buildMemory env ctx)
        (ctx.resolvedEntities.map Store.Entity.id)
        (Write.invalidateIds ctx) ctx.now
        ((Write.pendingOp ctx opId startedAt).intoCompleted
          ctx.id ctx.namespace w.clock) = .ok db) :
    Effect env service w (.commit ctx opId startedAt)
      { w with db := db }
      (.done (.ok (Write.response env ctx)))
| done
    {result : Except (CoreError F) StoreResponse} :
    Effect env service w (.done result) w (.done result)

------------------------------------------------------------
-- Steps and Effects
------------------------------------------------------------

variable [LE F] [LT F] [DecidableLE F] [DecidableLT F]
variable {env : Env Vec F} {service : MemoryService F}
variable {w : World Vec}

omit [LE F] [LT F] [DecidableLE F] [DecidableLT F] in
/-
  With its entities resolved, a call is still being
  prepared.
-/
private theorem afterEntities_preparing
    (ctx : StoreContext Vec F) :
    (afterEntities ctx).preparing = some ctx ∧
      (afterEntities ctx).newEntity = none := by
  unfold afterEntities
  split <;> simp [preparing, newEntity]

omit [LE F] [LT F] [DecidableLE F] [DecidableLT F] in
/- And so it is with one name more. -/
private theorem nextName_preparing
    (ctx : StoreContext Vec F)
    (r : Resolving Vec)
    (entity : Store.Entity) :
    ∃ ctx', SameCall ctx ctx' ∧
      (nextName ctx r entity).preparing = some ctx' ∧
        (nextName ctx r entity).newEntity = none := by
  rcases nextName_eq ctx r entity with
    ⟨r', hEq, _, hPhase, _⟩ | ⟨ctx', hEq, hCall⟩
  · refine ⟨ctx, SameCall.refl ctx, by simp [hEq, preparing],
      ?_⟩
    rcases r' with ⟨names, allEntities, resolved, phase⟩
    subst hPhase
    simp [hEq, newEntity]
  · rw [hEq]
    exact ⟨ctx', hCall, afterEntities_preparing ctx'⟩

/- The registry's tables are all that an entity touches. -/
private theorem insertEntity_quiet
    {entity : Store.Entity} {db : Sqlite}
    (h : w.db.insertEntity entity = .ok db) :
    Quiet w { w with db := db } := by
  unfold Sqlite.insertEntity at h
  split at h
  · cases h
  · split at h <;> cases h
    exact ⟨rfl, rfl, rfl, rfl, le_rfl⟩

/- An alias is a quiet write. -/
private theorem addEntityAlias_quiet
    {entityId name : String} {now : DateTime} {db : Sqlite}
    (h : w.db.addEntityAlias entityId name now = .ok db) :
    Quiet w { w with db := db } := by
  unfold Sqlite.addEntityAlias at h
  split at h <;> cases h
  exact ⟨rfl, rfl, rfl, rfl, le_rfl⟩

omit [LE F] [DecidableLE F] in
/- To resolve a name has an effect on the registry alone. -/
private theorem resolveStep_effect
    (ctx : StoreContext Vec F)
    (r : Resolving Vec) :
    Effect env service w (.resolve ctx r) (resolveStep env w ctx r).1
      (resolveStep env w ctx r).2 := by
  have hOld :
      (resolve ctx r).preparing = some ctx := rfl
  have hSame := SameCall.refl ctx
  rcases r with ⟨names, allEntities, resolved, phase⟩
  unfold resolveStep
  cases phase with
  | exact =>
      dsimp only
      split
      · exact .stop (Quiet.refl w) rfl
      · split
        · rename_i entity _
          rcases nextName_preparing ctx
              ⟨names, allEntities, resolved, .exact⟩ entity
            with ⟨ctx', hCall, hNew, hEntity⟩
          exact .prepare hOld hNew hCall hEntity
            (Quiet.refl w) rfl
        · split <;>
            exact .prepare hOld rfl hSame rfl
              (Quiet.refl w) rfl
  | search =>
      dsimp only
      split
      · exact .stop (Quiet.refl w) rfl
      · split <;>
          exact .prepare hOld rfl hSame rfl
            (Quiet.refl w) rfl
  | create embedding =>
      dsimp only
      split
      · exact .stop ⟨rfl, rfl, rfl, rfl, Nat.le_succ _⟩ rfl
      · rename_i db hInsert
        have hQuiet := insertEntity_quiet hInsert
        exact .createEntity hOld rfl rfl rfl
          ⟨hQuiet.memories, hQuiet.pendingOps,
            hQuiet.completedOps, rfl, Nat.le_succ _⟩
          rfl rfl
  | point entity embedding =>
      dsimp only
      split
      · exact .stop (Quiet.refl w) rfl
      · rename_i qdrant hUpsert
        rcases nextName_preparing ctx
            ⟨names, allEntities, resolved,
              .point entity embedding⟩ entity
          with ⟨ctx', hCall, hNew, hEntity⟩
        exact .entityPoint hOld hNew hCall rfl hEntity
          ⟨rfl, rfl, rfl, rfl, le_rfl⟩ hUpsert
  | addAlias entity =>
      dsimp only
      split
      · exact .stop (Quiet.refl w) rfl
      · rename_i db hAlias
        rcases nextName_preparing ctx
            ⟨names, allEntities, resolved, .addAlias entity⟩
            entity
          with ⟨ctx', hCall, hNew, hEntity⟩
        exact .prepare hOld hNew hCall hEntity
          (addEntityAlias_quiet hAlias) rfl

/- Every step has one of the effects. -/
theorem step_effect
    (env : Env Vec F)
    (service : MemoryService F)
    (w : World Vec)
    (st : StoreStage Vec F) :
    Effect env service w st (step env service w st).1
      (step env service w st).2 := by
  cases st with
  | ensure req =>
      simp only [step]
      split
      · exact .stop (Quiet.refl w) rfl
      · split
        · exact .stop
            ⟨rfl, rfl, rfl, rfl, Nat.le_succ _⟩ rfl
        · rename_i ctx hValid
          rcases validated_eq_ok hValid with ⟨p, rfl⟩
          exact .start
            ⟨rfl, rfl, rfl, rfl, Nat.le_succ _⟩
            rfl rfl ⟨rfl, rfl, rfl, rfl, rfl⟩
  | embed ctx =>
      simp only [step]
      split <;>
        exact .prepare rfl rfl
          ⟨rfl, rfl, rfl, rfl, rfl⟩ rfl (Quiet.refl w) rfl
  | dedup ctx =>
      simp only [step]
      split
      · exact .stop (Quiet.refl w) rfl
      · exact .prepare rfl rfl (SameCall.refl ctx) rfl
          (Quiet.refl w) rfl
  | conflict ctx =>
      simp only [step]
      split
      · exact .stop (Quiet.refl w) rfl
      · rename_i ctx' hRun
        rcases Conflict.run_eq_ok hRun with ⟨ids, rfl⟩
        exact .prepare rfl rfl
          ⟨rfl, rfl, rfl, rfl, rfl⟩ rfl (Quiet.refl w) rfl
  | entities ctx =>
      have hAfter := afterEntities_preparing ctx
      simp only [step]
      split
      · exact .prepare rfl hAfter.1 (SameCall.refl ctx)
          hAfter.2 (Quiet.refl w) rfl
      · split
        · exact .stop (Quiet.refl w) rfl
        · exact .prepare rfl rfl (SameCall.refl ctx) rfl
            (Quiet.refl w) rfl
  | resolve ctx r => exact resolveStep_effect ctx r
  | target ctx targetId =>
      simp only [step]
      split
      · exact .stop (Quiet.refl w) rfl
      · exact .prepare rfl rfl (SameCall.refl ctx) rfl
          (Quiet.refl w) rfl
  | insertOp ctx =>
      simp only [step]
      split
      · exact .stop (Quiet.refl w) rfl
      · split
        · exact .stop
            ⟨rfl, rfl, rfl, rfl, Nat.le_succ _⟩ rfl
        · rename_i db hInsert
          exact .log hInsert
  | upsert ctx embedding opId startedAt =>
      simp only [step]
      split
      · exact .stop (Quiet.refl w) rfl
      · rename_i qdrant hUpsert
        exact .write hUpsert
  | mark ctx opId startedAt => exact .mark
  | commit ctx opId startedAt =>
      simp only [step]
      split
      · exact .stop (Quiet.refl w) rfl
      · rename_i db hCommit
        exact .commit hCommit
  | done result => exact .done

end StoreStage

end Core

end Ferrex
