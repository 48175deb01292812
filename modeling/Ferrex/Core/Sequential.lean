import Ferrex.Core.Effect
import Ferrex.Core.Sound

/-
  A store request that runs on its own: what keeps its
  writes from being refused, what becomes of the memory
  rows, and when it is bound to commit.

  Main declarations:
    * `World.WellFormed`, `StoreStage.Proper`
    * `StoreStage.step_proper`
-/

------------------------------------------------------------
-- Well-Formed Worlds
------------------------------------------------------------

namespace Ferrex

namespace Core

open Store

variable {Vec F : Type}
variable {env : Env Vec F} {w w' : World Vec}

/- Row ids are unique, and every id in use is an old one. -/
structure World.WellFormed
    (env : Env Vec F)
    (w : World Vec) : Prop where
  rows_unique :
    Table.KeyUnique MemoryRow.id w.db.memories
  rows : ∀ r ∈ w.db.memories, Old env w r.id
  ops : ∀ op ∈ w.db.pendingOps, Old env w op.opId
  entities : ∀ e ∈ w.db.entities, Old env w e.id

/- The registry has an entity with the id. -/
def World.HasEntity (w : World Vec) (id : String) : Prop :=
  Table.HasKey Store.Entity.id id w.db.entities

namespace World.WellFormed

/- A step that takes UUIDs and writes to neither table. -/
theorem mono
    (hWorld : w.WellFormed env)
    (hMemories : w'.db.memories = w.db.memories)
    (hOps : w'.db.pendingOps = w.db.pendingOps)
    (hEntities :
      ∀ e ∈ w'.db.entities, w.HasEntity e.id)
    (hNext : w.nextUuid ≤ w'.nextUuid) :
    w'.WellFormed env where
  rows_unique := hMemories ▸ hWorld.rows_unique
  rows r hr := (hWorld.rows r (hMemories ▸ hr)).mono hNext
  ops op hop := (hWorld.ops op (hOps ▸ hop)).mono hNext
  entities e he := by
    rcases hEntities e he with ⟨e₀, he₀, hId⟩
    exact hId ▸ (hWorld.entities e₀ he₀).mono hNext

theorem fresh_row
    (hWorld : w.WellFormed env) :
    ∀ r ∈ w.db.memories, r.id ≠ env.uuid w.nextUuid :=
  fun r hr => (hWorld.rows r hr).ne_next

theorem fresh_op
    (hWorld : w.WellFormed env) :
    ¬ Table.HasKey PendingOp.opId (env.uuid w.nextUuid)
      w.db.pendingOps := by
  rintro ⟨op, hop, hId⟩
  exact (hWorld.ops op hop).ne_next hId

theorem fresh_entity
    (hWorld : w.WellFormed env) :
    ¬ w.HasEntity (env.uuid w.nextUuid) := by
  rintro ⟨e, he, hId⟩
  exact (hWorld.entities e he).ne_next hId

end World.WellFormed

------------------------------------------------------------
-- Proper Stages
------------------------------------------------------------

/- The new row's id is free, and its entities exist. -/
structure StoreContext.Proper
    (env : Env Vec F)
    (w : World Vec)
    (ctx : StoreContext Vec F) : Prop where
  fresh : ∀ r ∈ w.db.memories, r.id ≠ ctx.id
  old : Old env w ctx.id
  registered :
    ∀ e ∈ ctx.resolvedEntities, w.HasEntity e.id

/- What a phase of a resolution relies on. -/
def ResolvePhase.Proper
    (env : Env Vec F)
    (w : World Vec)
    (name : String) : ResolvePhase Vec → Prop
| .exact => True
| .search =>
    w.db.getEntityByName (Entity.normalize env name) = none
| .create _ =>
    w.db.getEntityByName (Entity.normalize env name) = none
| .point entity _ => w.HasEntity entity.id
| .addAlias entity => w.HasEntity entity.id

/- The current name, as the registry would have it. -/
def Resolving.current
    (env : Env Vec F)
    (r : Resolving Vec) : String :=
  Entity.normalize env (r.names.head?.getD "")

structure Resolving.Proper
    (env : Env Vec F)
    (w : World Vec)
    (r : Resolving Vec) : Prop where
  name :
    r.phase = .exact ∨ (r.current env).isEmpty = false
  allEntities : ∀ e ∈ r.allEntities, w.HasEntity e.id
  resolved : ∀ e ∈ r.resolved, w.HasEntity e.id
  phase : r.phase.Proper env w (r.names.head?.getD "")

def StoreStage.Proper
    (env : Env Vec F)
    (w : World Vec)
    (st : StoreStage Vec F) : Prop :=
  (∀ ctx, st.context = some ctx → ctx.Proper env w) ∧
    ∀ ctx r, st = .resolve ctx r → r.Proper env w

namespace StoreContext.Proper

variable {ctx : StoreContext Vec F}

theorem mono
    (hCtx : ctx.Proper env w)
    (hMemories : w'.db.memories = w.db.memories)
    (hEntities : ∀ id, w.HasEntity id → w'.HasEntity id)
    (hNext : w.nextUuid ≤ w'.nextUuid) :
    ctx.Proper env w' where
  fresh := hMemories ▸ hCtx.fresh
  old := hCtx.old.mono hNext
  registered e he := hEntities _ (hCtx.registered e he)

end StoreContext.Proper

/- Any stage with a context but `resolve`. -/
private theorem proper_of_context
    {st : StoreStage Vec F} {ctx : StoreContext Vec F}
    (hCtx : ctx.Proper env w)
    (hContext : st.context = some ctx)
    (hResolve : ∀ ctx r, st ≠ .resolve ctx r) :
    st.Proper env w := by
  refine ⟨fun ctx' h => ?_,
    fun ctx' r h => absurd h (hResolve ctx' r)⟩
  cases hContext.symm.trans h
  exact hCtx

private theorem proper_done
    (result : Except (CoreError F) StoreResponse) :
    (StoreStage.done result : StoreStage Vec F).Proper
      env w :=
  ⟨by simp [StoreStage.context, StoreStage.preparing],
    by simp⟩

------------------------------------------------------------
-- Resolution of Entities
------------------------------------------------------------

/- Errors that report memories in the way of a request. -/
def CoreError.reports : CoreError F → Bool
| .duplicate _ _ => true
| .conflictAmbiguous _ _ => true
| .multiMatchConflict _ => true
| _ => false

/- A step that writes to the registry at most. -/
structure Registers
    (env : Env Vec F)
    (w w' : World Vec) : Prop where
  memories : w'.db.memories = w.db.memories
  pendingOps : w'.db.pendingOps = w.db.pendingOps
  nextUuid : w.nextUuid ≤ w'.nextUuid
  keeps : ∀ id, w.HasEntity id → w'.HasEntity id
  new :
    ∀ e ∈ w'.db.entities, w.HasEntity e.id ∨
      (e.id = env.uuid w.nextUuid ∧
        w.nextUuid < w'.nextUuid)

theorem Registers.refl (w : World Vec) : Registers env w w :=
  ⟨rfl, rfl, le_rfl, fun _ h => h,
    fun e he => Or.inl ⟨e, he, rfl⟩⟩

theorem World.WellFormed.registers
    (hWorld : w.WellFormed env)
    (hRegisters : Registers env w w') :
    w'.WellFormed env where
  rows_unique := hRegisters.memories ▸ hWorld.rows_unique
  rows r hr :=
    (hWorld.rows r (hRegisters.memories ▸ hr)).mono
      hRegisters.nextUuid
  ops op hop :=
    (hWorld.ops op (hRegisters.pendingOps ▸ hop)).mono
      hRegisters.nextUuid
  entities e he := by
    rcases hRegisters.new e he with
      ⟨e₀, he₀, hId⟩ | ⟨hId, hNext⟩
    · exact hId ▸ (hWorld.entities e₀ he₀).mono
        hRegisters.nextUuid
    · exact hId ▸ Old.of_next hNext

/- A new entity joins the others. -/
theorem Registers.insertEntity
    {entity : Store.Entity} {db : Sqlite}
    (hId : entity.id = env.uuid w.nextUuid)
    (h : w.db.insertEntity entity = .ok db) :
    Registers env w
        { w with db := db, nextUuid := w.nextUuid + 1 } ∧
      World.HasEntity
        { w with db := db, nextUuid := w.nextUuid + 1 }
        entity.id := by
  rcases Sqlite.insertEntity_eq_ok h with ⟨aliases, rfl⟩
  refine ⟨⟨rfl, rfl, Nat.le_succ _, ?_, ?_⟩, ?_⟩
  · rintro id ⟨e, he, hEq⟩
    exact ⟨e, List.mem_append_left _ he, hEq⟩
  · intro e he
    rcases List.mem_append.mp he with he | he
    · exact Or.inl ⟨e, he, rfl⟩
    · obtain rfl := List.mem_singleton.mp he
      exact Or.inr ⟨hId, Nat.lt_succ_self _⟩
  · exact ⟨_, List.mem_append_right _
      (List.mem_singleton_self _), rfl⟩

/- An alias changes nobody's id. -/
theorem Registers.addEntityAlias
    (env : Env Vec F)
    {entityId name : String} {now : DateTime} {db : Sqlite}
    (h : w.db.addEntityAlias entityId name now = .ok db) :
    Registers env w { w with db := db } := by
  rcases Sqlite.addEntityAlias_eq_ok h with ⟨aliases, rfl⟩
  have hSame :
      ∀ id, Table.HasKey Store.Entity.id id
          (Table.update (fun e => e.id = entityId)
            (fun e => { e with updatedAt := now })
            w.db.entities) ↔
        w.HasEntity id :=
    fun id => Table.hasKey_update_iff (fun _ => rfl)
  exact ⟨rfl, rfl, le_rfl, fun id hId => (hSame id).mpr hId,
    fun e he => Or.inl ((hSame e.id).mp ⟨e, he, rfl⟩)⟩

/- The stages that one call of a resolution can lead to. -/
inductive Resolved
    (env : Env Vec F)
    (w : World Vec)
    (ctx : StoreContext Vec F)
    (r : Resolving Vec) : StoreStage Vec F → Prop
| stop (e : CoreError F)
    (hReports : e.reports = false)
    (hCause :
      ensureCollection ctx.namespace = .ok () →
        (r.current env).isEmpty = true) :
    Resolved env w ctx r (.done (.error e))
| again (r' : Resolving Vec)
    (hName : (r.current env).isEmpty = false)
    (hNames : r'.names = r.names)
    (hProper : r'.Proper env w) :
    Resolved env w ctx r (.resolve ctx r')
| next (r' : Resolving Vec)
    (hName : (r.current env).isEmpty = false)
    (hNames : r'.names = r.names.tail)
    (hNil : r'.names ≠ [])
    (hProper : r'.Proper env w) :
    Resolved env w ctx r (.resolve ctx r')
| last (resolved : List Store.Entity)
    (hName : (r.current env).isEmpty = false)
    (hTail : r.names.tail = [])
    (hResolved : ∀ e ∈ resolved, w.HasEntity e.id) :
    Resolved env w ctx r
      (afterEntities
        { ctx with resolvedEntities := resolved })

private theorem nextName_resolved
    {ctx : StoreContext Vec F} {r : Resolving Vec}
    {entity : Store.Entity}
    (hName : (r.current env).isEmpty = false)
    (hAll : ∀ e ∈ r.allEntities, w.HasEntity e.id)
    (hResolved : ∀ e ∈ r.resolved, w.HasEntity e.id)
    (hEntity : w.HasEntity entity.id) :
    Resolved env w ctx r (nextName ctx r entity) := by
  have hMore :
      ∀ e ∈ r.resolved ++ [entity], w.HasEntity e.id := by
    intro e he
    rcases List.mem_append.mp he with he | he
    · exact hResolved e he
    · exact List.mem_singleton.mp he ▸ hEntity
  unfold nextName
  cases hTail : r.names.tail with
  | nil => exact .last _ hName hTail hMore
  | cons name names =>
      refine .next _ hName hTail.symm (by simp)
        ⟨Or.inl rfl, ?_, hMore, trivial⟩
      intro e he
      dsimp only at he
      split at he
      · exact hAll e he
      · rcases List.mem_append.mp he with he | he
        · exact hAll e he
        · exact List.mem_singleton.mp he ▸ hEntity

theorem ensureCollection_of_searchDense
    {nearest : NearestPoints Vec F} {q : Qdrant Vec}
    {ns : String} {v : Vec} {k : Nat}
    {filter : Payload → Bool} {e : StoreError}
    (h : q.searchDense nearest ns v k filter = .error e) :
    ensureCollection ns ≠ .ok () := by
  unfold Qdrant.searchDense at h
  unfold ensureCollection
  grind

theorem ensureCollection_of_upsert
    {q : Qdrant Vec} {ns id text : String} {v : Vec}
    {payload : Payload} {e : StoreError}
    (h : q.upsert ns id v text payload = .error e) :
    ensureCollection ns ≠ .ok () := by
  unfold Qdrant.upsert at h
  unfold ensureCollection
  grind

variable [LT F] [DecidableLT F]

/-
  One call of a resolution writes to the registry at most,
  and stops on an empty name or a bad namespace only.
-/
theorem resolveStep_resolved
    (ctx : StoreContext Vec F)
    {r : Resolving Vec}
    (hWorld : w.WellFormed env)
    (hProper : r.Proper env w) :
    Registers env w (resolveStep env w ctx r).1 ∧
      Resolved env (resolveStep env w ctx r).1 ctx r
        (resolveStep env w ctx r).2 := by
  rcases r with ⟨names, allEntities, resolved, phase⟩
  rcases hProper with ⟨hName, hAll, hResolved, hPhase⟩
  unfold resolveStep
  cases phase with
  | exact =>
      dsimp only
      split
      · rename_i hEmpty
        exact ⟨Registers.refl w,
          .stop _ rfl (fun _ => hEmpty)⟩
      · rename_i hNonempty
        have hName := Bool.eq_false_of_not_eq_true hNonempty
        split
        · rename_i entity hEntity
          exact ⟨Registers.refl w,
            nextName_resolved hName hAll hResolved
              (Sqlite.hasKey_of_getEntityByName hEntity)⟩
        · rename_i hNone
          split
          · rename_i best hBest
            have hMem :=
              hAll _ (Entity.mem_of_bestFuzzyMatch hBest)
            exact ⟨Registers.refl w,
              .again _ hName rfl
                ⟨Or.inr hName, hAll, hResolved, hMem⟩⟩
          · exact ⟨Registers.refl w,
              .again _ hName rfl
                ⟨Or.inr hName, hAll, hResolved, hNone⟩⟩
  | search =>
      have hName := hName.resolve_left (by simp)
      dsimp only
      split
      · rename_i e hSearch
        exact ⟨Registers.refl w, .stop _ rfl (fun hOk =>
          absurd hOk
            (ensureCollection_of_searchDense hSearch))⟩
      · split
        · rename_i entity hMatch
          have hMem : entity ∈ allEntities := by
            unfold embeddingMatch at hMatch
            split at hMatch
            · cases hMatch
            · split at hMatch
              · exact
                  Entity.mem_of_findEntityByPointId hMatch
              · cases hMatch
          exact ⟨Registers.refl w,
            .again _ hName rfl
              ⟨Or.inr hName, hAll, hResolved, hAll _ hMem⟩⟩
        · exact ⟨Registers.refl w,
            .again _ hName rfl
              ⟨Or.inr hName, hAll, hResolved, hPhase⟩⟩
  | create embedding =>
      have hName := hName.resolve_left (by simp)
      dsimp only
      split
      · -- the name and the id are both new
        rename_i e hInsert
        have hNew := Sqlite.getEntityByName_eq_none hPhase
        rcases Sqlite.insertEntity_eq_error hInsert with
          hUsed | hUsed
        · dsimp only at hUsed hNew
          exact absurd hUsed hNew
        · exact absurd hUsed hWorld.fresh_entity
      · rename_i db hInsert
        have hBoth :=
          Registers.insertEntity rfl hInsert
        exact ⟨hBoth.1, .again _ hName rfl
          ⟨Or.inr hName,
            fun e he => hBoth.1.keeps _ (hAll e he),
            fun e he => hBoth.1.keeps _ (hResolved e he),
            hBoth.2⟩⟩
  | point entity embedding =>
      have hName := hName.resolve_left (by simp)
      dsimp only
      split
      · rename_i e hUpsert
        exact ⟨Registers.refl w, .stop _ rfl (fun hOk =>
          absurd hOk (ensureCollection_of_upsert hUpsert))⟩
      · rename_i qdrant hUpsert
        exact ⟨⟨rfl, rfl, le_rfl, fun _ h => h,
            fun e he => Or.inl ⟨e, he, rfl⟩⟩,
          nextName_resolved hName hAll hResolved hPhase⟩
  | addAlias entity =>
      have hName := hName.resolve_left (by simp)
      dsimp only
      split
      · -- the entity exists
        rename_i e hAlias
        exact absurd hPhase
          (Sqlite.addEntityAlias_eq_error hAlias)
      · rename_i db hAlias
        have hRegisters :=
          Registers.addEntityAlias env hAlias
        exact ⟨hRegisters, nextName_resolved hName
          (fun e he => hRegisters.keeps _ (hAll e he))
          (fun e he => hRegisters.keeps _ (hResolved e he))
          (hRegisters.keeps _ hPhase)⟩

------------------------------------------------------------
-- Steps of Proper Stages
------------------------------------------------------------

omit [LT F] [DecidableLT F] in
private theorem afterEntities_proper
    {ctx : StoreContext Vec F}
    (hCtx : ctx.Proper env w) :
    (afterEntities ctx).Proper env w := by
  unfold afterEntities
  split
  · exact proper_of_context hCtx rfl (by simp)
  · exact proper_of_context hCtx rfl (by simp)

omit [LT F] [DecidableLT F] in
private theorem proper_of_resolved
    {ctx : StoreContext Vec F} {r : Resolving Vec}
    {st : StoreStage Vec F}
    (hCtx : ctx.Proper env w)
    (hResolved : Resolved env w ctx r st) :
    st.Proper env w := by
  cases hResolved with
  | stop e _ _ => exact proper_done _
  | again r' _ _ hProper =>
      refine ⟨fun ctx' h => ?_, fun ctx' r'' h => ?_⟩
      · cases h
        exact hCtx
      · cases h
        exact hProper
  | next r' _ _ _ hProper =>
      refine ⟨fun ctx' h => ?_, fun ctx' r'' h => ?_⟩
      · cases h
        exact hCtx
      · cases h
        exact hProper
  | last resolved _ _ hAll =>
      exact afterEntities_proper
        ⟨hCtx.fresh, hCtx.old, hAll⟩

omit [LT F] [DecidableLT F] in
/- A commit adds the id of its context to the rows. -/
private theorem World.WellFormed.commit
    {memory : Memory} {entityIds ids : List String}
    {t : DateTime} {op : CompletedOp} {db : Sqlite}
    (hWorld : w.WellFormed env)
    (hOld : Old env w memory.id)
    (hCommit :
      w.db.commitMemoryWrite memory entityIds ids t op =
        .ok db) :
    World.WellFormed env { w with db := db } := by
  rcases Sqlite.commitMemoryWrite_eq_ok hCommit with
    ⟨hFresh, links, rfl⟩
  constructor
  case rows_unique =>
    exact (hWorld.rows_unique.append hFresh).update
      (fun _ => rfl)
  case rows =>
    intro r hr
    rcases Table.mem_update_iff.mp hr with ⟨r₀, hr₀, rfl⟩
    have hId :
        (if r₀.id ∈ ids then Sqlite.invalidateRow t r₀
          else r₀).id = r₀.id := by
      split <;> rfl
    rw [hId]
    rcases List.mem_append.mp hr₀ with hr₀ | hr₀
    · exact hWorld.rows r₀ hr₀
    · exact List.mem_singleton.mp hr₀ ▸ hOld
  case ops =>
    exact fun x hx =>
      hWorld.ops x (Table.mem_delete_iff.mp hx).1
  case entities => exact hWorld.entities

variable [LE F] [DecidableLE F]
variable {service : MemoryService F}

/- Every step keeps the world and its stage in order. -/
theorem StoreStage.step_proper
    {st : StoreStage Vec F}
    (hWorld : w.WellFormed env)
    (hProper : st.Proper env w) :
    (st.step env service w).1.WellFormed env ∧
      (st.step env service w).2.Proper env
        (st.step env service w).1 := by
  have hTaken :
      World.WellFormed env
        { w with nextUuid := w.nextUuid + 1 } :=
    hWorld.mono rfl rfl (fun e he => ⟨e, he, rfl⟩)
      (Nat.le_succ _)
  cases st with
  | ensure req =>
      simp only [step]
      split
      · exact ⟨hWorld, proper_done _⟩
      · split
        · exact ⟨hTaken, proper_done _⟩
        · rename_i ctx hValid
          rcases validated_eq_ok hValid with ⟨p, rfl⟩
          refine ⟨hTaken, proper_of_context ?_ rfl (by simp)⟩
          exact ⟨hWorld.fresh_row,
            Old.of_next (Nat.lt_succ_self _),
            by simp [newContext, StoreContext.new]⟩
  | embed ctx =>
      have hCtx := hProper.1 ctx rfl
      have hEmbed : (Embed.run env ctx).Proper env w :=
        ⟨hCtx.fresh, hCtx.old, hCtx.registered⟩
      simp only [step]
      split <;>
        exact ⟨hWorld,
          proper_of_context hEmbed rfl (by simp)⟩
  | dedup ctx =>
      simp only [step]
      split
      · exact ⟨hWorld, proper_done _⟩
      · exact ⟨hWorld, proper_of_context
          (hProper.1 ctx rfl) rfl (by simp)⟩
  | conflict ctx =>
      have hCtx := hProper.1 ctx rfl
      simp only [step]
      split
      · exact ⟨hWorld, proper_done _⟩
      · rename_i ctx' hRun
        have hCtx' : ctx'.Proper env w := by
          rcases Conflict.run_eq_ok hRun with ⟨ids, rfl⟩
          exact ⟨hCtx.fresh, hCtx.old, hCtx.registered⟩
        exact ⟨hWorld,
          proper_of_context hCtx' rfl (by simp)⟩
  | entities ctx =>
      have hCtx := hProper.1 ctx rfl
      simp only [step]
      split
      · exact ⟨hWorld, afterEntities_proper hCtx⟩
      · split
        · exact ⟨hWorld, proper_done _⟩
        · refine ⟨hWorld, fun ctx' h => ?_,
            fun ctx' r h => ?_⟩
          · cases h
            exact hCtx
          · cases h
            exact ⟨Or.inl rfl,
              fun e he =>
                Sqlite.hasKey_of_mem_getAllEntities he,
              by simp, trivial⟩
  | resolve ctx r =>
      have hStep :=
        resolveStep_resolved ctx hWorld
          (hProper.2 ctx r rfl)
      have hCtx :=
        (hProper.1 ctx rfl).mono hStep.1.memories
          hStep.1.keeps hStep.1.nextUuid
      exact ⟨hWorld.registers hStep.1,
        proper_of_resolved hCtx hStep.2⟩
  | target ctx targetId =>
      simp only [step]
      split
      · exact ⟨hWorld, proper_done _⟩
      · exact ⟨hWorld, proper_of_context
          (hProper.1 ctx rfl) rfl (by simp)⟩
  | insertOp ctx =>
      have hCtx := hProper.1 ctx rfl
      simp only [step]
      split
      · exact ⟨hWorld, proper_done _⟩
      · split
        · exact ⟨hTaken, proper_done _⟩
        · rename_i db hInsert
          rcases Sqlite.insertPendingOp_eq_ok hInsert with
            ⟨_, rfl⟩
          refine ⟨⟨hWorld.rows_unique,
            hTaken.rows, ?_, hTaken.entities⟩,
            proper_of_context
              (hCtx.mono rfl (fun _ h => h) (Nat.le_succ _))
              rfl (by simp)⟩
          intro op hop
          rcases List.mem_append.mp hop with hop | hop
          · exact hTaken.ops op hop
          · obtain rfl := List.mem_singleton.mp hop
            exact Old.of_next (Nat.lt_succ_self _)
  | upsert ctx embedding opId startedAt =>
      have hCtx := hProper.1 ctx rfl
      simp only [step]
      split
      · exact ⟨hWorld, proper_done _⟩
      · exact ⟨⟨hWorld.rows_unique, hWorld.rows,
            hWorld.ops, hWorld.entities⟩,
          proper_of_context
            (hCtx.mono rfl (fun _ h => h) le_rfl) rfl
              (by simp)⟩
  | mark ctx opId startedAt =>
      have hCtx := hProper.1 ctx rfl
      simp only [step]
      refine ⟨⟨hWorld.rows_unique, hWorld.rows, ?_,
          hWorld.entities⟩,
        proper_of_context
          (hCtx.mono rfl (fun _ h => h) le_rfl) rfl
            (by simp)⟩
      intro op hop
      rcases Table.mem_update_iff.mp hop with
        ⟨op₀, hop₀, rfl⟩
      have hOld := hWorld.ops op₀ hop₀
      split
      · exact hOld
      · exact hOld
  | commit ctx opId startedAt =>
      simp only [step]
      split
      · exact ⟨hWorld, proper_done _⟩
      · rename_i db hCommit
        exact ⟨hWorld.commit (hProper.1 ctx rfl).old hCommit,
          proper_done _⟩
  | done result => exact ⟨hWorld, hProper⟩

------------------------------------------------------------
-- Rows of a Store Past Its Checks
------------------------------------------------------------

/- What a request past its checks is, until it commits. -/
structure Past
    (req : StoreRequest)
    (ns : String)
    (ids : List String)
    (rows : List MemoryRow)
    (w : World Vec)
    (ctx : StoreContext Vec F) : Prop where
  memories : w.db.memories = rows
  request : ctx.req = req
  «namespace» : ctx.namespace = ns
  supersededIds : ctx.supersededIds = ids

/- Every row with the id of the target is of the namespace. -/
def TargetOwn
    (req : StoreRequest)
    (ns : String)
    (rows : List MemoryRow) : Prop :=
  ∀ id, req.supersedes = some id →
    ∀ r ∈ rows, r.id = id → r.namespace = ns

/- The rows that a committed store leaves behind. -/
def Committed
    (req : StoreRequest)
    (ns : String)
    (ids : List String)
    (rows : List MemoryRow)
    (w : World Vec) : Prop :=
  ∃ row t, row.namespace = ns ∧
    w.db.memories =
      Table.update
        (fun r => r.id ∈ ids ++ req.supersedes.toList)
        (Sqlite.invalidateRow t) (rows ++ [row])

/- A store past its checks, from stage to stage. -/
def StoreStage.Past
    (req : StoreRequest)
    (ns : String)
    (ids : List String)
    (rows : List MemoryRow)
    (w : World Vec) : StoreStage Vec F → Prop
| .entities ctx => Core.Past req ns ids rows w ctx
| .resolve ctx _ => Core.Past req ns ids rows w ctx
| .target ctx id =>
    Core.Past req ns ids rows w ctx ∧
      req.supersedes = some id
| .insertOp ctx =>
    Core.Past req ns ids rows w ctx ∧
      TargetOwn req ns rows
| .upsert ctx _ _ _ =>
    Core.Past req ns ids rows w ctx ∧
      TargetOwn req ns rows
| .mark ctx _ _ =>
    Core.Past req ns ids rows w ctx ∧
      TargetOwn req ns rows
| .commit ctx _ _ =>
    Core.Past req ns ids rows w ctx ∧
      TargetOwn req ns rows
| .done (.ok _) =>
    Committed req ns ids rows w ∧ TargetOwn req ns rows
| .done (.error e) =>
    w.db.memories = rows ∧ e.reports = false
| _ => False

section Past

omit [LT F] [DecidableLT F] [LE F] [DecidableLE F]

variable {req : StoreRequest} {ns : String}
variable {ids : List String} {rows : List MemoryRow}
variable {ctx : StoreContext Vec F}

private theorem past_afterEntities
    (hPast : Past req ns ids rows w ctx) :
    (afterEntities ctx).Past req ns ids rows w := by
  unfold afterEntities
  cases hTarget : ctx.req.supersedes with
  | some id =>
      exact ⟨hPast, hPast.request ▸ hTarget⟩
  | none =>
      refine ⟨hPast, fun id h => ?_⟩
      rw [← hPast.request, hTarget] at h
      cases h

/- The check of a target finds the one row with its id. -/
private theorem targetOwn_of_check
    {id : String}
    (hWorld : w.WellFormed env)
    (hPast : Past req ns ids rows w ctx)
    (hTarget : req.supersedes = some id)
    (hCheck : checkTarget ctx id w.db = .ok ()) :
    TargetOwn req ns rows := by
  intro id' hId r hr hEq
  cases hTarget.symm.trans hId
  unfold checkTarget at hCheck
  split at hCheck
  · cases hCheck
  · rename_i target hGet
    split at hCheck
    · cases hCheck
    · rename_i hNs
      have hRow := Sqlite.getMemory_eq_some hGet
      have hSame : r = target.toMemoryRow :=
        hWorld.rows_unique.eq_of_key_eq
          (hPast.memories ▸ hr) hRow.1
            (hEq.trans hRow.2.symm)
      rw [hSame]
      exact (not_not.mp hNs).trans hPast.namespace

end Past

/- A step past the checks writes no row before the commit. -/
theorem StoreStage.step_past
    {req : StoreRequest} {ns : String}
    {ids : List String} {rows : List MemoryRow}
    {st : StoreStage Vec F}
    (hWorld : w.WellFormed env)
    (hProper : st.Proper env w)
    (hPast : st.Past req ns ids rows w) :
    (st.step env service w).2.Past req ns ids rows
      (st.step env service w).1 := by
  cases st with
  | entities ctx =>
      have hCtx : Core.Past req ns ids rows w ctx := hPast
      simp only [step]
      split
      · exact past_afterEntities hCtx
      · split
        · exact ⟨hCtx.memories, rfl⟩
        · exact hCtx
  | resolve ctx r =>
      have hCtx : Core.Past req ns ids rows w ctx := hPast
      have hStep :=
        resolveStep_resolved ctx hWorld
          (hProper.2 ctx r rfl)
      have hLater :
          Core.Past req ns ids rows
            (resolveStep env w ctx r).1 ctx :=
        ⟨hStep.1.memories.trans hCtx.memories,
          hCtx.request, hCtx.namespace, hCtx.supersededIds⟩
      simp only [step]
      generalize hNext : (resolveStep env w ctx r).2 = next
      rw [hNext] at hStep
      cases hStep.2 with
      | stop e hReports _ => exact ⟨hLater.memories, hReports⟩
      | again r' _ _ _ => exact hLater
      | next r' _ _ _ _ => exact hLater
      | last resolved _ _ _ =>
          exact past_afterEntities
            ⟨hLater.memories, hLater.request,
              hLater.namespace, hLater.supersededIds⟩
  | target ctx id =>
      rcases hPast with ⟨hCtx, hTarget⟩
      simp only [step]
      split
      · rename_i e hCheck
        refine ⟨hCtx.memories, ?_⟩
        unfold checkTarget at hCheck
        split at hCheck
        · cases hCheck
          rfl
        · split at hCheck
          · cases hCheck
            rfl
          · split at hCheck <;> cases hCheck
            rfl
      · rename_i hCheck
        exact ⟨hCtx,
          targetOwn_of_check hWorld hCtx hTarget hCheck⟩
  | insertOp ctx =>
      rcases hPast with ⟨hCtx, hOwn⟩
      simp only [step]
      split
      · exact ⟨hCtx.memories, rfl⟩
      · split
        · exact ⟨hCtx.memories, rfl⟩
        · rename_i db hInsert
          rcases Sqlite.insertPendingOp_eq_ok hInsert with
            ⟨_, rfl⟩
          exact ⟨⟨hCtx.memories, hCtx.request,
            hCtx.namespace, hCtx.supersededIds⟩, hOwn⟩
  | upsert ctx embedding opId startedAt =>
      rcases hPast with ⟨hCtx, hOwn⟩
      simp only [step]
      split
      · exact ⟨hCtx.memories, rfl⟩
      · exact ⟨⟨hCtx.memories, hCtx.request,
          hCtx.namespace, hCtx.supersededIds⟩, hOwn⟩
  | mark ctx opId startedAt =>
      rcases hPast with ⟨hCtx, hOwn⟩
      exact ⟨⟨hCtx.memories, hCtx.request,
        hCtx.namespace, hCtx.supersededIds⟩, hOwn⟩
  | commit ctx opId startedAt =>
      rcases hPast with ⟨hCtx, hOwn⟩
      simp only [step]
      split
      · exact ⟨hCtx.memories, rfl⟩
      · rename_i db hCommit
        rcases Sqlite.commitMemoryWrite_eq_ok hCommit with
          ⟨_, links, rfl⟩
        refine ⟨⟨(Write.buildMemory env ctx).toMemoryRow,
          ctx.now, hCtx.namespace, ?_⟩, hOwn⟩
        simp only [Write.invalidateIds, hCtx.memories,
          hCtx.request, hCtx.supersededIds]
  | done result => exact hPast
  | _ => cases hPast

------------------------------------------------------------
-- Stores That Are Bound to Commit
------------------------------------------------------------

/- A request that no stage past the checks can refuse. -/
structure StoreContext.Ready
    (ctx : StoreContext Vec F) : Prop where
  collection : ensureCollection ctx.namespace = .ok ()
  embedding : ctx.embedding ≠ none
  target : ctx.req.supersedes = none

def NamesOk
    (env : Env Vec F)
    (names : List String) : Prop :=
  ∀ name ∈ names, (Entity.normalize env name).isEmpty = false

def StoreStage.Bound
    (env : Env Vec F) : StoreStage Vec F → Prop
| .entities ctx => ctx.Ready ∧ NamesOk env ctx.req.entities
| .resolve ctx r =>
    ctx.Ready ∧ NamesOk env r.names ∧ r.names ≠ []
| .insertOp ctx => ctx.Ready
| .upsert ctx _ _ _ => ctx.Ready
| .mark .. => True
| .commit .. => True
| .done (.ok _) => True
| _ => False

/- A commit whose entities exist succeeds. -/
theorem StoreStage.step_commit
    {ctx : StoreContext Vec F} {opId : String}
    {startedAt : DateTime}
    (hProper :
      (StoreStage.commit ctx opId startedAt).Proper env w) :
    ∃ db,
      (StoreStage.commit ctx opId startedAt).step env service
          w =
        ({ w with db := db },
          .done (.ok (Write.response env ctx))) := by
  have hCtx := hProper.1 ctx rfl
  obtain ⟨db, hCommit⟩ :
      ∃ db, w.db.commitMemoryWrite (Write.buildMemory env ctx)
        (ctx.resolvedEntities.map Store.Entity.id)
        (Write.invalidateIds ctx) ctx.now
        ((Write.pendingOp ctx opId startedAt).intoCompleted
          ctx.id ctx.namespace w.clock) = .ok db := by
    refine Sqlite.commitMemoryWrite_of_fresh ?_ ?_
    · rintro ⟨r, hr, hId⟩
      exact hCtx.fresh r hr hId
    · intro id hId
      rcases List.mem_map.mp hId with ⟨e, he, rfl⟩
      exact hCtx.registered e he
  exact ⟨db, by simp only [step, hCommit]⟩

theorem StoreStage.step_bound
    {st : StoreStage Vec F}
    (hWorld : w.WellFormed env)
    (hProper : st.Proper env w)
    (hBound : st.Bound env) :
    (st.step env service w).2.Bound env := by
  have hAfter :
      ∀ {ctx : StoreContext Vec F}, ctx.Ready →
        (afterEntities ctx).Bound env := by
    intro ctx hReady
    simp only [afterEntities, hReady.target]
    exact hReady
  cases st with
  | entities ctx =>
      rcases hBound with ⟨hReady, hNames⟩
      simp only [step]
      split
      · exact hAfter hReady
      · rename_i hSome
        rw [hReady.collection]
        exact ⟨hReady, hNames,
          mt List.isEmpty_iff.mpr hSome⟩
  | resolve ctx r =>
      rcases hBound with ⟨hReady, hNames, hNil⟩
      have hStep :=
        (resolveStep_resolved ctx hWorld
          (hProper.2 ctx r rfl)).2
      simp only [step]
      generalize hNext : (resolveStep env w ctx r).2 = next
      rw [hNext] at hStep
      cases hStep with
      | stop e _ hCause =>
          have hEmpty := hCause hReady.collection
          cases hFirst : r.names with
          | nil => exact absurd hFirst hNil
          | cons name names =>
              have hName :=
                hNames name (by simp [hFirst])
              simp [Resolving.current, hFirst, hName]
                at hEmpty
      | again r' _ hSame _ =>
          exact ⟨hReady, hSame ▸ hNames, hSame ▸ hNil⟩
      | next r' _ hTail hNil' _ =>
          refine ⟨hReady, fun name hName => ?_, hNil'⟩
          exact hNames name
            (List.mem_of_mem_tail (hTail ▸ hName))
      | last resolved _ _ _ =>
          exact hAfter
            ⟨hReady.collection, hReady.embedding,
              hReady.target⟩
  | insertOp ctx =>
      have hReady : ctx.Ready := hBound
      simp only [step]
      split
      · rename_i hNone
        exact absurd hNone hReady.embedding
      · split
        · -- the op's id is new
          rename_i e hInsert
          have hFresh :=
            Table.insert_of_fresh
              (Write.pendingOp ctx
                (env.uuid w.nextUuid) w.clock)
              hWorld.fresh_op
          rw [Sqlite.insertPendingOp, hFresh] at hInsert
          cases hInsert
        · exact hReady
  | upsert ctx embedding opId startedAt =>
      have hReady : ctx.Ready := hBound
      simp only [step]
      split
      · rename_i e hUpsert
        exact absurd hReady.collection
          (ensureCollection_of_upsert hUpsert)
      · trivial
  | mark ctx opId startedAt => trivial
  | commit ctx opId startedAt =>
      rcases step_commit
        hProper with ⟨db, hStep⟩
      rw [hStep]
      trivial
  | done result =>
      exact hBound
  | _ => cases hBound

/- A request with an empty name among its entities. -/
def StoreStage.Refused
    (env : Env Vec F) : StoreStage Vec F → Prop
| .entities ctx => ¬ NamesOk env ctx.req.entities
| .resolve _ r => ¬ NamesOk env r.names
| .done (.error _) => True
| _ => False

omit [LT F] [DecidableLT F] [LE F] [DecidableLE F] in
/- What the current name leaves for the other names. -/
private theorem namesOk_of_current
    {r : Resolving Vec}
    (hName : (r.current env).isEmpty = false)
    (hTail : NamesOk env r.names.tail) :
    NamesOk env r.names := by
  intro name hMem
  cases hNames : r.names with
  | nil => simp [hNames] at hMem
  | cons first names =>
      rw [hNames] at hMem
      rcases List.mem_cons.mp hMem with rfl | hMem
      · simpa [Resolving.current, hNames] using hName
      · exact hTail name (by simpa [hNames] using hMem)

theorem StoreStage.step_refused
    {st : StoreStage Vec F}
    (hWorld : w.WellFormed env)
    (hProper : st.Proper env w)
    (hRefused : st.Refused env) :
    (st.step env service w).2.Refused env := by
  cases st with
  | entities ctx =>
      have hNames : ¬ NamesOk env ctx.req.entities := hRefused
      simp only [step]
      split
      · rename_i hNil
        rw [List.isEmpty_iff.mp hNil] at hNames
        exact absurd (by simp [NamesOk]) hNames
      · split
        · trivial
        · exact hNames
  | resolve ctx r =>
      have hNames : ¬ NamesOk env r.names := hRefused
      have hStep :=
        (resolveStep_resolved ctx hWorld
          (hProper.2 ctx r rfl)).2
      simp only [step]
      generalize hNext : (resolveStep env w ctx r).2 = next
      rw [hNext] at hStep
      cases hStep with
      | stop e _ _ => trivial
      | again r' _ hSame _ =>
          exact fun hOk => hNames (hSame ▸ hOk)
      | next r' hName hTail _ _ =>
          exact fun hOk =>
            hNames (namesOk_of_current hName (hTail ▸ hOk))
      | last resolved hName hTail _ =>
          refine absurd (namesOk_of_current hName ?_) hNames
          simp [hTail, NamesOk]
  | done result =>
      exact hRefused
  | _ => cases hRefused

------------------------------------------------------------
-- Ends of a Store
------------------------------------------------------------

/- How a store past its checks ends. -/
theorem StoreStage.finish_past
    {req : StoreRequest} {ns : String}
    {ids : List String} {rows : List MemoryRow}
    {st : StoreStage Vec F}
    (hWorld : w.WellFormed env)
    (hProper : st.Proper env w)
    (hPast : st.Past req ns ids rows w) :
    (st.finish env service w).2.Past req ns ids rows
      (st.finish env service w).1 := by
  have hAll :=
    finish_invariant env service
      (I := fun w st =>
        (w.WellFormed env ∧ st.Proper env w) ∧
          st.Past req ns ids rows w)
      (fun w st h =>
        ⟨step_proper h.1.1 h.1.2,
          step_past h.1.1 h.1.2 h.2⟩)
      ⟨⟨hWorld, hProper⟩, hPast⟩
  exact hAll.2

theorem StoreStage.finish_bound
    {st : StoreStage Vec F}
    (hWorld : w.WellFormed env)
    (hProper : st.Proper env w)
    (hBound : st.Bound env) :
    ∃ response,
      (st.finish env service w).2 = .done (.ok response) := by
  have hAll :=
    finish_invariant env service
      (I := fun w st =>
        (w.WellFormed env ∧ st.Proper env w) ∧
          st.Bound env)
      (fun w st h =>
        ⟨step_proper h.1.1 h.1.2,
          step_bound h.1.1 h.1.2 h.2⟩)
      ⟨⟨hWorld, hProper⟩, hBound⟩
  rcases steps_done env service
      (w := w) le_rfl with ⟨result, hDone⟩
  have hEnd : (st.finish env service w).2.Bound env := hAll.2
  rw [finish, hDone] at hEnd
  cases result with
  | ok response => exact ⟨response, hDone⟩
  | error e => cases hEnd

theorem StoreStage.finish_refused
    {st : StoreStage Vec F}
    (hWorld : w.WellFormed env)
    (hProper : st.Proper env w)
    (hRefused : st.Refused env) :
    ∃ e, (st.finish env service w).2 = .done (.error e) := by
  have hAll :=
    finish_invariant env service
      (I := fun w st =>
        (w.WellFormed env ∧ st.Proper env w) ∧
          st.Refused env)
      (fun w st h =>
        ⟨step_proper h.1.1 h.1.2,
          step_refused h.1.1 h.1.2 h.2⟩)
      ⟨⟨hWorld, hProper⟩, hRefused⟩
  rcases steps_done env service
      (w := w) le_rfl with ⟨result, hDone⟩
  have hEnd : (st.finish env service w).2.Refused env :=
    hAll.2
  rw [finish, hDone] at hEnd
  cases result with
  | ok response => cases hEnd
  | error e => exact ⟨e, hDone⟩

end Core

end Ferrex
