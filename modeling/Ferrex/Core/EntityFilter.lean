import Ferrex.Core.Recall
import Ferrex.Core.Resolution

/-
  The entity filter of a recall and the memories that it
  lets through: stored are the names of the registry, while
  the filter has the names of the request.

  Main declarations:
    * `Filter.admitsEntities`
    * `Resolvers.Listed`
    * `entity_filter_iff`
-/

------------------------------------------------------------
-- Filters on Entities
------------------------------------------------------------

namespace Ferrex

namespace Core

open Store

variable {Vec F : Type}

/- The strings of a payload's field. -/
def keywords (payload : Payload) (field : String) : List String :=
  match payload with
  | .memory id memoryType ns text entities _ =>
      match field with
      | "memory_id" => [id]
      | "memory_type" => [memoryType.asStr]
      | "namespace" => [ns]
      | "searchable_text" => [text]
      | "entities" => entities
      | "point_type" => ["memory"]
      | _ => []
  | .entity id name ns =>
      match field with
      | "entity_id" => [id]
      | "name" => [name]
      | "namespace" => [ns]
      | "point_type" => ["entity"]
      | _ => []

/-
  A keyword condition asks for equality with one of the
  strings; a range of instants is no such condition.
-/
def Condition.admitsKeywords
    (payload : Payload) : Condition → Bool
| .matches field values =>
    values.any (fun v => v ∈ keywords payload field)
| .createdAt _ _ => false

/- Without conditions there, the `should` of a filter holds. -/
def Filter.admitsEntities
    (filter : Filter)
    (payload : Payload) : Bool :=
  filter.should.isEmpty ||
    filter.should.any (fun c => c.admitsKeywords payload)

/- One name lets the memories through that carry it. -/
theorem admitsEntities_iff
    {env : Env Vec F} {ctx : StoreContext Vec F}
    {req : RecallRequest} {name : String}
    (hFilter : req.entities = some [name]) :
    (buildQdrantFilter req).admitsEntities
        (Write.payload env ctx) = true ↔
      ∃ e ∈ ctx.resolvedEntities, e.name = name := by
  simp [Filter.admitsEntities, buildQdrantFilter, hFilter,
    Condition.admitsKeywords, keywords, Write.payload,
    Write.buildMemory]

------------------------------------------------------------
-- Entities of the Registry
------------------------------------------------------------

namespace Resolvers

/- The registry has the entity, under its name. -/
def Listed (db : Sqlite) (e : Store.Entity) : Prop :=
  ∃ x ∈ db.entities, x.id = e.id ∧ x.name = e.name

/- Entities stay, under their names. -/
def Lists (db db' : Sqlite) : Prop :=
  ∀ e, Listed db e → Listed db' e

theorem lists_of_sameRegistry
    {db db' : Sqlite}
    (hSame : SameRegistry db db') :
    Lists db db' := by
  intro e hListed
  unfold Listed
  rwa [hSame.entities]

theorem lists_insertEntity
    {db db' : Sqlite} {entity : Store.Entity}
    (hAliases : entity.aliases = [])
    (h : db.insertEntity entity = .ok db') :
    Lists db db' ∧ Listed db' entity := by
  rcases Sqlite.insertEntity_spec hAliases h with ⟨_, _, rfl⟩
  constructor
  · rintro e ⟨x, hx, hSame⟩
    exact ⟨x, List.mem_append_left _ hx, hSame⟩
  · exact ⟨entity, by simp, rfl, rfl⟩

theorem lists_addEntityAlias
    {db db' : Sqlite} {id name : String} {now : DateTime}
    (h : db.addEntityAlias id name now = .ok db') :
    Lists db db' := by
  rcases Sqlite.addEntityAlias_spec h with ⟨_, rfl⟩
  rintro e ⟨x, hx, hId, hName⟩
  refine ⟨_, Table.mem_update_iff.mpr ⟨x, hx, rfl⟩, ?_, ?_⟩
  · split <;> exact hId
  · split <;> exact hName

theorem listed_of_getEntityByName
    {db : Sqlite} {name : String} {entity : Store.Entity}
    (h : db.getEntityByName name = some entity) :
    Listed db entity := by
  rcases Option.map_eq_some_iff.mp h with ⟨e, he, rfl⟩
  rcases Option.or_eq_some_iff.mp he with
    hName | ⟨_, hAlias⟩
  · exact ⟨e, List.mem_of_find?_eq_some hName, rfl, rfl⟩
  · exact ⟨e, List.mem_of_find?_eq_some hAlias, rfl, rfl⟩

theorem listed_of_mem_getAllEntities
    {db : Sqlite} {entity : Store.Entity}
    (h : entity ∈ db.getAllEntities) :
    Listed db entity := by
  rcases List.mem_map.mp h with ⟨e, he, rfl⟩
  exact ⟨e, he, rfl, rfl⟩

/- The entities that a stage has at hand. -/
def handles : StoreStage Vec F → List Store.Entity
| .resolve ctx r =>
    ctx.resolvedEntities ++ r.allEntities ++ r.resolved ++
      (match r.phase with
        | .point entity _ => [entity]
        | .addAlias entity => [entity]
        | _ => [])
| st => (st.context.map
    StoreContext.resolvedEntities).getD []

/-
  Every entity that a call has at hand, or that a memory has
  been stored with, is one of the registry.
-/
structure Named (s : Resolvers Vec F) : Prop where
  registered : s.world.db.Registered
  calls :
    ∀ i st, s.calls i = some st → ∀ e ∈ handles st,
      Listed s.world.db e
  stored :
    ∀ ctx ∈ s.stored, ∀ e ∈ ctx.resolvedEntities,
      Listed s.world.db e

private theorem mem_handles_nextName
    {ctx : StoreContext Vec F} {r : Resolving Vec}
    {entity e : Store.Entity}
    (h : e ∈ handles (nextName ctx r entity)) :
    e ∈ handles (.resolve ctx r) ∨ e = entity := by
  rcases nextName_resolving ctx r entity with
    ⟨_, hEq⟩ | ⟨allEntities, hAll, _, hEq⟩
  · have hMem : e ∈ r.resolved ++ [entity] := by
      rw [hEq] at h
      unfold afterEntities at h
      split at h <;> exact h
    rcases List.mem_append.mp hMem with hMem | hMem
    · exact Or.inl (by simp [handles, hMem])
    · exact Or.inr (List.mem_singleton.mp hMem)
  · rw [hEq] at h
    simp only [handles, List.append_nil, List.mem_append,
      List.mem_singleton] at h
    rcases h with (hCtx | hMem) | hMem | rfl
    · exact Or.inl (by simp [handles, hCtx])
    · rcases hAll e hMem with hOld | rfl
      · exact Or.inl (by simp [handles, hOld])
      · exact Or.inr rfl
    · exact Or.inl (by simp [handles, hMem])
    · exact Or.inr rfl

/- The keys of the registry hold, whoever writes to it. -/
private theorem registered_move
    {env : Env Vec F} {w w' : World Vec}
    {ctx : StoreContext Vec F} {r : Resolving Vec}
    {st : StoreStage Vec F}
    (hOld : w.db.Registered)
    (hMove : ResolveMove env w ctx r w' st) :
    w'.db.Registered := by
  cases hMove with
  | create _ _ _ _ _ _ hAliases hInsert =>
      exact hOld.insertEntity hAliases hInsert
  | addAlias _ _ _ hAlias => exact hOld.addEntityAlias hAlias
  | _ => exact hOld

/- A resolution has only entities of the registry at hand. -/
private theorem listed_move
    {env : Env Vec F} {w w' : World Vec}
    {ctx : StoreContext Vec F} {r : Resolving Vec}
    {st : StoreStage Vec F}
    (hOld : ∀ e ∈ handles (.resolve ctx r), Listed w.db e)
    (hMove : ResolveMove env w ctx r w' st) :
    Lists w.db w'.db ∧ ∀ e ∈ handles st, Listed w'.db e := by
  have hAll :
      ∀ e ∈ r.allEntities, Listed w.db e :=
    fun e he => hOld e (by simp [handles, he])
  have hNext :
      ∀ {db : Sqlite} {entity : Store.Entity},
        Lists w.db db → Listed db entity →
          ∀ e ∈ handles (nextName ctx r entity),
            Listed db e := by
    intro db entity hLists hEntity e he
    rcases mem_handles_nextName he with he | rfl
    · exact hLists e (hOld e he)
    · exact hEntity
  have hAgain :
      ∀ {db : Sqlite} (phase : ResolvePhase Vec),
        Lists w.db db →
        (∀ entity v, phase = .point entity v →
          Listed db entity) →
        (∀ entity, phase = .addAlias entity →
          Listed db entity) →
          ∀ e ∈ handles
              (.resolve ctx { r with phase := phase }),
            Listed db e := by
    intro db phase hLists hPoint hAlias e he
    simp only [handles, List.mem_append] at he
    rcases he with ((he | he) | he) | he
    · exact hLists e (hOld e (by simp [handles, he]))
    · exact hLists e (hOld e (by simp [handles, he]))
    · exact hLists e (hOld e (by simp [handles, he]))
    · cases phase with
      | point entity v =>
          exact List.mem_singleton.mp he ▸ hPoint _ _ rfl
      | addAlias entity =>
          exact List.mem_singleton.mp he ▸ hAlias _ rfl
      | _ => cases he
  have hSame : Lists w.db w.db := fun _ h => h
  cases hMove with
  | empty _ _ =>
      exact ⟨hSame, fun _ h => by cases h⟩
  | known entity _ _ hFound =>
      exact ⟨hSame,
        hNext hSame (listed_of_getEntityByName hFound)⟩
  | similar entity _ _ _ hMem =>
      refine ⟨hSame, hAgain _ hSame (by simp) ?_⟩
      intro x h
      cases h
      exact hAll entity hMem
  | unknown _ _ _ =>
      exact ⟨hSame, hAgain _ hSame (by simp) (by simp)⟩
  | close entity _ hMem =>
      refine ⟨hSame, hAgain _ hSame (by simp) ?_⟩
      intro x h
      cases h
      exact hAll entity hMem
  | distant v _ =>
      exact ⟨hSame, hAgain _ hSame (by simp) (by simp)⟩
  | create v db entity _ _ _ hAliases hInsert =>
      rcases lists_insertEntity hAliases hInsert with
        ⟨hLists, hEntity⟩
      refine ⟨hLists, hAgain _ hLists ?_ (by simp)⟩
      intro x v h
      cases h
      exact hEntity
  | point entity v q hPhase =>
      have hEntity : Listed w.db entity :=
        hOld entity (by simp [handles, hPhase])
      exact ⟨hSame, hNext hSame hEntity⟩
  | addAlias entity db hPhase hAlias =>
      have hLists := lists_addEntityAlias hAlias
      have hEntity : Listed w.db entity :=
        hOld entity (by simp [handles, hPhase])
      exact ⟨hLists, hNext hLists (hLists _ hEntity)⟩
  | refused _ _ _ _ _ _ _ =>
      exact ⟨hSame, fun _ h => by cases h⟩
  | orphan _ _ _ _ =>
      exact ⟨hSame, fun _ h => by cases h⟩
  | unreachable _ _ _ =>
      exact ⟨hSame, fun _ h => by cases h⟩

section Runs

variable [LE F] [LT F] [DecidableLE F] [DecidableLT F]
variable {env : Env Vec F} {service : MemoryService F}
variable {s t : Resolvers Vec F} {e : Event Vec F}

/- Other stages pass on what they have, or a snapshot. -/
private theorem mem_handles_step
    {w : World Vec} {st : StoreStage Vec F}
    {x : Store.Entity}
    (hStage : ∀ ctx r, st ≠ .resolve ctx r)
    (h : x ∈ handles (st.step env service w).2) :
    x ∈ handles st ∨ x ∈ w.db.getAllEntities := by
  have hAfter :
      ∀ ctx : StoreContext Vec F,
        x ∈ handles (afterEntities ctx) →
          x ∈ ctx.resolvedEntities := by
    intro ctx hMem
    unfold afterEntities at hMem
    split at hMem <;> exact hMem
  cases st with
  | ensure req =>
      simp only [StoreStage.step] at h
      split at h
      · cases h
      · split at h
        · cases h
        · rename_i ctx hValid
          rcases validated_eq_ok hValid with ⟨p, rfl⟩
          cases h
  | embed ctx =>
      simp only [StoreStage.step] at h
      split at h <;> exact Or.inl h
  | dedup ctx =>
      simp only [StoreStage.step] at h
      split at h
      · cases h
      · exact Or.inl h
  | conflict ctx =>
      simp only [StoreStage.step] at h
      split at h
      · cases h
      · rename_i ctx' hRun
        rcases Conflict.run_eq_ok hRun with ⟨ids, rfl⟩
        exact Or.inl h
  | entities ctx =>
      simp only [StoreStage.step] at h
      split at h
      · exact Or.inl (hAfter ctx h)
      · split at h
        · cases h
        · simp only [handles, List.append_nil,
            List.mem_append] at h
          rcases h with h | h
          · exact Or.inl h
          · exact Or.inr h
  | resolve ctx r => exact absurd rfl (hStage ctx r)
  | target ctx targetId =>
      simp only [StoreStage.step] at h
      split at h
      · cases h
      · exact Or.inl h
  | insertOp ctx =>
      simp only [StoreStage.step] at h
      split at h
      · cases h
      · split at h
        · cases h
        · exact Or.inl h
  | upsert ctx v opId startedAt =>
      simp only [StoreStage.step] at h
      split at h
      · cases h
      · exact Or.inl h
  | mark ctx opId startedAt => exact Or.inl h
  | commit ctx opId startedAt =>
      simp only [StoreStage.step] at h
      split at h <;> cases h
  | done result => cases h

theorem Named.next
    (hs : Named s)
    (hNext : s.next env service e = some t) :
    Named t := by
  cases next_eq_some hNext with
  | tick d => exact ⟨hs.registered, hs.calls, hs.stored⟩
  | start i ctx _ hResolved =>
      refine ⟨hs.registered, fun j st hCall x hx => ?_,
        hs.stored⟩
      rcases call_cases hCall with ⟨_, rfl⟩ | ⟨_, hOld⟩
      · have hNone : x ∈ ctx.resolvedEntities := hx
        rw [hResolved] at hNone
        cases hNone
      · exact hs.calls j st hOld x hx
  | fail i err _ _ =>
      refine ⟨hs.registered, fun j st hCall x hx => ?_,
        hs.stored⟩
      rcases call_cases hCall with ⟨_, rfl⟩ | ⟨_, hOld⟩
      · cases hx
      · exact hs.calls j st hOld x hx
  | step i a st hCall =>
      have hHandles := hs.calls i st hCall
      have hBoth :
          (st.step (env.answering a) service
              s.world).1.db.Registered ∧
            Lists s.world.db
              (st.step (env.answering a) service
                s.world).1.db ∧
            ∀ x ∈ handles
                (st.step (env.answering a) service
                  s.world).2,
              Listed (st.step (env.answering a) service
                s.world).1.db x := by
        by_cases hResolve : ∃ ctx r, st = .resolve ctx r
        · rcases hResolve with ⟨ctx, r, rfl⟩
          have hMove :=
            resolveStep_move (env.answering a) s.world ctx r
          exact ⟨registered_move hs.registered hMove,
            listed_move hHandles hMove⟩
        · have hStage :
              ∀ ctx r, st ≠ .resolve ctx r :=
            fun ctx r h => hResolve ⟨ctx, r, h⟩
          have hSame :=
            StoreStage.step_registry (env.answering a)
              service s.world hStage
          have hLists := lists_of_sameRegistry hSame
          refine ⟨hs.registered.congr hSame.entities
            hSame.aliases, hLists, fun x hx => hLists x ?_⟩
          rcases mem_handles_step hStage hx with hOld | hAll
          · exact hHandles x hOld
          · exact listed_of_mem_getAllEntities hAll
      rcases hBoth with ⟨hRegistered, hLists, hNew⟩
      refine ⟨hRegistered, ?_, ?_⟩
      · intro j st' hCall' x hx
        rcases call_cases hCall' with ⟨_, rfl⟩ | ⟨_, hOld⟩
        · exact hNew x hx
        · exact hLists x (hs.calls j st' hOld x hx)
      · intro ctx hCtx x hx
        rcases List.mem_append.mp hCtx with hOld | hStores
        · exact hLists x (hs.stored ctx hOld x hx)
        · -- the context of a call that commits
          unfold StoreStage.stores at hStores
          split at hStores
          · rw [List.mem_singleton.mp hStores] at hx
            exact hLists x (hHandles x hx)
          · cases hStores

theorem Named.of_reachable
    (hReach : (machine env service).Reachable s) :
    Named s := by
  rcases hReach with ⟨s₀, es, hStart, hRun⟩
  have hStart : Start env s₀ := hStart
  exact hRun.invariant
    (fun _ _ _ hs hStep => hs.next hStep)
    ⟨hStart.registered, by simp [hStart.calls],
      by simp [hStart.stored]⟩

/-
  A filter with one name lets a stored memory through exactly
  if the name is, as it is spelled, the one that the registry
  has for an entity of the memory.
-/
theorem entity_filter_iff
    {ctx : StoreContext Vec F} {req : RecallRequest}
    {name : String}
    (hReach : (machine env service).Reachable s)
    (hStored : ctx ∈ s.stored)
    (hFilter : req.entities = some [name]) :
    (buildQdrantFilter req).admitsEntities
        (Write.payload env ctx) = true ↔
      ∃ x ∈ s.world.db.entities, x.name = name ∧
        x.id ∈ ctx.resolvedEntities.map Store.Entity.id := by
  have hs := Named.of_reachable hReach
  rw [admitsEntities_iff hFilter]
  constructor
  · rintro ⟨e, he, hName⟩
    rcases hs.stored ctx hStored e he with
      ⟨x, hx, hId, hSame⟩
    exact ⟨x, hx, hSame.trans hName,
      List.mem_map.mpr ⟨e, he, hId.symm⟩⟩
  · rintro ⟨x, hx, hName, hId⟩
    rcases List.mem_map.mp hId with ⟨e, he, hEq⟩
    rcases hs.stored ctx hStored e he with
      ⟨y, hy, hIdY, hNameY⟩
    have hSame : x = y :=
      hs.registered.ids.eq_of_key_eq hx hy
        (hEq.symm.trans hIdY.symm)
    exact ⟨e, he, hNameY.symm.trans (hSame ▸ hName)⟩

end Runs

------------------------------------------------------------
-- One Memory and Two Spellings
------------------------------------------------------------

private def naming (name : String) : RecallRequest where
  query := "a runtime"
  types := none
  entities := some [name]
  «namespace» := none
  limit := none
  includeStale := none
  includeInvalidated := none
  timeRange := none
  asOf := none
  validateIds := none
  explain := false

/- A memory about "Tokio", and a test of what is stored. -/
private theorem tokio_stored
    (test : Resolvers String Rat → Bool)
    (h :
      ((.start 0 (plainContext ["Tokio"]) ::
        List.replicate 9 (.step 0 Answers.plain)).foldlM
          (next Env.plain MemoryService.plain)
            (onEmpty emptyWorld)).any test = true) :
    ∃ s : Resolvers String Rat,
      (machine Env.plain MemoryService.plain).Reachable s ∧
        test s = true := by
  rcases run_of_any Env.plain MemoryService.plain
    (onEmpty emptyWorld) _ test h with ⟨s, hRun, hTest⟩
  exact ⟨s, ⟨_, _, start_onEmpty Env.plain emptyWorld, hRun⟩,
    hTest⟩

/- The name that the registry has finds the memory. -/
theorem entity_filter_canonical :
    ∃ (s : Resolvers String Rat)
        (ctx : StoreContext String Rat),
      ctx ∈ s.stored ∧
        (buildQdrantFilter (naming "tokio")).admitsEntities
          (Write.payload Env.plain ctx) = true := by
  rcases tokio_stored
    (fun s => s.stored.any (fun ctx =>
      s.world.db.entities.any (fun x =>
        x.name == "tokio" &&
          decide (x.id ∈
            ctx.resolvedEntities.map Store.Entity.id))))
    (by decide +kernel) with ⟨s, hReach, hTest⟩
  rcases List.any_eq_true.mp hTest with ⟨ctx, hStored, hAny⟩
  rcases List.any_eq_true.mp hAny with ⟨x, hx, hBoth⟩
  rw [Bool.and_eq_true, beq_iff_eq, decide_eq_true_eq]
    at hBoth
  exact ⟨s, ctx, hStored,
    (entity_filter_iff hReach hStored rfl).mpr
      ⟨x, hx, hBoth⟩⟩

/- The name that the memory was stored with does not. -/
theorem entity_filter_misses :
    ¬ ∀ (s : Resolvers String Rat)
        (ctx : StoreContext String Rat)
        (req : RecallRequest) (name : String)
        (e : Store.Entity) (p : Resolution),
        (machine Env.plain MemoryService.plain).Reachable s →
        ctx ∈ s.stored →
        (name, e) ∈
          ctx.req.entities.zip ctx.resolvedEntities →
        p ∈ s.resolutions →
        p.entity.id = e.id →
        req.entities = some [p.name] →
          (buildQdrantFilter req).admitsEntities
            (Write.payload Env.plain ctx) = true := by
  intro hClaim
  rcases tokio_stored
    (fun s => s.stored.any (fun ctx =>
      (ctx.req.entities.zip ctx.resolvedEntities).any
        (fun x => s.resolutions.any (fun p =>
          p.name == "Tokio" && p.entity.id == x.2.id)) &&
        !(buildQdrantFilter (naming "Tokio")).admitsEntities
          (Write.payload Env.plain ctx)))
    (by decide +kernel) with ⟨s, hReach, hTest⟩
  rcases List.any_eq_true.mp hTest with ⟨ctx, hStored, hAll⟩
  rw [Bool.and_eq_true, Bool.not_eq_true'] at hAll
  rcases hAll with ⟨hAny, hMissed⟩
  rcases List.any_eq_true.mp hAny with ⟨⟨name, e⟩, hZip, hSome⟩
  rcases List.any_eq_true.mp hSome with ⟨p, hp, hBoth⟩
  rw [Bool.and_eq_true, beq_iff_eq, beq_iff_eq] at hBoth
  have hFound :=
    hClaim s ctx (naming "Tokio") name e p hReach hStored hZip
      hp hBoth.2 (by rw [hBoth.1]; rfl)
  exact absurd (hMissed.symm.trans hFound) (by simp)

end Resolvers

end Core

end Ferrex
