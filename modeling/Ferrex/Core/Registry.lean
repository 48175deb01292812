import Ferrex.Core.Sequential

/-
  Who owns a name in the registry of entities, and what one
  step of a resolution does to it.

  Main declarations:
    * `Sqlite.Owns`
    * `Sqlite.Registered`
    * `ResolveMove` and `resolveStep_move`
-/

------------------------------------------------------------
-- Owners of Names
------------------------------------------------------------

namespace Ferrex

namespace Store

namespace Sqlite

variable {db db' : Sqlite} {name : String}

/- A name belongs to an entity, as its name or an alias. -/
def Owns (db : Sqlite) (id name : String) : Prop :=
  (∃ e ∈ db.entities, e.id = id ∧ e.name = name) ∨
    (id, name) ∈ db.entityAliases

/-
  What the keys of the two tables guarantee: ids of entities
  are unique, and aliases belong to entities.
-/
structure Registered (db : Sqlite) : Prop where
  ids : Table.KeyUnique Entity.id db.entities
  aliases :
    ∀ a ∈ db.entityAliases,
      Table.HasKey Entity.id a.1 db.entities

theorem Registered.congr
    (hRegistered : db.Registered)
    (hEntities : db'.entities = db.entities)
    (hAliases : db'.entityAliases = db.entityAliases) :
    db'.Registered := by
  refine ⟨hEntities ▸ hRegistered.ids, ?_⟩
  rw [hEntities, hAliases]
  exact hRegistered.aliases

/- No name is owned by two entities. -/
def SingleOwner (db : Sqlite) : Prop :=
  ∀ i j name, db.Owns i name → db.Owns j name → i = j

/- The entities that a name belongs to. -/
def owners (db : Sqlite) (name : String) : List String :=
  (db.entities.filter (fun e => e.name = name)).map
      Entity.id ++
    (db.entityAliases.filter (fun a => a.2 = name)).map
      Prod.fst

theorem mem_owners_iff
    {id : String} :
    id ∈ db.owners name ↔ db.Owns id name := by
  simp only [owners, Owns, List.mem_append, List.mem_map,
    List.mem_filter, decide_eq_true_eq]
  constructor
  · rintro (⟨e, ⟨he, hName⟩, hId⟩ | ⟨a, ⟨ha, rfl⟩, rfl⟩)
    · exact Or.inl ⟨e, he, hId, hName⟩
    · exact Or.inr ha
  · rintro (⟨e, he, hId, hName⟩ | hAlias)
    · exact Or.inl ⟨e, ⟨he, hName⟩, hId⟩
    · exact Or.inr ⟨_, ⟨hAlias, rfl⟩, rfl⟩

theorem owns_of_getEntityByName
    {entity : Entity}
    (h : db.getEntityByName name = some entity) :
    db.Owns entity.id name := by
  rcases Option.map_eq_some_iff.mp h with ⟨e, he, rfl⟩
  rcases Option.or_eq_some_iff.mp he with
    hName | ⟨_, hAlias⟩
  · exact Or.inl ⟨e, List.mem_of_find?_eq_some hName, rfl,
      by simpa using List.find?_some hName⟩
  · exact Or.inr (by simpa using List.find?_some hAlias)

/- The lookup finds every name that is owned. -/
theorem not_owns_of_getEntityByName
    (hRegistered : db.Registered)
    (h : db.getEntityByName name = none)
    (id : String) :
    ¬ db.Owns id name := by
  simp only [getEntityByName, Option.map_eq_none_iff,
    Option.or_eq_none_iff, List.find?_eq_none,
    decide_eq_true_eq] at h
  rintro (⟨e, he, _, hName⟩ | hAlias)
  · exact h.1 e he hName
  · rcases hRegistered.aliases _ hAlias with ⟨e, he, hId⟩
    exact h.2 e he (by rw [hId]; exact hAlias)

/- A new entity comes without aliases. -/
theorem insertEntity_spec
    {entity : Entity}
    (hAliases : entity.aliases = [])
    (h : db.insertEntity entity = .ok db') :
    ¬ Table.HasKey Entity.name entity.name db.entities ∧
      ¬ Table.HasKey Entity.id entity.id db.entities ∧
        db' = { db with
          entities := db.entities ++ [entity] } := by
  have hNone : entity.aliases.dedup = [] := by
    rw [hAliases]
    rfl
  have hSame : { entity with aliases := [] } = entity := by
    rw [← hAliases]
  unfold insertEntity at h
  rw [hSame, hNone, List.map_nil, List.append_nil] at h
  split at h
  · cases h
  · rename_i hName
    cases hInsert :
        Table.insert Entity.id entity db.entities with
    | none => simp [hInsert] at h
    | some rows =>
        rcases Table.insert_eq_some hInsert with
          ⟨hFresh, rfl⟩
        simp only [hInsert, Except.ok.injEq] at h
        exact ⟨hName, hFresh, h.symm⟩

theorem owns_insertEntity_iff
    {entity : Entity} {id : String}
    (hAliases : entity.aliases = [])
    (h : db.insertEntity entity = .ok db') :
    db'.Owns id name ↔
      db.Owns id name ∨
        (id = entity.id ∧ name = entity.name) := by
  rcases insertEntity_spec hAliases h with ⟨_, _, rfl⟩
  simp only [Owns, List.mem_append, List.mem_singleton]
  constructor
  · rintro (⟨e, he | rfl, rfl, rfl⟩ | hAlias)
    · exact Or.inl (Or.inl ⟨e, he, rfl, rfl⟩)
    · exact Or.inr ⟨rfl, rfl⟩
    · exact Or.inl (Or.inr hAlias)
  · rintro ((⟨e, he, hId, hName⟩ | hAlias) | ⟨rfl, rfl⟩)
    · exact Or.inl ⟨e, Or.inl he, hId, hName⟩
    · exact Or.inr hAlias
    · exact Or.inl ⟨_, Or.inr rfl, rfl, rfl⟩

theorem Registered.insertEntity
    {entity : Entity}
    (hRegistered : db.Registered)
    (hAliases : entity.aliases = [])
    (h : db.insertEntity entity = .ok db') :
    db'.Registered := by
  rcases insertEntity_spec hAliases h with ⟨_, hFresh, rfl⟩
  refine ⟨hRegistered.ids.append hFresh, ?_⟩
  intro a ha
  rcases hRegistered.aliases a ha with ⟨e, he, hId⟩
  exact ⟨e, List.mem_append_left _ he, hId⟩

/- An alias joins the aliases of an entity that exists. -/
theorem addEntityAlias_spec
    {id : String} {now : DateTime}
    (h : db.addEntityAlias id name now = .ok db') :
    Table.HasKey Entity.id id db.entities ∧
      db' = { db with
        entities :=
          Table.update (fun e => e.id = id)
            (fun e => { e with updatedAt := now })
            db.entities
        entityAliases :=
          if (id, name) ∈ db.entityAliases then
            db.entityAliases
          else
            db.entityAliases ++ [(id, name)] } := by
  unfold addEntityAlias at h
  split at h
  · rename_i hKey
    exact ⟨hKey, (Except.ok.inj h).symm⟩
  · cases h

private theorem mem_aliases_iff
    {id : String} {a : String × String} :
    a ∈ (if (id, name) ∈ db.entityAliases then
          db.entityAliases
        else
          db.entityAliases ++ [(id, name)]) ↔
      a ∈ db.entityAliases ∨ a = (id, name) := by
  split
  · rename_i hMem
    constructor
    · exact Or.inl
    · rintro (h | rfl)
      · exact h
      · exact hMem
  · simp

theorem owns_addEntityAlias_iff
    {id i s : String} {now : DateTime}
    (h : db.addEntityAlias id name now = .ok db') :
    db'.Owns i s ↔
      db.Owns i s ∨ (i = id ∧ s = name) := by
  rcases addEntityAlias_spec h with ⟨_, rfl⟩
  have hRow :
      ∀ e : Entity,
        (if e.id = id then { e with updatedAt := now }
          else e).id = e.id ∧
        (if e.id = id then { e with updatedAt := now }
          else e).name = e.name := by
    intro e
    split <;> exact ⟨rfl, rfl⟩
  have hEntities :
      (∃ e ∈ Table.update (fun e => e.id = id)
          (fun e => { e with updatedAt := now }) db.entities,
        e.id = i ∧ e.name = s) ↔
      ∃ e ∈ db.entities, e.id = i ∧ e.name = s := by
    simp [hRow]
  simp only [Owns, hEntities, mem_aliases_iff,
    Prod.mk.injEq, or_assoc]

theorem Registered.addEntityAlias
    {id : String} {now : DateTime}
    (hRegistered : db.Registered)
    (h : db.addEntityAlias id name now = .ok db') :
    db'.Registered := by
  rcases addEntityAlias_spec h with ⟨hKey, rfl⟩
  refine ⟨hRegistered.ids.update (fun _ => rfl), ?_⟩
  intro a ha
  have hKeys :
      Table.HasKey Entity.id a.1 db.entities := by
    rcases mem_aliases_iff.mp ha with ha | rfl
    · exact hRegistered.aliases a ha
    · exact hKey
  exact (Table.hasKey_update_iff
    (p := fun e : Entity => e.id = id)
    (f := fun e => { e with updatedAt := now })
    (fun _ => rfl)).mpr hKeys

end Sqlite

end Store

------------------------------------------------------------
-- Steps of a Resolution
------------------------------------------------------------

namespace Core

open Store

variable {Vec F : Type}

/- Past the current name there is another one, or none. -/
theorem nextName_resolving
    (ctx : StoreContext Vec F)
    (r : Resolving Vec)
    (entity : Store.Entity) :
    (r.names.tail = [] ∧
      nextName ctx r entity =
        afterEntities
          { ctx with
            resolvedEntities := r.resolved ++ [entity] }) ∨
    ∃ allEntities,
      (∀ e ∈ allEntities, e ∈ r.allEntities ∨ e = entity) ∧
        r.names.tail ≠ [] ∧
          nextName ctx r entity =
            .resolve ctx
              ⟨r.names.tail, allEntities,
                r.resolved ++ [entity], .exact⟩ := by
  unfold nextName
  cases hTail : r.names.tail with
  | nil => exact Or.inl ⟨rfl, rfl⟩
  | cons name names =>
      refine Or.inr ⟨_, fun e he => ?_, by simp, rfl⟩
      split at he
      · exact Or.inl he
      · simpa using he

section Moves

/-
  What one call of a resolution does, with the world and the
  stage that it leads to.
-/
inductive ResolveMove
    (env : Env Vec F)
    (w : World Vec)
    (ctx : StoreContext Vec F)
    (r : Resolving Vec) :
    World Vec → StoreStage Vec F → Prop
| empty
    (hPhase : r.phase = .exact)
    (hName : (r.current env).isEmpty = true) :
    ResolveMove env w ctx r w
      (.done (.error (.validation "empty entity name")))
| known (entity : Store.Entity)
    (hPhase : r.phase = .exact)
    (hName : (r.current env).isEmpty = false)
    (hFound :
      w.db.getEntityByName (r.current env) = some entity) :
    ResolveMove env w ctx r w (nextName ctx r entity)
| similar (entity : Store.Entity)
    (hPhase : r.phase = .exact)
    (hName : (r.current env).isEmpty = false)
    (hUnknown :
      w.db.getEntityByName (r.current env) = none)
    (hMem : entity ∈ r.allEntities) :
    ResolveMove env w ctx r w
      (.resolve ctx { r with phase := .addAlias entity })
| unknown
    (hPhase : r.phase = .exact)
    (hName : (r.current env).isEmpty = false)
    (hUnknown :
      w.db.getEntityByName (r.current env) = none) :
    ResolveMove env w ctx r w
      (.resolve ctx { r with phase := .search })
| close (entity : Store.Entity)
    (hPhase : r.phase = .search)
    (hMem : entity ∈ r.allEntities) :
    ResolveMove env w ctx r w
      (.resolve ctx { r with phase := .addAlias entity })
| distant (embedding : Vec)
    (hPhase : r.phase = .search) :
    ResolveMove env w ctx r w
      (.resolve ctx { r with phase := .create embedding })
| create (embedding : Vec) (db : Sqlite)
    (entity : Store.Entity)
    (hPhase : r.phase = .create embedding)
    (hId : entity.id = env.uuid w.nextUuid)
    (hName : entity.name = r.current env)
    (hAliases : entity.aliases = [])
    (hInsert : w.db.insertEntity entity = .ok db) :
    ResolveMove env w ctx r
      { w with db := db, nextUuid := w.nextUuid + 1 }
      (.resolve ctx
        { r with phase := .point entity embedding })
| point (entity : Store.Entity) (embedding : Vec)
    (qdrant : Qdrant Vec)
    (hPhase : r.phase = .point entity embedding) :
    ResolveMove env w ctx r { w with qdrant := qdrant }
      (nextName ctx r entity)
| addAlias (entity : Store.Entity) (db : Sqlite)
    (hPhase : r.phase = .addAlias entity)
    (hAlias :
      w.db.addEntityAlias entity.id (r.current env) w.clock =
        .ok db) :
    ResolveMove env w ctx r { w with db := db }
      (nextName ctx r entity)
| refused (embedding : Vec) (entity : Store.Entity)
    (e : StoreError)
    (hPhase : r.phase = .create embedding)
    (hId : entity.id = env.uuid w.nextUuid)
    (hName : entity.name = r.current env)
    (hInsert : w.db.insertEntity entity = .error e) :
    ResolveMove env w ctx r
      { w with nextUuid := w.nextUuid + 1 }
      (.done (.error (.store e)))
| orphan (entity : Store.Entity) (e : StoreError)
    (hPhase : r.phase = .addAlias entity)
    (hAlias :
      w.db.addEntityAlias entity.id (r.current env) w.clock =
        .error e) :
    ResolveMove env w ctx r w (.done (.error (.store e)))
| unreachable (e : StoreError)
    (hPhase :
      r.phase = .search ∨
        ∃ entity embedding,
          r.phase = .point entity embedding)
    (hCause : ensureCollection ctx.namespace ≠ .ok ()) :
    ResolveMove env w ctx r w (.done (.error (.store e)))

variable [LT F] [DecidableLT F]

theorem resolveStep_move
    (env : Env Vec F)
    (w : World Vec)
    (ctx : StoreContext Vec F)
    (r : Resolving Vec) :
    ResolveMove env w ctx r (resolveStep env w ctx r).1
      (resolveStep env w ctx r).2 := by
  have hCurrent :
      Entity.normalize env (r.names.head?.getD "") =
        r.current env :=
    rfl
  unfold resolveStep
  rw [hCurrent]
  cases hPhase : r.phase with
  | exact =>
      dsimp only
      split
      · rename_i hEmpty
        exact .empty hPhase hEmpty
      · rename_i hNonempty
        have hName := Bool.eq_false_of_not_eq_true hNonempty
        split
        · rename_i entity hFound
          exact .known entity hPhase hName hFound
        · rename_i hUnknown
          split
          · rename_i best hBest
            exact .similar best.1 hPhase hName hUnknown
              (Entity.mem_of_bestFuzzyMatch hBest)
          · exact .unknown hPhase hName hUnknown
  | search =>
      dsimp only
      split
      · rename_i e hSearch
        exact .unreachable e (Or.inl hPhase)
          (ensureCollection_of_searchDense hSearch)
      · split
        · rename_i entity hMatch
          refine .close entity hPhase ?_
          unfold embeddingMatch at hMatch
          split at hMatch
          · cases hMatch
          · split at hMatch
            · exact
                Entity.mem_of_findEntityByPointId hMatch
            · cases hMatch
        · exact .distant _ hPhase
  | create embedding =>
      dsimp only
      generalize hEntity :
        (⟨env.uuid w.nextUuid, r.current env, [], none,
          w.clock, w.clock⟩ : Store.Entity) = entity
      have hId : entity.id = env.uuid w.nextUuid := by
        rw [← hEntity]
      have hName : entity.name = r.current env := by
        rw [← hEntity]
      have hAliases : entity.aliases = [] := by
        rw [← hEntity]
      split
      · rename_i e hInsert
        exact .refused embedding entity e hPhase hId hName
          hInsert
      · rename_i db hInsert
        exact .create embedding db entity hPhase hId hName
          hAliases hInsert
  | point entity embedding =>
      dsimp only
      split
      · rename_i e hUpsert
        exact .unreachable e (Or.inr ⟨_, _, hPhase⟩)
          (ensureCollection_of_upsert hUpsert)
      · exact .point entity embedding _ hPhase
  | addAlias entity =>
      dsimp only
      split
      · rename_i e hAlias
        exact .orphan entity e hPhase hAlias
      · rename_i db hAlias
        exact .addAlias entity db hPhase hAlias

end Moves

------------------------------------------------------------
-- Stages That Leave the Registry Alone
------------------------------------------------------------

/- The entities and the aliases are the same. -/
structure SameRegistry (db db' : Sqlite) : Prop where
  entities : db'.entities = db.entities
  aliases : db'.entityAliases = db.entityAliases

theorem SameRegistry.refl (db : Sqlite) :
    SameRegistry db db :=
  ⟨rfl, rfl⟩

/- No call gives UUIDs back. -/
theorem StoreStage.Effect.nextUuid_le
    {env : Env Vec F} {service : MemoryService F}
    {w w' : World Vec} {st st' : StoreStage Vec F}
    (hEffect : StoreStage.Effect env service w st w' st') :
    w.nextUuid ≤ w'.nextUuid := by
  cases hEffect with
  | start hQuiet => exact hQuiet.nextUuid
  | prepare _ _ _ _ hQuiet => exact hQuiet.nextUuid
  | createEntity _ _ _ _ hQuiet => exact hQuiet.nextUuid
  | entityPoint _ _ _ _ _ hQuiet => exact hQuiet.nextUuid
  | stop hQuiet => exact hQuiet.nextUuid
  | log => exact Nat.le_succ _
  | _ => exact le_rfl

variable [LE F] [LT F] [DecidableLE F] [DecidableLT F]

/- Only the resolution of names writes to the registry. -/
theorem StoreStage.step_registry
    (env : Env Vec F)
    (service : MemoryService F)
    (w : World Vec)
    {st : StoreStage Vec F}
    (hStage : ∀ ctx r, st ≠ .resolve ctx r) :
    SameRegistry w.db (st.step env service w).1.db := by
  cases st with
  | ensure req =>
      simp only [step]
      split
      · exact .refl _
      · split <;> exact .refl _
  | embed ctx =>
      simp only [step]
      split <;> exact .refl _
  | dedup ctx =>
      simp only [step]
      split <;> exact .refl _
  | conflict ctx =>
      simp only [step]
      split <;> exact .refl _
  | entities ctx =>
      simp only [step]
      split
      · exact .refl _
      · split <;> exact .refl _
  | resolve ctx r => exact absurd rfl (hStage ctx r)
  | target ctx targetId =>
      simp only [step]
      split <;> exact .refl _
  | insertOp ctx =>
      simp only [step]
      split
      · exact .refl _
      · split
        · exact .refl _
        · rename_i db hInsert
          rcases Sqlite.insertPendingOp_eq_ok hInsert with
            ⟨_, rfl⟩
          exact ⟨rfl, rfl⟩
  | upsert ctx embedding opId startedAt =>
      simp only [step]
      split <;> exact .refl _
  | mark ctx opId startedAt => exact ⟨rfl, rfl⟩
  | commit ctx opId startedAt =>
      simp only [step]
      split
      · exact .refl _
      · rename_i db hCommit
        rcases Sqlite.commitMemoryWrite_eq_ok hCommit with
          ⟨_, links, rfl⟩
        exact ⟨rfl, rfl⟩
  | done result => exact .refl _

/- A resolution begins with a snapshot of the registry. -/
theorem StoreStage.step_eq_resolve
    {env : Env Vec F} {service : MemoryService F}
    {w : World Vec} {st : StoreStage Vec F}
    {ctx : StoreContext Vec F} {r : Resolving Vec}
    (hStage : ∀ ctx r, st ≠ .resolve ctx r)
    (h : (st.step env service w).2 = .resolve ctx r) :
    st = .entities ctx ∧ ctx.req.entities ≠ [] ∧
      r = ⟨ctx.req.entities, w.db.getAllEntities, [],
        .exact⟩ := by
  have hAfter :
      ∀ ctx' : StoreContext Vec F,
        afterEntities ctx' ≠ .resolve ctx r := by
    intro ctx'
    unfold afterEntities
    split <;> simp
  cases st with
  | entities ctx' =>
      simp only [step] at h
      split at h
      · exact absurd h (hAfter ctx')
      · rename_i hNames
        split at h
        · cases h
        · cases h
          exact ⟨rfl,
            fun hNil => hNames (List.isEmpty_iff.mpr hNil),
            rfl⟩
  | resolve ctx' r' => exact absurd rfl (hStage ctx' r')
  | ensure req =>
      simp only [step] at h
      split at h
      · cases h
      · split at h <;> cases h
  | insertOp ctx' =>
      simp only [step] at h
      split at h
      · cases h
      · split at h <;> cases h
  | mark ctx' opId startedAt => cases h
  | done result => cases h
  | _ =>
      simp only [step] at h
      split at h <;> cases h

end Core

end Ferrex
