import Ferrex.Core.Agreement
import Ferrex.Core.Registry

/-
  What a rejected store leaves behind: nothing, as long as
  each entity name that it gets to is known.

  Main declarations:
    * `Unchanged`
    * `KnownNames`
    * `store_rejected_iff`
-/

------------------------------------------------------------
-- Rejections
------------------------------------------------------------

namespace Ferrex

namespace Core

open Store

variable {Vec F : Type}
variable {env : Env Vec F} {service : MemoryService F}
variable {w w₀ : World Vec} {req : StoreRequest}

/-
  The call has returned an error of its own: a validation
  error, or the memories that are in the way.
-/
def StoreStage.rejected : StoreStage Vec F → Bool
| .done (.error e) => !e.external
| _ => false

/- No memory, entity, alias, journal entry or point differs. -/
structure Unchanged (w w' : World Vec) : Prop where
  memories : w'.db.memories = w.db.memories
  entities : w'.db.entities = w.db.entities
  aliases : w'.db.entityAliases = w.db.entityAliases
  journal : w'.db.pendingOps = w.db.pendingOps
  points : ∀ ns, w'.qdrant.points ns = w.qdrant.points ns

/-
  Each name is known, up to the first one that normalizes to
  nothing.
-/
def KnownNames
    (env : Env Vec F)
    (db : Sqlite)
    (names : List String) : Prop :=
  ∀ name ∈ names.takeWhile
      (fun n => !(Entity.normalize env n).isEmpty),
    (db.getEntityByName (Entity.normalize env name)).isSome

/- Decided by looking up each name. -/
instance
    (env : Env Vec F)
    (db : Sqlite)
    (names : List String) :
    Decidable (KnownNames env db names) := by
  unfold KnownNames
  infer_instance

/- Past a name that is not empty, the other names count. -/
theorem knownNames_iff
    {db : Sqlite} {r : Resolving Vec}
    (hNames : r.names ≠ [])
    (hName : (r.current env).isEmpty = false) :
    KnownNames env db r.names ↔
      (db.getEntityByName (r.current env)).isSome ∧
        KnownNames env db r.names.tail := by
  cases hEq : r.names with
  | nil => exact absurd hEq hNames
  | cons name names =>
      have hCurrent :
          r.current env = Entity.normalize env name := by
        simp [Resolving.current, hEq]
      rw [hCurrent] at hName ⊢
      unfold KnownNames
      rw [List.takeWhile_cons_of_pos (by simp [hName])]
      simp

------------------------------------------------------------
-- Names That Are Known
------------------------------------------------------------

section Rejected

variable [LE F] [LT F] [DecidableLE F] [DecidableLT F]

/- Both stores are the same. -/
def Untouched (w₀ w : World Vec) : Prop :=
  w.db = w₀.db ∧ w.qdrant = w₀.qdrant

/-
  A store past its checks, whose names are all known: until
  it writes its memory it has written nothing.
-/
def StoreStage.Reads
    (env : Env Vec F)
    (w₀ w : World Vec) : StoreStage Vec F → Prop
| .entities ctx =>
    Untouched w₀ w ∧
      KnownNames env w₀.db ctx.req.entities
| .resolve _ r =>
    Untouched w₀ w ∧ r.phase = .exact ∧ r.names ≠ [] ∧
      KnownNames env w₀.db r.names
| .target _ _ => Untouched w₀ w
| .insertOp _ => Untouched w₀ w
| .done (.error e) => e.external = false → Untouched w₀ w
| .done (.ok _) => True
| .upsert .. => True
| .mark .. => True
| .commit .. => True
| _ => False

omit [LE F] [LT F] [DecidableLE F] [DecidableLT F] in
/- Entities are through, and nothing was written. -/
private theorem reads_afterEntities
    {ctx : StoreContext Vec F}
    (hSame : Untouched w₀ w) :
    (afterEntities ctx).Reads env w₀ w := by
  unfold afterEntities
  split
  · exact hSame
  · exact hSame

omit [LE F] [DecidableLE F] in
/- A known name is resolved without a write. -/
private theorem resolveStep_reads
    {ctx : StoreContext Vec F} {r : Resolving Vec}
    (hReads : (StoreStage.resolve ctx r).Reads env w₀ w) :
    (resolveStep env w ctx r).2.Reads env w₀
      (resolveStep env w ctx r).1 := by
  rcases hReads with ⟨hSame, hPhase, hNames, hKnown⟩
  have hMove := resolveStep_move env w ctx r
  have hFound :
      (r.current env).isEmpty = false →
        w.db.getEntityByName (r.current env) ≠ none := by
    intro hName
    have hBoth := (knownNames_iff hNames hName).mp hKnown
    rw [hSame.1]
    exact Option.isSome_iff_ne_none.mp hBoth.1
  generalize (resolveStep env w ctx r).1 = w' at hMove ⊢
  generalize (resolveStep env w ctx r).2 = st at hMove ⊢
  cases hMove with
  | empty => exact fun _ => hSame
  | known entity _ hName _ =>
      have hTail := ((knownNames_iff hNames hName).mp hKnown).2
      rcases nextName_resolving ctx r entity with
        ⟨_, hEq⟩ | ⟨allEntities, _, hNil, hEq⟩
      · rw [hEq]
        exact reads_afterEntities hSame
      · rw [hEq]
        exact ⟨hSame, rfl, hNil, hTail⟩
  | similar entity _ hName hUnknown _ =>
      exact absurd hUnknown (hFound hName)
  | unknown _ hName hUnknown =>
      exact absurd hUnknown (hFound hName)
  | close _ hOther _ => cases hPhase.symm.trans hOther
  | distant _ hOther => cases hPhase.symm.trans hOther
  | create _ _ _ hOther => cases hPhase.symm.trans hOther
  | point _ _ _ hOther => cases hPhase.symm.trans hOther
  | addAlias _ _ hOther => cases hPhase.symm.trans hOther
  | refused _ _ _ hOther => cases hPhase.symm.trans hOther
  | orphan _ _ hOther => cases hPhase.symm.trans hOther
  | unreachable _ _ _ => exact fun hKind => by cases hKind

/- Each stage up to the memory itself only reads. -/
theorem StoreStage.step_reads
    {st : StoreStage Vec F}
    (hReads : st.Reads env w₀ w) :
    (st.step env service w).2.Reads env w₀
      (st.step env service w).1 := by
  cases st with
  | entities ctx =>
      rcases hReads with ⟨hSame, hKnown⟩
      simp only [step]
      split
      · exact reads_afterEntities hSame
      · rename_i hNames
        split
        · exact fun _ => hSame
        · refine ⟨hSame, rfl, fun hNil => hNames ?_, hKnown⟩
          exact List.isEmpty_iff.mpr hNil
  | resolve ctx r => exact resolveStep_reads hReads
  | target ctx targetId =>
      simp only [step]
      split
      · exact fun _ => hReads
      · exact hReads
  | insertOp ctx =>
      simp only [step]
      split
      · exact fun _ => hReads
      · split
        · exact fun hKind => by cases hKind
        · trivial
  | upsert ctx embedding opId startedAt =>
      simp only [step]
      split
      · exact fun hKind => by cases hKind
      · trivial
  | mark ctx opId startedAt => trivial
  | commit ctx opId startedAt =>
      simp only [step]
      split
      · exact fun hKind => by cases hKind
      · trivial
  | done result => exact hReads
  | _ => exact absurd hReads id

------------------------------------------------------------
-- Names That Are New
------------------------------------------------------------

/- The rows of the registry, in both of its tables. -/
def registrySize (db : Sqlite) : Nat :=
  db.entities.length + db.entityAliases.length

/-
  A store past its checks, with a name that is not known: it
  writes to the registry before it is rejected.
-/
def StoreStage.Writes
    (env : Env Vec F)
    (w₀ w : World Vec) : StoreStage Vec F → Prop
| .entities ctx =>
    registrySize w₀.db < registrySize w.db ∨
      (w.db = w₀.db ∧
        ¬ KnownNames env w₀.db ctx.req.entities)
| .resolve _ r =>
    registrySize w₀.db < registrySize w.db ∨
      (w.db = w₀.db ∧ r.names ≠ [] ∧
        ((r.phase = .exact ∧
            ¬ KnownNames env w₀.db r.names) ∨
          (r.phase ≠ .exact ∧
            (∀ entity embedding,
              r.phase ≠ .point entity embedding) ∧
            w₀.db.getEntityByName (r.current env) = none)))
| .done (.error e) =>
    e.external = false →
      registrySize w₀.db < registrySize w.db
| _ => registrySize w₀.db < registrySize w.db

omit [LE F] [LT F] [DecidableLE F] [DecidableLT F] in
/- A new entity is one more row. -/
private theorem registrySize_insertEntity
    {db db' : Sqlite} {entity : Store.Entity}
    (hAliases : entity.aliases = [])
    (h : db.insertEntity entity = .ok db') :
    registrySize db < registrySize db' := by
  rcases Sqlite.insertEntity_spec hAliases h with ⟨_, _, rfl⟩
  simp only [registrySize, List.length_append,
    List.length_singleton]
  omega

omit [LE F] [LT F] [DecidableLE F] [DecidableLT F] in
/- A new alias makes the registry grow. -/
private theorem registrySize_addEntityAlias
    {db db' : Sqlite} {id name : String} {now : DateTime}
    (h : db.addEntityAlias id name now = .ok db') :
    registrySize db ≤ registrySize db' ∧
      (db.getEntityByName name = none →
        registrySize db < registrySize db') := by
  rcases Sqlite.addEntityAlias_spec h with
    ⟨⟨e, he, hId⟩, rfl⟩
  simp only [registrySize, Table.update, List.length_map]
  split
  · rename_i hOwned
    refine ⟨le_rfl, fun hNone => ?_⟩
    simp only [Sqlite.getEntityByName,
      Option.map_eq_none_iff, Option.or_eq_none_iff,
      List.find?_eq_none, decide_eq_true_eq] at hNone
    exact absurd hOwned (hId ▸ hNone.2 e he)
  · simp only [List.length_append, List.length_singleton]
    omega

omit [LE F] [LT F] [DecidableLE F] [DecidableLT F] in
/- Once the registry has grown, the call has written. -/
private theorem writes_of_grown
    {st : StoreStage Vec F}
    (hGrown : registrySize w₀.db < registrySize w.db) :
    st.Writes env w₀ w := by
  cases st with
  | entities ctx => exact Or.inl hGrown
  | resolve ctx r => exact Or.inl hGrown
  | done result =>
      cases result with
      | ok response => exact hGrown
      | error e => exact fun _ => hGrown
  | _ => exact hGrown

omit [LE F] [DecidableLE F] in
/- A resolution never shrinks the registry. -/
private theorem registrySize_resolveStep
    (ctx : StoreContext Vec F)
    (r : Resolving Vec) :
    registrySize w.db ≤
      registrySize (resolveStep env w ctx r).1.db := by
  have hMove := resolveStep_move env w ctx r
  generalize (resolveStep env w ctx r).1 = w' at hMove ⊢
  generalize (resolveStep env w ctx r).2 = st at hMove
  cases hMove with
  | create _ _ entity _ _ _ hAliases hInsert =>
      exact (registrySize_insertEntity hAliases hInsert).le
  | addAlias _ _ _ hAlias =>
      exact (registrySize_addEntityAlias hAlias).1
  | _ => exact le_rfl

omit [LE F] [DecidableLE F] in
/- A name that is not known makes it grow. -/
private theorem resolveStep_writes
    {ctx : StoreContext Vec F} {r : Resolving Vec}
    (hWrites :
      (StoreStage.resolve ctx r).Writes env w₀ w) :
    (resolveStep env w ctx r).2.Writes env w₀
      (resolveStep env w ctx r).1 := by
  rcases hWrites with hGrown | ⟨hSame, hNames, hCases⟩
  · exact writes_of_grown
      (hGrown.trans_le (registrySize_resolveStep ctx r))
  have hMove := resolveStep_move env w ctx r
  generalize (resolveStep env w ctx r).1 = w' at hMove ⊢
  generalize (resolveStep env w ctx r).2 = st at hMove ⊢
  rcases hCases with ⟨hPhase, hNew⟩ | ⟨hPhase, hPoint, hNone⟩
  · -- the current name is looked up
    cases hMove with
    | empty _ hName =>
        exfalso
        apply hNew
        unfold KnownNames
        cases hEq : r.names with
        | nil => simp
        | cons name names =>
            simp only [Resolving.current, hEq,
              List.head?_cons, Option.getD_some] at hName
            rw [List.takeWhile_cons_of_neg (by simp [hName])]
            simp
    | known entity _ hName hFound =>
        have hTail :
            ¬ KnownNames env w₀.db r.names.tail := by
          intro hTail
          apply hNew
          refine (knownNames_iff hNames hName).mpr ⟨?_, hTail⟩
          rw [← hSame, hFound]
          rfl
        rcases nextName_resolving ctx r entity with
          ⟨hNil, _⟩ | ⟨allEntities, _, hNil, hEq⟩
        · rw [hNil] at hTail
          exact absurd (by simp [KnownNames]) hTail
        · rw [hEq]
          exact Or.inr ⟨hSame, hNil, Or.inl ⟨rfl, hTail⟩⟩
    | similar entity _ hName hUnknown _ =>
        exact Or.inr ⟨hSame, hNames,
          Or.inr ⟨by simp, by simp, hSame ▸ hUnknown⟩⟩
    | unknown _ hName hUnknown =>
        exact Or.inr ⟨hSame, hNames,
          Or.inr ⟨by simp, by simp, hSame ▸ hUnknown⟩⟩
    | close _ hOther _ => cases hPhase.symm.trans hOther
    | distant _ hOther => cases hPhase.symm.trans hOther
    | create _ _ _ hOther => cases hPhase.symm.trans hOther
    | point _ _ _ hOther => cases hPhase.symm.trans hOther
    | addAlias _ _ hOther => cases hPhase.symm.trans hOther
    | refused _ _ _ hOther => cases hPhase.symm.trans hOther
    | orphan _ _ hOther => cases hPhase.symm.trans hOther
    | unreachable _ _ _ => exact fun hKind => by cases hKind
  · -- the current name is on its way into the registry
    cases hMove with
    | empty hExact _ => exact absurd hExact hPhase
    | known _ hExact _ _ => exact absurd hExact hPhase
    | similar _ hExact _ _ _ => exact absurd hExact hPhase
    | unknown hExact _ _ => exact absurd hExact hPhase
    | close entity _ _ =>
        exact Or.inr ⟨hSame, hNames,
          Or.inr ⟨by simp, by simp, hNone⟩⟩
    | distant embedding _ =>
        exact Or.inr ⟨hSame, hNames,
          Or.inr ⟨by simp, by simp, hNone⟩⟩
    | create _ _ entity _ _ _ hAliases hInsert =>
        rw [hSame] at hInsert
        exact Or.inl
          (registrySize_insertEntity hAliases hInsert)
    | point entity embedding _ hOther =>
        exact absurd hOther (hPoint entity embedding)
    | addAlias _ _ _ hAlias =>
        rw [hSame] at hAlias
        exact writes_of_grown
          ((registrySize_addEntityAlias hAlias).2 hNone)
    | refused _ _ _ _ _ _ _ => exact fun hKind => by cases hKind
    | orphan _ _ _ _ => exact fun hKind => by cases hKind
    | unreachable _ _ _ => exact fun hKind => by cases hKind

/- What has written has still written after a step. -/
theorem StoreStage.step_writes
    {st : StoreStage Vec F}
    (hWrites : st.Writes env w₀ w) :
    (st.step env service w).2.Writes env w₀
      (st.step env service w).1 := by
  by_cases hResolve : ∃ ctx r, st = .resolve ctx r
  · rcases hResolve with ⟨ctx, r, rfl⟩
    exact resolveStep_writes hWrites
  · have hStep :=
      step_registry env service w
        (fun ctx r hEq => hResolve ⟨ctx, r, hEq⟩)
    have hSize :
        registrySize (st.step env service w).1.db =
          registrySize w.db := by
      rw [registrySize, hStep.entities, hStep.aliases]
      rfl
    have hGrown :
        registrySize w₀.db < registrySize w.db →
          (st.step env service w).2.Writes env w₀
            (st.step env service w).1 :=
      fun h => writes_of_grown (hSize ▸ h)
    cases st with
    | entities ctx =>
        rcases hWrites with h | ⟨hSame, hNew⟩
        · exact hGrown h
        · simp only [step]
          split
          · rename_i hNames
            rw [List.isEmpty_iff.mp hNames] at hNew
            exact absurd (by simp [KnownNames]) hNew
          · rename_i hNames
            split
            · exact fun hKind => by cases hKind
            · refine Or.inr ⟨hSame, fun hNil => hNames ?_,
                Or.inl ⟨rfl, hNew⟩⟩
              exact List.isEmpty_iff.mpr hNil
    | resolve ctx r => exact absurd ⟨ctx, r, rfl⟩ hResolve
    | done result => exact hWrites
    | _ => exact hGrown hWrites

------------------------------------------------------------
-- Rejected Stores
------------------------------------------------------------

omit [LE F] [LT F] [DecidableLE F] [DecidableLT F] in
/- The call has been rejected for a reason of its own. -/
private theorem rejected_eq_true
    {st : StoreStage Vec F}
    (h : st.rejected = true) :
    ∃ e, st = .done (.error e) ∧ e.external = false := by
  cases st with
  | done result =>
      cases result with
      | ok response => cases h
      | error e =>
          exact ⟨e, rfl, by
            simpa [StoreStage.rejected] using h⟩
  | _ => cases h

/- How a store past its checks ends, with the names known. -/
private theorem unchanged_of_knownNames
    {ctx : StoreContext Vec F}
    (hKnown : KnownNames env w.db ctx.req.entities)
    (hRejected :
      (StoreStage.finish env service w
        (.entities ctx)).2.rejected) :
    Untouched w
      (StoreStage.finish env service w
        (.entities ctx)).1 := by
  have hStart : (StoreStage.entities ctx).Reads env w w :=
    ⟨⟨rfl, rfl⟩, hKnown⟩
  have hReads :=
    StoreStage.finish_invariant env service
      (I := fun w' st => st.Reads env w w')
      (fun _ _ h => StoreStage.step_reads h) hStart
  rcases rejected_eq_true hRejected with ⟨e, hDone, hKind⟩
  rw [hDone] at hReads
  exact hReads hKind

/- With a new name the registry has grown at the end. -/
private theorem grown_of_not_knownNames
    {ctx : StoreContext Vec F}
    (hNew : ¬ KnownNames env w.db ctx.req.entities)
    (hRejected :
      (StoreStage.finish env service w
        (.entities ctx)).2.rejected) :
    registrySize w.db <
      registrySize (StoreStage.finish env service w
        (.entities ctx)).1.db := by
  have hStart : (StoreStage.entities ctx).Writes env w w :=
    Or.inr ⟨rfl, hNew⟩
  have hWrites :=
    StoreStage.finish_invariant env service
      (I := fun w' st => st.Writes env w w')
      (fun _ _ h => StoreStage.step_writes h) hStart
  rcases rejected_eq_true hRejected with ⟨e, hDone, hKind⟩
  rw [hDone] at hWrites
  exact hWrites hKind

/-
  A rejected store changes nothing exactly if its checks
  refuse it or every name that it gets to is known.
-/
theorem store_rejected_iff
    (hRejected : (store env service w req).2.rejected) :
    Unchanged w (store env service w req).1 ↔
      (∃ e, runChecks env service w req = .error e) ∨
        KnownNames env w.db req.entities := by
  cases hChecks : runChecks env service w req with
  | error e =>
      rcases store_of_error hChecks with ⟨n, hStore⟩
      rw [hStore]
      exact iff_of_true ⟨rfl, rfl, rfl, rfl, fun _ => rfl⟩
        (Or.inl ⟨e, rfl⟩)
  | ok ctx =>
      have hReq : ctx.req = req := by
        rcases runChecks_eq_ok hChecks with
          ⟨_, ctx₀, hValid, hCases⟩
        rcases validated_eq_ok hValid with ⟨p, rfl⟩
        rcases hCases with ⟨_, rfl⟩ | ⟨_, hRun⟩
        · rfl
        · rcases Conflict.run_eq_ok hRun with ⟨ids, rfl⟩
          rfl
      rw [store_of_ok hChecks] at hRejected ⊢
      constructor
      · intro hSame
        by_contra hNew
        rw [not_or, ← hReq] at hNew
        have hGrown :=
          grown_of_not_knownNames
            (w := { w with nextUuid := w.nextUuid + 1 })
            hNew.2 hRejected
        have hSize :
            ∀ db : Sqlite, db.entities = w.db.entities →
              db.entityAliases = w.db.entityAliases →
                registrySize db = registrySize w.db := by
          intro db hEntities hAliases
          rw [registrySize, hEntities, hAliases, registrySize]
        exact absurd
          (hSize _ hSame.entities hSame.aliases).le
          (Nat.not_le.mpr hGrown)
      · intro hKnown
        rcases unchanged_of_knownNames
            (w := { w with nextUuid := w.nextUuid + 1 })
            (hReq ▸ hKnown.resolve_left (by simp))
            hRejected with ⟨hDb, hQdrant⟩
        exact ⟨by rw [hDb], by rw [hDb], by rw [hDb],
          by rw [hDb], fun ns => by rw [hQdrant]⟩

end Rejected

------------------------------------------------------------
-- Rejections with and Without New Names
------------------------------------------------------------

/- A request of the examples. -/
private def about
    (content : String)
    (entities : List String) : StoreRequest :=
  { StoreRequest.note content with entities := entities }

/- A registry that knows one name. -/
private def tokio : World String :=
  (store Env.plain MemoryService.plain
    (System.empty : System String Rat).world
    (about "a runtime" ["Tokio"])).1

/- The name before the empty one is known. -/
theorem store_rejected_known :
    Unchanged tokio
      (store Env.plain MemoryService.plain tokio
        (about "a task" ["tokio", "-"])).1 :=
  (store_rejected_iff (by decide +kernel)).mpr
    (Or.inr (by decide +kernel))

/- A new name, before a target that does not exist. -/
theorem store_rejected_registers :
    ¬ ∀ (w : World String) (req : StoreRequest),
        (store Env.plain MemoryService.plain w
          req).2.rejected = true →
        Unchanged w
          (store Env.plain MemoryService.plain w req).1 := by
  intro hClaim
  have hSame :=
    hClaim (System.empty : System String Rat).world
      { about "a runtime" ["Tokio"] with
        supersedes := some (Env.plainUuid 7) }
      (by decide +kernel)
  have hNew :
      (store Env.plain MemoryService.plain
        (System.empty : System String Rat).world
        { about "a runtime" ["Tokio"] with
          supersedes :=
            some (Env.plainUuid 7) }).1.db.entities ≠ [] := by
    decide +kernel
  exact hNew hSame.entities

end Core

end Ferrex
