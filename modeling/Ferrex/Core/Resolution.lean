import Mathlib.Logic.Function.Basic
import Ferrex.Lib.Transition
import Ferrex.Core.Registry
import Ferrex.Core.Service

/-
  Any number of store calls on one registry, from their
  entity resolution on: their steps interleave, and the
  embedder, the vector search and the similarity scores may
  answer each step anew.

  Main declarations:
    * `Answers`, `Resolvers`, `Resolvers.next`
    * `Resolvers.Coherent` and `Coherent.next`
    * `registry_single_owner`
    * `concurrent_resolution`
-/

------------------------------------------------------------
-- Resolvers
------------------------------------------------------------

namespace Ferrex

namespace Core

open Store

variable {Vec F : Type}

/- What one step is told from outside. -/
structure Answers (Vec F : Type) where
  embed : String → Vec
  nearest : NearestPoints Vec F
  jaroWinkler : String → String → Rat

def Env.answering
    (env : Env Vec F)
    (a : Answers Vec F) : Env Vec F :=
  { env with
    embed := a.embed
    nearest := a.nearest
    jaroWinkler := a.jaroWinkler }

/- A name of a request, with the entity it resolved to. -/
structure Resolution where
  name : String
  entity : Store.Entity
deriving DecidableEq

/-
  The world, the calls, and as history each name that has
  resolved and each memory that has been stored.
-/
structure Resolvers (Vec F : Type) where
  world : World Vec
  calls : Nat → Option (StoreStage Vec F)
  resolutions : List Resolution
  stored : List (StoreContext Vec F)

namespace StoreStage

/- The entities that the names so far have resolved to. -/
def resolved : StoreStage Vec F → List Store.Entity
| .resolve _ r => r.resolved
| .target ctx _ => ctx.resolvedEntities
| .insertOp ctx => ctx.resolvedEntities
| _ => []

/- The names that a step to the second stage resolves. -/
def resolves (st st' : StoreStage Vec F) : List Resolution :=
  match st with
  | .resolve _ r =>
      (st'.resolved.drop r.resolved.length).map
        (fun e => ⟨r.names.head?.getD "", e⟩)
  | _ => []

/- The memory that a step to the second stage stores. -/
def stores
    (st st' : StoreStage Vec F) : List (StoreContext Vec F) :=
  match st, st' with
  | .commit ctx _ _, .done (.ok _) => [ctx]
  | _, _ => []

/- The resolution of the names is not over. -/
def resolving : StoreStage Vec F → Bool
| .target _ _ => false
| .insertOp _ => false
| .upsert .. => false
| .mark .. => false
| .commit .. => false
| .done _ => false
| _ => true

end StoreStage

namespace Resolvers

inductive Event (Vec F : Type) where
| tick (d : Nat)
| start (i : Nat) (ctx : StoreContext Vec F)
| step (i : Nat) (a : Answers Vec F)
| fail (i : Nat) (e : CoreError F)

variable [LE F] [LT F] [DecidableLE F] [DecidableLT F]

def next
    (env : Env Vec F)
    (service : MemoryService F)
    (s : Resolvers Vec F) :
    Event Vec F → Option (Resolvers Vec F)
| .tick d =>
    some { s with
      world := { s.world with clock := s.world.clock + d } }
| .start i ctx =>
    if (s.calls i).isNone ∧ ctx.resolvedEntities.isEmpty then
      some { s with
        calls :=
          Function.update s.calls i (some (.entities ctx)) }
    else
      none
| .step i a =>
    match s.calls i with
    | some st =>
        let next := st.step (env.answering a) service s.world
        some
          { world := next.1
            calls := Function.update s.calls i (some next.2)
            resolutions :=
              s.resolutions ++ st.resolves next.2
            stored := s.stored ++ st.stores next.2 }
    | none => none
| .fail i e =>
    match s.calls i with
    | some st =>
        if st.calls then
          some { s with
            calls :=
              Function.update s.calls i
                (some (StoreStage.fail e)) }
        else
          none
    | none => none

/-
  No call has begun, and the registry is one that its keys
  allow, with one owner for each name.
-/
structure Start
    (env : Env Vec F)
    (s : Resolvers Vec F) : Prop where
  registered : s.world.db.Registered
  single : s.world.db.SingleOwner
  old : ∀ e ∈ s.world.db.entities, Old env s.world e.id
  calls : ∀ i, s.calls i = none
  resolutions : s.resolutions = []
  stored : s.stored = []

def machine
    (env : Env Vec F)
    (service : MemoryService F) :
    Machine (Resolvers Vec F) (Event Vec F) :=
  Machine.ofNext (Start env) (next env service)

/- Nothing in the registry, whatever the other tables hold. -/
def onEmpty (w : World Vec) : Resolvers Vec F where
  world :=
    { w with
      db := { w.db with entities := [], entityAliases := [] } }
  calls _ := none
  resolutions := []
  stored := []

omit [LE F] [LT F] [DecidableLE F] [DecidableLT F] in
theorem start_onEmpty
    (env : Env Vec F)
    (w : World Vec) :
    Start env (onEmpty w : Resolvers Vec F) where
  registered :=
    ⟨by simp [onEmpty, Table.KeyUnique], by simp [onEmpty]⟩
  single i j name hI := by
    simp [Sqlite.Owns, onEmpty] at hI
  old := by simp [onEmpty]
  calls _ := rfl
  resolutions := rfl
  stored := rfl

/- A resolution begins when no other one is under way. -/
def Sequential (s : Resolvers Vec F) : Event Vec F → Prop
| .start _ _ =>
    ∀ i st, s.calls i = some st → st.resolving = false
| _ => True

/-
  When a resolution inserts an entity or an alias, no other
  entity has come to own the name.
-/
def Unclaimed
    (env : Env Vec F)
    (s : Resolvers Vec F) : Event Vec F → Prop
| .step i _ =>
    ∀ ctx r, s.calls i = some (.resolve ctx r) →
      (∀ v, r.phase = .create v →
        ∀ id, ¬ s.world.db.Owns id (r.current env)) ∧
      (∀ entity, r.phase = .addAlias entity →
        ∀ id, s.world.db.Owns id (r.current env) →
          id = entity.id)
| _ => True

omit [LE F] [LT F] [DecidableLE F] [DecidableLT F] in
/- Every entity and every owner stays. -/
structure Grows (db db' : Sqlite) : Prop where
  keeps :
    ∀ id, Table.HasKey Store.Entity.id id db.entities →
      Table.HasKey Store.Entity.id id db'.entities
  owns : ∀ id name, db.Owns id name → db'.Owns id name

------------------------------------------------------------
-- Coherent Registries
------------------------------------------------------------

/- What the resolution of a name can rely on. -/
structure Sure
    (env : Env Vec F)
    (db : Sqlite)
    (r : Resolving Vec) : Prop where
  name :
    r.phase = .exact ∨ (r.current env).isEmpty = false
  allEntities :
    ∀ e ∈ r.allEntities,
      Table.HasKey Store.Entity.id e.id db.entities
  point :
    ∀ entity v, r.phase = .point entity v →
      db.Owns entity.id (r.current env)
  addAlias :
    ∀ entity, r.phase = .addAlias entity →
      Table.HasKey Store.Entity.id entity.id db.entities

/-
  Names have one owner each, and every name that has
  resolved belongs to the entity it resolved to.
-/
structure Coherent
    (env : Env Vec F)
    (s : Resolvers Vec F) : Prop where
  registered : s.world.db.Registered
  single : s.world.db.SingleOwner
  old : ∀ e ∈ s.world.db.entities, Old env s.world e.id
  resolutions :
    ∀ p ∈ s.resolutions,
      (Entity.normalize env p.name).isEmpty = false ∧
        s.world.db.Owns p.entity.id
          (Entity.normalize env p.name)
  calls :
    ∀ i ctx r, s.calls i = some (.resolve ctx r) →
      Sure env s.world.db r

------------------------------------------------------------
-- One Step of a Resolution
------------------------------------------------------------

section Move

variable {env : Env Vec F} {w w' : World Vec}
variable {ctx : StoreContext Vec F} {r : Resolving Vec}
variable {st : StoreStage Vec F} {entity : Store.Entity}

omit [LE F] [LT F] [DecidableLE F] [DecidableLT F]

theorem Grows.refl (db : Sqlite) : Grows db db :=
  ⟨fun _ h => h, fun _ _ h => h⟩

theorem grows_of_sameRegistry
    {db db' : Sqlite}
    (hSame : SameRegistry db db') :
    Grows db db' where
  keeps id h := by rwa [hSame.entities]
  owns id name h := by
    unfold Sqlite.Owns
    rwa [hSame.entities, hSame.aliases]

theorem grows_insertEntity
    {db db' : Sqlite}
    (hAliases : entity.aliases = [])
    (h : db.insertEntity entity = .ok db') :
    Grows db db' where
  keeps id hKey := by
    rcases Sqlite.insertEntity_spec hAliases h with
      ⟨_, _, rfl⟩
    rcases hKey with ⟨e, he, hId⟩
    exact ⟨e, List.mem_append_left _ he, hId⟩
  owns id name hOwns :=
    (Sqlite.owns_insertEntity_iff hAliases h).mpr
      (Or.inl hOwns)

theorem grows_addEntityAlias
    {db db' : Sqlite} {id name : String} {now : DateTime}
    (h : db.addEntityAlias id name now = .ok db') :
    Grows db db' where
  keeps i hKey := by
    rcases Sqlite.addEntityAlias_spec h with ⟨_, rfl⟩
    exact (Table.hasKey_update_iff
      (p := fun e : Store.Entity => e.id = id)
      (f := fun e => { e with updatedAt := now })
      (fun _ => rfl)).mpr hKey
  owns i s hOwns :=
    (Sqlite.owns_addEntityAlias_iff h).mpr (Or.inl hOwns)

theorem Sure.grows
    {db db' : Sqlite}
    (hSure : Sure env db r)
    (hGrows : Grows db db') :
    Sure env db' r where
  name := hSure.name
  allEntities e he := hGrows.keeps _ (hSure.allEntities e he)
  point entity v h := hGrows.owns _ _ (hSure.point entity v h)
  addAlias entity h := hGrows.keeps _ (hSure.addAlias entity h)

/- The name that is resolved, and nothing else, is recorded. -/
theorem resolves_nextName
    (ctx : StoreContext Vec F)
    (r : Resolving Vec)
    (entity : Store.Entity) :
    (StoreStage.resolve ctx r).resolves
        (nextName ctx r entity) =
      [⟨r.names.head?.getD "", entity⟩] := by
  have hResolved :
      (nextName ctx r entity).resolved =
        r.resolved ++ [entity] := by
    rcases nextName_resolving ctx r entity with
      ⟨_, hEq⟩ | ⟨_, _, _, hEq⟩
    · rw [hEq]
      unfold afterEntities
      split <;> rfl
    · rw [hEq]
      rfl
  unfold StoreStage.resolves
  rw [hResolved]
  simp

theorem resolves_again
    (ctx : StoreContext Vec F)
    (r : Resolving Vec)
    (phase : ResolvePhase Vec) :
    (StoreStage.resolve ctx r).resolves
      (.resolve ctx { r with phase := phase }) = [] := by
  simp [StoreStage.resolves, StoreStage.resolved]

theorem resolves_done
    (st : StoreStage Vec F)
    (result : Except (CoreError F) StoreResponse) :
    st.resolves (.done result) = [] := by
  cases st <;> simp [StoreStage.resolves,
    StoreStage.resolved]

/- The next name begins with what the last one left. -/
private theorem sure_nextName
    {db : Sqlite}
    {ctx' : StoreContext Vec F} {r' : Resolving Vec}
    (hAll :
      ∀ e ∈ r.allEntities,
        Table.HasKey Store.Entity.id e.id db.entities)
    (hEntity :
      Table.HasKey Store.Entity.id entity.id db.entities)
    (hNext : nextName ctx r entity = .resolve ctx' r') :
    Sure env db r' := by
  rcases nextName_resolving ctx r entity with
    ⟨_, hEq⟩ | ⟨allEntities, hMem, _, hEq⟩
  · rw [hEq] at hNext
    unfold afterEntities at hNext
    split at hNext <;> simp at hNext
  · rw [hEq] at hNext
    cases hNext
    refine ⟨Or.inl rfl, fun e he => ?_, by simp, by simp⟩
    rcases hMem e he with he | rfl
    · exact hAll e he
    · exact hEntity

/- The next name begins with its lookup. -/
private theorem phase_of_nextName
    {ctx' : StoreContext Vec F} {r' : Resolving Vec}
    (hNext : nextName ctx r entity = .resolve ctx' r') :
    r'.phase = .exact := by
  rcases nextName_resolving ctx r entity with
    ⟨_, hEq⟩ | ⟨_, _, _, hEq⟩
  · rw [hEq] at hNext
    unfold afterEntities at hNext
    split at hNext <;> simp at hNext
  · rw [hEq] at hNext
    cases hNext
    rfl

/- What a step keeps, and what it adds. -/
structure Kept
    (env : Env Vec F)
    (w : World Vec)
    (ctx : StoreContext Vec F)
    (r : Resolving Vec)
    (w' : World Vec)
    (st : StoreStage Vec F) : Prop where
  grows : Grows w.db w'.db
  registered : w'.db.Registered
  single : w'.db.SingleOwner
  old : ∀ e ∈ w'.db.entities, Old env w' e.id
  sure :
    ∀ ctx' r', st = .resolve ctx' r' → Sure env w'.db r'
  resolves :
    ∀ p ∈ (StoreStage.resolve ctx r).resolves st,
      (Entity.normalize env p.name).isEmpty = false ∧
        w'.db.Owns p.entity.id (Entity.normalize env p.name)
  alone :
    ∀ e, st = .done (.error e) →
      (r.current env).isEmpty = true ∨
        ensureCollection ctx.namespace ≠ .ok ()

private theorem hasKey_of_owns
    {db : Sqlite} {id name : String}
    (hRegistered : db.Registered)
    (hOwns : db.Owns id name) :
    Table.HasKey Store.Entity.id id db.entities := by
  rcases hOwns with ⟨e, he, hId, _⟩ | hAlias
  · exact ⟨e, he, hId⟩
  · exact hRegistered.aliases _ hAlias

/- A name that resolves to its owner. -/
private theorem resolves_owned
    {db : Sqlite}
    (hName : (r.current env).isEmpty = false)
    (hOwns : db.Owns entity.id (r.current env)) :
    ∀ p ∈ (StoreStage.resolve ctx r).resolves
        (nextName ctx r entity),
      (Entity.normalize env p.name).isEmpty = false ∧
        db.Owns p.entity.id (Entity.normalize env p.name) := by
  intro p hp
  rw [resolves_nextName, List.mem_singleton] at hp
  subst hp
  exact ⟨hName, hOwns⟩

private theorem nextName_ne_done
    (result : Except (CoreError F) StoreResponse) :
    nextName ctx r entity ≠ .done result := by
  rcases nextName_resolving ctx r entity with
    ⟨_, hEq⟩ | ⟨_, _, _, hEq⟩
  · rw [hEq]
    unfold afterEntities
    split <;> simp
  · rw [hEq]
    simp

/- One more owner of a name that is its own or nobody's. -/
private theorem singleOwner_add
    {db db' : Sqlite} {id name : String}
    (hSingle : db.SingleOwner)
    (hOwns :
      ∀ i s, db'.Owns i s ↔
        db.Owns i s ∨ (i = id ∧ s = name))
    (hOwner : ∀ i, db.Owns i name → i = id) :
    db'.SingleOwner := by
  intro i j s hI hJ
  rcases (hOwns i s).mp hI with hI | ⟨rfl, rfl⟩
  · rcases (hOwns j s).mp hJ with hJ | ⟨rfl, rfl⟩
    · exact hSingle i j s hI hJ
    · exact hOwner i hI
  · rcases (hOwns j s).mp hJ with hJ | ⟨rfl, _⟩
    · exact (hOwner j hJ).symm
    · rfl

/- A step that nothing has got ahead of. -/
theorem kept_of_move
    (hRegistered : w.db.Registered)
    (hSingle : w.db.SingleOwner)
    (hOld : ∀ e ∈ w.db.entities, Old env w e.id)
    (hSure : Sure env w.db r)
    (hCreate :
      ∀ v, r.phase = .create v →
        ∀ id, ¬ w.db.Owns id (r.current env))
    (hAlias :
      ∀ entity, r.phase = .addAlias entity →
        ∀ id, w.db.Owns id (r.current env) → id = entity.id)
    (hMove : ResolveMove env w ctx r w' st) :
    Kept env w ctx r w' st := by
  -- most steps do not touch the registry
  have hQuiet :
      ∀ (q : Qdrant Vec) (st' : StoreStage Vec F),
        (∀ ctx' r', st' = .resolve ctx' r' →
          Sure env w.db r') →
        (∀ p ∈ (StoreStage.resolve ctx r).resolves st',
          (Entity.normalize env p.name).isEmpty = false ∧
            w.db.Owns p.entity.id
              (Entity.normalize env p.name)) →
        (∀ e, st' = .done (.error e) →
          (r.current env).isEmpty = true ∨
            ensureCollection ctx.namespace ≠ .ok ()) →
        Kept env w ctx r { w with qdrant := q } st' :=
    fun q st' hNext hResolves hAlone =>
      ⟨.refl _, hRegistered, hSingle, hOld, hNext, hResolves,
        hAlone⟩
  have hAgain :
      ∀ phase : ResolvePhase Vec,
        (r.current env).isEmpty = false →
        (∀ entity, phase = .addAlias entity →
          entity ∈ r.allEntities) →
        (∀ entity v, phase ≠ .point entity v) →
        Kept env w ctx r w
          (.resolve ctx { r with phase := phase }) := by
    intro phase hName hPhase hPoint
    refine hQuiet w.qdrant _ ?_ ?_ (by simp)
    · intro ctx' r' h
      cases h
      exact ⟨Or.inr hName, hSure.allEntities,
        fun entity v h => absurd h (hPoint entity v),
        fun entity h => hSure.allEntities _ (hPhase entity h)⟩
    · simp [resolves_again]
  cases hMove with
  | empty _ hName =>
      exact hQuiet w.qdrant _ (by simp)
        (by simp [resolves_done]) (fun _ _ => Or.inl hName)
  | known entity _ hName hFound =>
      have hOwns := Sqlite.owns_of_getEntityByName hFound
      exact hQuiet w.qdrant _
        (fun _ _ => sure_nextName hSure.allEntities
          (hasKey_of_owns hRegistered hOwns))
        (resolves_owned hName hOwns)
        (fun _ h => absurd h (nextName_ne_done _))
  | similar entity _ hName _ hMem =>
      exact hAgain _ hName (by simpa using hMem) (by simp)
  | unknown _ hName _ =>
      exact hAgain _ hName (by simp) (by simp)
  | close entity hPhase hMem =>
      have hName := hSure.name.resolve_left (by simp [hPhase])
      exact hAgain _ hName (by simpa using hMem) (by simp)
  | distant embedding hPhase =>
      have hName := hSure.name.resolve_left (by simp [hPhase])
      exact hAgain _ hName (by simp) (by simp)
  | create embedding db entity hPhase hId hEq hNone hInsert =>
      have hName := hSure.name.resolve_left (by simp [hPhase])
      have hGrows := grows_insertEntity hNone hInsert
      have hOwns :
          ∀ id name, db.Owns id name ↔
            w.db.Owns id name ∨
              (id = entity.id ∧ name = entity.name) :=
        fun _ _ => Sqlite.owns_insertEntity_iff hNone hInsert
      have hFresh := hCreate _ hPhase
      rw [← hEq] at hFresh
      refine ⟨hGrows, hRegistered.insertEntity hNone hInsert,
        singleOwner_add hSingle hOwns
          (fun i h => absurd h (hFresh i)),
        ?_, ?_, ?_, by simp⟩
      · rcases Sqlite.insertEntity_spec hNone hInsert with
          ⟨_, _, rfl⟩
        intro e he
        rcases List.mem_append.mp he with he | he
        · exact (hOld e he).mono (Nat.le_succ _)
        · rw [List.mem_singleton.mp he, hId]
          exact Old.of_next (Nat.lt_succ_self _)
      · intro ctx' r' h
        cases h
        refine ⟨Or.inr hName,
          fun e he => hGrows.keeps _ (hSure.allEntities e he),
          fun e v h => ?_, by simp⟩
        cases h
        exact (hOwns _ _).mpr (Or.inr ⟨rfl, hEq.symm⟩)
      · simp [resolves_again]
  | point entity embedding qdrant hPhase =>
      have hName := hSure.name.resolve_left (by simp [hPhase])
      have hOwns := hSure.point entity embedding hPhase
      exact hQuiet qdrant _
        (fun _ _ => sure_nextName hSure.allEntities
          (hasKey_of_owns hRegistered hOwns))
        (resolves_owned hName hOwns)
        (fun _ h => absurd h (nextName_ne_done _))
  | addAlias entity db hPhase hAdd =>
      have hName := hSure.name.resolve_left (by simp [hPhase])
      have hGrows := grows_addEntityAlias hAdd
      have hOwns :
          ∀ id name, db.Owns id name ↔
            w.db.Owns id name ∨
              (id = entity.id ∧ name = r.current env) :=
        fun _ _ => Sqlite.owns_addEntityAlias_iff hAdd
      have hOwner := hAlias entity hPhase
      refine ⟨hGrows, hRegistered.addEntityAlias hAdd,
        singleOwner_add hSingle hOwns hOwner, ?_,
        fun _ _ => sure_nextName
          (fun e he => hGrows.keeps _ (hSure.allEntities e he))
          (hGrows.keeps _ (hSure.addAlias entity hPhase)),
        resolves_owned hName
          ((hOwns _ _).mpr (Or.inr ⟨rfl, rfl⟩)),
        fun _ h => absurd h (nextName_ne_done _)⟩
      intro e he
      rcases (Registers.addEntityAlias env hAdd).new e he with
        ⟨e₀, he₀, hId⟩ | ⟨_, hNext⟩
      · exact hId ▸ (hOld e₀ he₀).mono le_rfl
      · exact absurd hNext (lt_irrefl _)
  | refused embedding entity e hPhase hId hEq hInsert =>
      -- its name and its id are both free
      rcases Sqlite.insertEntity_eq_error hInsert with
        ⟨x, hx, hUsed⟩ | ⟨x, hx, hUsed⟩
      · exact absurd (Or.inl ⟨x, hx, rfl, hUsed.trans hEq⟩)
          (hCreate _ hPhase x.id)
      · exact absurd (hUsed.trans hId) (hOld x hx).ne_next
  | orphan entity e hPhase hAdd =>
      exact absurd (hSure.addAlias entity hPhase)
        (Sqlite.addEntityAlias_eq_error hAdd)
  | unreachable e _ hCause =>
      exact hQuiet w.qdrant _ (by simp)
        (by simp [resolves_done]) (fun _ _ => Or.inr hCause)

end Move

------------------------------------------------------------
-- Steps of Resolvers
------------------------------------------------------------

section Steps

variable {env : Env Vec F} {service : MemoryService F}
variable {s t : Resolvers Vec F} {e : Event Vec F}

/- The steps that can be taken, with what they lead to. -/
inductive Move
    (env : Env Vec F)
    (service : MemoryService F)
    (s : Resolvers Vec F) :
    Event Vec F → Resolvers Vec F → Prop
| tick (d : Nat) :
    Move env service s (.tick d)
      { s with
        world := { s.world with clock := s.world.clock + d } }
| start (i : Nat) (ctx : StoreContext Vec F)
    (hNone : s.calls i = none)
    (hResolved : ctx.resolvedEntities = []) :
    Move env service s (.start i ctx)
      { s with
        calls :=
          Function.update s.calls i (some (.entities ctx)) }
| step (i : Nat) (a : Answers Vec F) (st : StoreStage Vec F)
    (hCall : s.calls i = some st) :
    Move env service s (.step i a)
      { world := (st.step (env.answering a) service s.world).1
        calls :=
          Function.update s.calls i
            (some (st.step (env.answering a) service
              s.world).2)
        resolutions :=
          s.resolutions ++
            st.resolves
              (st.step (env.answering a) service s.world).2
        stored :=
          s.stored ++
            st.stores
              (st.step (env.answering a) service s.world).2 }
| fail (i : Nat) (e : CoreError F) (st : StoreStage Vec F)
    (hCall : s.calls i = some st) :
    Move env service s (.fail i e)
      { s with
        calls :=
          Function.update s.calls i
            (some (StoreStage.fail e)) }

theorem next_eq_some
    (hNext : s.next env service e = some t) :
    Move env service s e t := by
  cases e with
  | tick d =>
      cases hNext
      exact .tick d
  | start i ctx =>
      simp only [next] at hNext
      split at hNext
      · rename_i hBoth
        cases hNext
        exact .start i ctx
          (Option.isNone_iff_eq_none.mp hBoth.1)
          (List.isEmpty_iff.mp hBoth.2)
      · cases hNext
  | step i a =>
      simp only [next] at hNext
      split at hNext
      · rename_i st hCall
        cases hNext
        exact .step i a st hCall
      · cases hNext
  | fail i e =>
      simp only [next] at hNext
      split at hNext
      · rename_i st hCall
        split at hNext
        · cases hNext
          exact .fail i e st hCall
        · cases hNext
      · cases hNext

omit [LE F] [LT F] [DecidableLE F] [DecidableLT F] in
/- Resolving is all that the answers bear on. -/
theorem sure_answering
    {a : Answers Vec F} {db : Sqlite} {r : Resolving Vec} :
    Sure (env.answering a) db r ↔ Sure env db r :=
  ⟨fun h => ⟨h.name, h.allEntities, h.point, h.addAlias⟩,
    fun h => ⟨h.name, h.allEntities, h.point, h.addAlias⟩⟩

omit [LE F] [DecidableLE F] in
/- The step of a resolution that nothing has got ahead of. -/
theorem kept_step
    {i : Nat} {a : Answers Vec F}
    {ctx : StoreContext Vec F} {r : Resolving Vec}
    (hs : Coherent env s)
    (hGuard : Unclaimed env s (.step i a))
    (hCall : s.calls i = some (.resolve ctx r)) :
    Kept (env.answering a) s.world ctx r
      (resolveStep (env.answering a) s.world ctx r).1
      (resolveStep (env.answering a) s.world ctx r).2 := by
  rcases hGuard ctx r hCall with ⟨hCreate, hAlias⟩
  exact kept_of_move hs.registered hs.single hs.old
    (sure_answering.mpr (hs.calls i ctx r hCall))
    hCreate hAlias (resolveStep_move _ _ ctx r)

omit [LE F] [LT F] [DecidableLE F] [DecidableLT F] in
theorem call_cases
    {calls : Nat → Option (StoreStage Vec F)} {i j : Nat}
    {st st' : StoreStage Vec F}
    (h : Function.update calls i (some st) j = some st') :
    (j = i ∧ st = st') ∨ (j ≠ i ∧ calls j = some st') := by
  by_cases hEq : j = i
  · subst j
    rw [Function.update_self] at h
    exact Or.inl ⟨rfl, Option.some.inj h⟩
  · rw [Function.update_of_ne hEq] at h
    exact Or.inr ⟨hEq, h⟩

omit [LE F] [LT F] [DecidableLE F] [DecidableLT F] in
/- A call whose step leaves the registry as it is. -/
private theorem Coherent.quiet
    {w : World Vec} {i : Nat} {st : StoreStage Vec F}
    {stored : List (StoreContext Vec F)}
    (hs : Coherent env s)
    (hSame : SameRegistry s.world.db w.db)
    (hNext : s.world.nextUuid ≤ w.nextUuid)
    (hStage :
      ∀ ctx r, st = .resolve ctx r → Sure env w.db r) :
    Coherent env
      { world := w
        calls := Function.update s.calls i (some st)
        resolutions := s.resolutions
        stored := stored } where
  registered :=
    hs.registered.congr hSame.entities hSame.aliases
  single := by
    unfold Sqlite.SingleOwner Sqlite.Owns
    rw [hSame.entities, hSame.aliases]
    exact hs.single
  old e he := (hs.old e (hSame.entities ▸ he)).mono hNext
  resolutions p hp :=
    ⟨(hs.resolutions p hp).1,
      (grows_of_sameRegistry hSame).owns _ _
        (hs.resolutions p hp).2⟩
  calls j ctx r hCall := by
    rcases call_cases hCall with ⟨_, hNew⟩ | ⟨hNe, hOld⟩
    · exact hStage ctx r hNew
    · exact (hs.calls j ctx r hOld).grows
        (grows_of_sameRegistry hSame)

/- Steps that claim no name of another keep names apart. -/
theorem Coherent.next
    (hs : Coherent env s)
    (hGuard : Unclaimed env s e)
    (hNext : s.next env service e = some t) :
    Coherent env t := by
  cases next_eq_some hNext with
  | tick d =>
      exact ⟨hs.registered, hs.single, hs.old,
        hs.resolutions, hs.calls⟩
  | start i ctx _ _ =>
      exact hs.quiet (.refl _) le_rfl (by simp)
  | fail i e st _ =>
      exact hs.quiet (.refl _) le_rfl
        (by simp [StoreStage.fail])
  | step i a st hCall =>
      by_cases hResolve : ∃ ctx r, st = .resolve ctx r
      · rcases hResolve with ⟨ctx, r, rfl⟩
        have hKept := kept_step hs hGuard hCall
        refine ⟨hKept.registered, hKept.single, hKept.old,
          ?_, ?_⟩
        · intro p hp
          rcases List.mem_append.mp hp with hp | hp
          · exact ⟨(hs.resolutions p hp).1,
              hKept.grows.owns _ _ (hs.resolutions p hp).2⟩
          · exact hKept.resolves p hp
        · intro j ctx' r' hCall'
          rcases call_cases hCall' with ⟨_, hNew⟩ | ⟨hNe, hOld⟩
          · exact sure_answering.mp (hKept.sure ctx' r' hNew)
          · exact (hs.calls j ctx' r' hOld).grows hKept.grows
      · have hSame :=
          StoreStage.step_registry (env.answering a) service
            s.world (fun ctx r h => hResolve ⟨ctx, r, h⟩)
        have hUuid :=
          (StoreStage.step_effect (env.answering a) service
            s.world st).nextUuid_le
        have hNone :
            st.resolves
              (st.step (env.answering a) service
                s.world).2 = [] := by
          cases st with
          | resolve ctx r => exact absurd ⟨ctx, r, rfl⟩ hResolve
          | _ => rfl
        rw [hNone, List.append_nil]
        refine hs.quiet hSame hUuid ?_
        intro ctx r hStage
        rcases StoreStage.step_eq_resolve
            (fun ctx r h => hResolve ⟨ctx, r, h⟩) hStage with
          ⟨_, _, rfl⟩
        refine ⟨Or.inl rfl, fun e he => ?_, by simp, by simp⟩
        exact (grows_of_sameRegistry hSame).keeps _
          (Sqlite.hasKey_of_mem_getAllEntities he)

------------------------------------------------------------
-- One Resolution at a Time
------------------------------------------------------------

/-
  At most one resolution is under way, and the name that it
  is about to write is nobody's.
-/
structure Alone
    (env : Env Vec F)
    (s : Resolvers Vec F) : Prop where
  one :
    ∀ i j st st', s.calls i = some st →
      s.calls j = some st' → st.resolving = true →
        st'.resolving = true → i = j
  free :
    ∀ i ctx r, s.calls i = some (.resolve ctx r) →
      r.phase ≠ .exact →
        (∀ entity v, r.phase ≠ .point entity v) →
          ∀ id, ¬ s.world.db.Owns id (r.current env)

omit [LE F] [LT F] [DecidableLE F] [DecidableLT F] in
/- A write of the only resolution claims no other's name. -/
theorem Alone.unclaimed
    (hs : Alone env s)
    (e : Event Vec F) :
    Unclaimed env s e := by
  cases e with
  | step i a =>
      intro ctx r hCall
      refine ⟨fun v hPhase => ?_, fun entity hPhase id h => ?_⟩
      · exact hs.free i ctx r hCall (by simp [hPhase])
          (by simp [hPhase])
      · exact absurd h
          (hs.free i ctx r hCall (by simp [hPhase])
            (by simp [hPhase]) id)
  | _ => trivial

omit [LE F] [LT F] [DecidableLE F] [DecidableLT F] in
/- Another stage for one call, with the registry as it is. -/
private theorem Alone.quiet
    {w : World Vec} {i : Nat} {st : StoreStage Vec F}
    {resolutions : List Resolution}
    {stored : List (StoreContext Vec F)}
    (hs : Alone env s)
    (hSame : SameRegistry s.world.db w.db)
    (hOthers :
      st.resolving = true → ∀ j st', s.calls j = some st' →
        st'.resolving = true → j = i)
    (hFree :
      ∀ ctx r, st = .resolve ctx r → r.phase ≠ .exact →
        (∀ entity v, r.phase ≠ .point entity v) →
          ∀ id, ¬ s.world.db.Owns id (r.current env)) :
    Alone env
      { world := w
        calls := Function.update s.calls i (some st)
        resolutions := resolutions
        stored := stored } where
  one j k st₁ st₂ h₁ h₂ hJ hK := by
    rcases call_cases h₁ with ⟨rfl, rfl⟩ | ⟨_, hOld₁⟩
    · rcases call_cases h₂ with ⟨rfl, _⟩ | ⟨_, hOld₂⟩
      · rfl
      · exact (hOthers hJ k st₂ hOld₂ hK).symm
    · rcases call_cases h₂ with ⟨rfl, rfl⟩ | ⟨_, hOld₂⟩
      · exact hOthers hK j st₁ hOld₁ hJ
      · exact hs.one j k st₁ st₂ hOld₁ hOld₂ hJ hK
  free j ctx r hCall hExact hPoint id := by
    have hOwns :
        ∀ name, w.db.Owns id name ↔
          s.world.db.Owns id name := by
      intro name
      unfold Sqlite.Owns
      rw [hSame.entities, hSame.aliases]
    rw [hOwns]
    rcases call_cases hCall with ⟨_, hNew⟩ | ⟨hNe, hOld⟩
    · exact hFree ctx r hNew hExact hPoint id
    · exact hs.free j ctx r hOld hExact hPoint id

omit [LE F] [LT F] [DecidableLE F] [DecidableLT F] in
/- The step of the only resolution, wherever it leads. -/
private theorem Alone.only
    {w : World Vec} {i : Nat} {old st : StoreStage Vec F}
    {resolutions : List Resolution}
    {stored : List (StoreContext Vec F)}
    (hs : Alone env s)
    (hCall : s.calls i = some old)
    (hResolving : old.resolving = true)
    (hFree :
      ∀ ctx r, st = .resolve ctx r → r.phase ≠ .exact →
        (∀ entity v, r.phase ≠ .point entity v) →
          ∀ id, ¬ w.db.Owns id (r.current env)) :
    Alone env
      { world := w
        calls := Function.update s.calls i (some st)
        resolutions := resolutions
        stored := stored } where
  one j k st₁ st₂ h₁ h₂ hJ hK := by
    rcases call_cases h₁ with ⟨rfl, _⟩ | ⟨_, hOld₁⟩
    · rcases call_cases h₂ with ⟨rfl, _⟩ | ⟨_, hOld₂⟩
      · rfl
      · exact hs.one j k old st₂ hCall hOld₂ hResolving hK
    · rcases call_cases h₂ with ⟨rfl, _⟩ | ⟨_, hOld₂⟩
      · exact hs.one j k st₁ old hOld₁ hCall hJ hResolving
      · exact hs.one j k st₁ st₂ hOld₁ hOld₂ hJ hK
  free j ctx r hCall' hExact hPoint id := by
    rcases call_cases hCall' with ⟨_, hNew⟩ | ⟨hNe, hOld⟩
    · exact hFree ctx r hNew hExact hPoint id
    · exact absurd (hs.one j i _ old hOld hCall rfl hResolving)
        hNe

private theorem resolving_of_step
    {env : Env Vec F} {w : World Vec} {st : StoreStage Vec F}
    (h : (st.step env service w).2.resolving = true) :
    st.resolving = true := by
  cases st with
  | target ctx targetId =>
      simp only [StoreStage.step] at h
      split at h <;> cases h
  | insertOp ctx =>
      simp only [StoreStage.step] at h
      split at h
      · cases h
      · split at h <;> cases h
  | upsert ctx embedding opId startedAt =>
      simp only [StoreStage.step] at h
      split at h <;> cases h
  | mark ctx opId startedAt => cases h
  | commit ctx opId startedAt =>
      simp only [StoreStage.step] at h
      split at h <;> cases h
  | done result => cases h
  | _ => rfl

/- What the only resolution does keeps it the only one. -/
theorem Alone.next
    (hs : Alone env s)
    (hCoherent : Coherent env s)
    (hGuard : Sequential s e)
    (hNext : s.next env service e = some t) :
    Alone env t := by
  cases next_eq_some hNext with
  | tick d => exact ⟨hs.one, hs.free⟩
  | start i ctx hNone _ =>
      refine hs.quiet (.refl _) (fun _ j st' hCall hResolving => ?_)
        (by simp)
      rw [hGuard j st' hCall] at hResolving
      cases hResolving
  | fail i e st _ =>
      refine hs.quiet (.refl _) (fun h => ?_)
        (by simp [StoreStage.fail])
      cases h
  | step i a st hCall =>
      by_cases hResolve : ∃ ctx r, st = .resolve ctx r
      · rcases hResolve with ⟨ctx, r, rfl⟩
        refine hs.only hCall rfl ?_
        intro ctx' r' hStage hExact hPoint id
        have hMove :=
          resolveStep_move (env.answering a) s.world ctx r
        have hFree := hs.free i ctx r hCall
        rw [show (StoreStage.resolve ctx r).step
          (env.answering a) service s.world =
            resolveStep (env.answering a) s.world ctx r
          from rfl] at hStage ⊢
        generalize (resolveStep (env.answering a) s.world ctx
          r).1 = w at hMove ⊢
        generalize (resolveStep (env.answering a) s.world ctx
          r).2 = st at hMove hStage
        cases hMove with
        | similar entity hPhase _ hUnknown _ =>
            cases hStage
            exact Sqlite.not_owns_of_getEntityByName
              hCoherent.registered hUnknown id
        | unknown hPhase _ hUnknown =>
            cases hStage
            exact Sqlite.not_owns_of_getEntityByName
              hCoherent.registered hUnknown id
        | close entity hPhase _ =>
            cases hStage
            exact hFree (by simp [hPhase]) (by simp [hPhase]) id
        | distant v hPhase =>
            cases hStage
            exact hFree (by simp [hPhase]) (by simp [hPhase]) id
        | create v db entity _ _ _ _ _ =>
            cases hStage
            exact absurd rfl (hPoint entity v)
        | known entity _ _ _ =>
            exact absurd (phase_of_nextName hStage) hExact
        | point entity v q _ =>
            exact absurd (phase_of_nextName hStage) hExact
        | addAlias entity db _ _ =>
            exact absurd (phase_of_nextName hStage) hExact
        | _ => cases hStage
      · have hSame :=
          StoreStage.step_registry (env.answering a) service
            s.world (fun ctx r h => hResolve ⟨ctx, r, h⟩)
        refine hs.quiet hSame ?_ ?_
        · intro h j st' hOther hResolving
          exact hs.one j i st' st hOther hCall hResolving
            (resolving_of_step h)
        · intro ctx r hStage hExact _
          rcases StoreStage.step_eq_resolve
              (fun ctx r h => hResolve ⟨ctx, r, h⟩) hStage with
            ⟨_, _, rfl⟩
          exact absurd rfl hExact

------------------------------------------------------------
-- Runs of Resolvers
------------------------------------------------------------

omit [LE F] [LT F] [DecidableLE F] [DecidableLT F] in
theorem Start.coherent
    (hStart : Start env s) :
    Coherent env s where
  registered := hStart.registered
  single := hStart.single
  old := hStart.old
  resolutions := by simp [hStart.resolutions]
  calls := by simp [hStart.calls]

omit [LE F] [LT F] [DecidableLE F] [DecidableLT F] in
theorem Start.alone
    (hStart : Start env s) :
    Alone env s where
  one := by simp [hStart.calls]
  free := by simp [hStart.calls]

theorem Coherent.of_run
    {es : List (Event Vec F)}
    (hRun :
      ((machine env service).restrict (Unclaimed env)).Run
        s es t)
    (hStart : Coherent env s) :
    Coherent env t :=
  Machine.Run.restrict_invariant
    (M := machine env service)
    (fun _ _ _ hs hNext hGuard => hs.next hGuard hNext)
    hRun hStart

/- One at a time, resolutions claim no name of another. -/
theorem unclaimed_of_sequential
    {es : List (Event Vec F)}
    (hRun :
      ((machine env service).restrict Sequential).Run s es t)
    (hStart : Start env s) :
    ((machine env service).restrict (Unclaimed env)).Run
      s es t :=
  hRun.restrict_mono
    (M := machine env service)
    (I := fun s => Coherent env s ∧ Alone env s)
    (fun _ e _ hs hNext hGuard =>
      ⟨hs.1.next (hs.2.unclaimed e) hNext,
        hs.2.next hs.1 hGuard hNext⟩)
    (fun _ e hs _ => hs.2.unclaimed e)
    ⟨hStart.coherent, hStart.alone⟩

omit [LE F] [LT F] [DecidableLE F] [DecidableLT F] in
/- A name has resolved to the same entity every time. -/
theorem Coherent.same
    (hs : Coherent env s)
    {p q : Resolution}
    (hp : p ∈ s.resolutions)
    (hq : q ∈ s.resolutions)
    (hName :
      Entity.normalize env p.name =
        Entity.normalize env q.name) :
    p.entity.id = q.entity.id := by
  have hP := (hs.resolutions p hp).2
  have hQ := (hs.resolutions q hq).2
  rw [hName] at hP
  exact hs.single _ _ _ hP hQ

omit [LE F] [DecidableLE F] in
/- A name that was resolved is found at its first lookup. -/
theorem Coherent.again
    (hs : Coherent env s)
    {p : Resolution}
    (hp : p ∈ s.resolutions)
    (a : Answers Vec F)
    (ctx : StoreContext Vec F)
    {r : Resolving Vec}
    (hPhase : r.phase = .exact)
    (hName :
      Entity.normalize env p.name = r.current env) :
    ∃ entity, entity.id = p.entity.id ∧
      (resolveStep (env.answering a) s.world ctx r).2 =
        nextName ctx r entity := by
  rcases hs.resolutions p hp with ⟨hNonempty, hOwns⟩
  rw [hName] at hNonempty hOwns
  have hMove :=
    resolveStep_move (env.answering a) s.world ctx r
  have hKnown :
      s.world.db.getEntityByName (r.current env) ≠ none :=
    fun hNone =>
      Sqlite.not_owns_of_getEntityByName hs.registered hNone
        _ hOwns
  generalize (resolveStep (env.answering a) s.world ctx
    r).1 = w at hMove
  generalize (resolveStep (env.answering a) s.world ctx
    r).2 = st at hMove ⊢
  cases hMove with
  | empty _ hEmpty =>
      exact absurd (hNonempty.symm.trans hEmpty) (by simp)
  | known entity _ _ hFound =>
      exact ⟨entity, hs.single _ _ _
        (Sqlite.owns_of_getEntityByName hFound) hOwns, rfl⟩
  | similar _ _ _ hUnknown _ => exact absurd hUnknown hKnown
  | unknown _ _ hUnknown => exact absurd hUnknown hKnown
  | close _ hOther _ => cases hPhase.symm.trans hOther
  | distant _ hOther => cases hPhase.symm.trans hOther
  | create _ _ _ hOther => cases hPhase.symm.trans hOther
  | point _ _ _ hOther => cases hPhase.symm.trans hOther
  | addAlias _ _ hOther => cases hPhase.symm.trans hOther
  | refused _ _ _ hOther => cases hPhase.symm.trans hOther
  | orphan _ _ hOther => cases hPhase.symm.trans hOther
  | unreachable _ hOther _ =>
      rcases hOther with hOther | ⟨_, _, hOther⟩
      · cases hPhase.symm.trans hOther
      · cases hPhase.symm.trans hOther

/-
  Resolutions that run one after the other, from an empty
  registry: a name has one owner, it has resolved to one
  entity, and it will resolve to that one again.
-/
theorem registry_single_owner
    {w : World Vec} {es : List (Event Vec F)}
    (hRun :
      ((machine env service).restrict Sequential).Run
        (onEmpty w) es s) :
    s.world.db.SingleOwner ∧
      (∀ p ∈ s.resolutions, ∀ q ∈ s.resolutions,
        Entity.normalize env p.name =
            Entity.normalize env q.name →
          p.entity.id = q.entity.id) ∧
      ∀ i ctx r a, s.calls i = some (.resolve ctx r) →
        r.phase = .exact → ∀ p ∈ s.resolutions,
          Entity.normalize env p.name = r.current env →
            ∃ entity, entity.id = p.entity.id ∧
              (resolveStep (env.answering a) s.world
                ctx r).2 = nextName ctx r entity := by
  have hStart := start_onEmpty (F := F) env w
  have hs :=
    (Coherent.of_run (unclaimed_of_sequential hRun hStart)
      hStart.coherent)
  exact ⟨hs.single,
    fun _ hp _ hq hName => hs.same hp hq hName,
    fun _ ctx _ a _ hPhase _ hp hName =>
      hs.again hp a ctx hPhase hName⟩

/-
  Whatever makes a step of the i-th call fail is in its own
  request: an empty name, or a namespace that is none.
-/
def FailsAlone
    (env : Env Vec F)
    (s : Resolvers Vec F)
    (i : Nat)
    (t : Resolvers Vec F) : Prop :=
  ∀ ctx r e, s.calls i = some (.resolve ctx r) →
    t.calls i = some (.done (.error e)) →
      (r.current env).isEmpty = true ∨
        ensureCollection ctx.namespace ≠ .ok ()

/-
  In a state of a machine no resolution is disturbed by
  another one: their steps do not fail because of it, the
  same name has come to the same entity, and no name or
  alias belongs to two.
-/
structure Harmonious
    (env : Env Vec F)
    (M : Machine (Resolvers Vec F) (Event Vec F))
    (s : Resolvers Vec F) : Prop where
  alone :
    ∀ i a t, M.step s (.step i a) t → FailsAlone env s i t
  same :
    ∀ p ∈ s.resolutions, ∀ q ∈ s.resolutions,
      Entity.normalize env p.name =
          Entity.normalize env q.name →
        p.entity.id = q.entity.id
  single : s.world.db.SingleOwner

/-
  Concurrent resolutions that write no name that another one
  has claimed meanwhile do not disturb each other.
-/
theorem concurrent_resolution
    (hReach :
      ((machine env service).restrict
        (Unclaimed env)).Reachable s) :
    Harmonious env
      ((machine env service).restrict (Unclaimed env)) s := by
  rcases hReach with ⟨s₀, es, hStart, hRun⟩
  have hs := Coherent.of_run hRun (Start.coherent hStart)
  refine ⟨?_, fun _ hp _ hq hName => hs.same hp hq hName,
    hs.single⟩
  intro i a t hStep ctx r e hCall hDone
  rcases hStep with ⟨hNext, hGuard⟩
  have hKept := kept_step hs hGuard hCall
  cases next_eq_some hNext with
  | step _ _ st hCall' =>
      cases hCall.symm.trans hCall'
      rcases call_cases hDone with ⟨_, hError⟩ | ⟨hNe, _⟩
      · exact hKept.alone e hError
      · exact absurd rfl hNe

end Steps

------------------------------------------------------------
-- Resolvers to Run
------------------------------------------------------------

theorem run_of_any
    (env : Env Vec F)
    (service : MemoryService F)
    (s : Resolvers Vec F)
    (es : List (Event Vec F))
    (test : Resolvers Vec F → Bool)
    (h : (es.foldlM (next env service) s).any test = true) :
    ∃ t, (machine env service).Run s es t ∧
      test t = true :=
  Machine.Run.of_any (machine env service).initial s es test h

omit [LE F] [LT F] [DecidableLE F] [DecidableLT F] in
/- Whether a step claims a name that is still free. -/
def unclaimed
    (env : Env Vec F)
    (s : Resolvers Vec F) : Event Vec F → Bool
| .step i _ =>
    match s.calls i with
    | some (.resolve _ r) =>
        match r.phase with
        | .create _ =>
            (s.world.db.owners (r.current env)).isEmpty
        | .addAlias entity =>
            (s.world.db.owners (r.current env)).all
              (fun id => id == entity.id)
        | _ => true
    | _ => true
| _ => true

omit [LE F] [LT F] [DecidableLE F] [DecidableLT F] in
theorem unclaimed_of_check
    (env : Env Vec F)
    (s : Resolvers Vec F)
    (e : Event Vec F)
    (h : unclaimed env s e = true) :
    Unclaimed env s e := by
  cases e with
  | step i a =>
      intro ctx r hCall
      simp only [unclaimed, hCall] at h
      constructor
      · intro v hPhase id hOwns
        rw [hPhase] at h
        have hMem := Sqlite.mem_owners_iff.mpr hOwns
        rw [List.isEmpty_iff.mp h] at hMem
        cases hMem
      · intro entity hPhase id hOwns
        rw [hPhase] at h
        have hMem := Sqlite.mem_owners_iff.mpr hOwns
        simpa using List.all_eq_true.mp h id hMem
  | _ => trivial

theorem unclaimed_of_any
    (env : Env Vec F)
    (service : MemoryService F)
    (s : Resolvers Vec F)
    (es : List (Event Vec F))
    (test : Resolvers Vec F → Bool)
    (h :
      (es.foldlM
        (Machine.checked (next env service)
          (unclaimed env)) s).any test = true) :
    ∃ t,
      ((machine env service).restrict (Unclaimed env)).Run
        s es t ∧ test t = true :=
  Machine.Run.restrict_of_any (machine env service).initial s
    es test (unclaimed_of_check env) h

def Answers.plain : Answers String Rat where
  embed := id
  nearest := Env.plainNearest
  jaroWinkler := Env.plain.jaroWinkler

def emptyWorld : World String :=
  (System.empty : System String Rat).world

/- The context of a note with entities, past its checks. -/
def plainContext
    (entities : List String) : StoreContext String Rat :=
  Embed.run Env.plain
    (newContext Env.plain MemoryService.plain emptyWorld
      { StoreRequest.note "a runtime" with
        entities := entities })

/- One request names an entity twice. -/
theorem registry_single_owner_two_names :
    ∃ (s : Resolvers String Rat) (p q : Resolution),
      s.resolutions[0]? = some p ∧ p.name = "Tokio" ∧
        s.resolutions[1]? = some q ∧ q.name = "tokio" ∧
          p.entity.id = q.entity.id := by
  let first : Resolvers String Rat :=
    { onEmpty emptyWorld with
      calls :=
        Function.update (fun _ => none) 0
          (some (.entities
            (plainContext ["Tokio", "tokio"]))) }
  let steps : List (Event String Rat) :=
    List.replicate 6 (.step 0 Answers.plain)
  rcases run_of_any Env.plain MemoryService.plain first steps
    (fun s =>
      (s.resolutions[0]?).any (fun p => p.name == "Tokio") &&
        (s.resolutions[1]?).any
          (fun q => q.name == "tokio"))
    (by decide +kernel) with ⟨s, hSteps, hTest⟩
  have hRun :
      ((machine Env.plain MemoryService.plain).restrict
        Sequential).Run (onEmpty emptyWorld)
          (.start 0 (plainContext ["Tokio", "tokio"]) ::
            steps) s := by
    refine Machine.Run.cons
      (t := first) ⟨rfl, fun _ _ h => by cases h⟩ ?_
    refine Machine.Run.restrict hSteps Sequential ?_
    intro e he s
    rw [List.eq_of_mem_replicate he]
    trivial
  rw [Bool.and_eq_true] at hTest
  rcases (Option.any_eq_true _ _).mp hTest.1 with
    ⟨p, hp, hP⟩
  rcases (Option.any_eq_true _ _).mp hTest.2 with
    ⟨q, hq, hQ⟩
  rw [beq_iff_eq] at hP hQ
  refine ⟨s, p, q, hp, hP, hq, hQ, ?_⟩
  refine (registry_single_owner hRun).2.1
    p (List.mem_of_getElem? hp) q (List.mem_of_getElem? hq) ?_
  rw [hP, hQ]
  decide +kernel

/- Two requests with one name, the second one later. -/
theorem concurrent_resolution_two_calls :
    ∃ (s : Resolvers String Rat) (p q : Resolution),
      s.resolutions[0]? = some p ∧ p.name = "Tokio" ∧
        s.resolutions[1]? = some q ∧ q.name = "tokio" ∧
          p.entity.id = q.entity.id := by
  rcases unclaimed_of_any Env.plain MemoryService.plain
    (onEmpty emptyWorld)
    (.start 0 (plainContext ["Tokio"]) ::
      .start 1 (plainContext ["tokio"]) ::
        (List.replicate 5 (.step 0 Answers.plain) ++
          List.replicate 2 (.step 1 Answers.plain)))
    (fun s =>
      (s.resolutions[0]?).any (fun p => p.name == "Tokio") &&
        (s.resolutions[1]?).any
          (fun q => q.name == "tokio"))
    (by decide +kernel) with ⟨s, hRun, hTest⟩
  rw [Bool.and_eq_true] at hTest
  rcases (Option.any_eq_true _ _).mp hTest.1 with
    ⟨p, hp, hP⟩
  rcases (Option.any_eq_true _ _).mp hTest.2 with
    ⟨q, hq, hQ⟩
  rw [beq_iff_eq] at hP hQ
  refine ⟨s, p, q, hp, hP, hq, hQ, ?_⟩
  have hReach :
      ((machine Env.plain MemoryService.plain).restrict
        (Unclaimed Env.plain)).Reachable s :=
    ⟨_, _, start_onEmpty Env.plain emptyWorld, hRun⟩
  have hHarmony := concurrent_resolution hReach
  refine hHarmony.same
    p (List.mem_of_getElem? hp) q (List.mem_of_getElem? hq) ?_
  rw [hP, hQ]
  decide +kernel

private def failed
    (i : Nat)
    (t : Resolvers String Rat) : Bool :=
  match t.calls i with
  | some (.done (.error _)) => true
  | _ => false

/- The i-th call resolves a proper name in a namespace. -/
private def proper
    (i : Nat)
    (s : Resolvers String Rat) : Bool :=
  match s.calls i with
  | some (.resolve ctx r) =>
      !(r.current Env.plain).isEmpty &&
        (match ensureCollection ctx.namespace with
          | .ok () => true
          | .error _ => false)
  | _ => false

private theorem not_failsAlone
    {i : Nat} {s t : Resolvers String Rat}
    (hProper : proper i s = true)
    (hFailed : failed i t = true) :
    ¬ FailsAlone Env.plain s i t := by
  intro hAlone
  unfold proper at hProper
  unfold failed at hFailed
  split at hProper
  · rename_i ctx r hCall
    split at hFailed
    · rename_i e hDone
      rw [Bool.and_eq_true, Bool.not_eq_true'] at hProper
      rcases hAlone ctx r e hCall hDone with hEmpty | hCause
      · exact absurd (hProper.1.symm.trans hEmpty) (by simp)
      · have hEnsure := hProper.2
        split at hEnsure
        · rename_i hOk
          exact hCause hOk
        · cases hEnsure
    · cases hFailed
  · cases hProper

/- Two requests with one new name, at the same time. -/
theorem resolution_refused :
    ¬ ∀ s : Resolvers String Rat,
        (machine Env.plain MemoryService.plain).Reachable s →
          Harmonious Env.plain
            (machine Env.plain MemoryService.plain) s := by
  intro hClaim
  rcases run_of_any Env.plain MemoryService.plain
    (onEmpty emptyWorld)
    (.start 0 (plainContext ["Tokio"]) ::
      .start 1 (plainContext ["Tokio"]) ::
        (List.replicate 3 (.step 0 Answers.plain) ++
          List.replicate 3 (.step 1 Answers.plain) ++
            [.step 0 Answers.plain]))
    (fun s =>
      proper 1 s &&
        (next Env.plain MemoryService.plain s
          (.step 1 Answers.plain)).any (failed 1))
    (by decide +kernel) with ⟨s, hRun, hTest⟩
  have hHarmony :=
    hClaim s ⟨_, _, start_onEmpty Env.plain emptyWorld, hRun⟩
  rw [Bool.and_eq_true] at hTest
  rcases (Option.any_eq_true _ _).mp hTest.2 with
    ⟨t, hStep, hFailed⟩
  exact not_failsAlone hTest.1 hFailed
    (hHarmony.alone 1 Answers.plain t hStep)

end Resolvers

end Core

end Ferrex
