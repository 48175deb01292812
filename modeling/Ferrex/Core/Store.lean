import Ferrex.Core.Entity
import Ferrex.Core.Pipeline

/-
  A store call as a machine of its own: the stages it goes
  through, one for each call it makes on a store, and the
  step from each of them.

  Main declarations:
    * `World`
    * `StoreStage`, `StoreStage.step`, `StoreStage.fail`
    * `store` and `store_done`
-/

------------------------------------------------------------
-- World
------------------------------------------------------------

namespace Ferrex

namespace Core

open Store

/-
  What the calls of one process share: both stores, the
  clock, and the number of UUIDs generated so far.
-/
structure World (Vec : Type) where
  db : Sqlite
  qdrant : Qdrant Vec
  clock : DateTime
  nextUuid : Nat

variable {Vec F : Type}

------------------------------------------------------------
-- Stages
------------------------------------------------------------

/- Where the resolution of one entity name is. -/
inductive ResolvePhase (Vec : Type) where
| exact
| search
| create (embedding : Vec)
| point (entity : Store.Entity) (embedding : Vec)
| addAlias (entity : Store.Entity)

/- The names still to resolve, the current one first. -/
structure Resolving (Vec : Type) where
  names : List String
  allEntities : List Store.Entity
  resolved : List Store.Entity
  phase : ResolvePhase Vec

/-
  The next call of a store request, with what has been
  computed so far.  The pending op of a write is given by
  its id and its start: see `Write.pendingOp`.
-/
inductive StoreStage (Vec F : Type) where
| ensure (req : StoreRequest)
| embed (ctx : StoreContext Vec F)
| dedup (ctx : StoreContext Vec F)
| conflict (ctx : StoreContext Vec F)
| entities (ctx : StoreContext Vec F)
| resolve (ctx : StoreContext Vec F) (r : Resolving Vec)
| target (ctx : StoreContext Vec F) (targetId : String)
| insertOp (ctx : StoreContext Vec F)
| upsert
    (ctx : StoreContext Vec F)
    (embedding : Vec)
    (opId : String)
    (startedAt : DateTime)
| mark
    (ctx : StoreContext Vec F)
    (opId : String)
    (startedAt : DateTime)
| commit
    (ctx : StoreContext Vec F)
    (opId : String)
    (startedAt : DateTime)
| done (result : Except (CoreError F) StoreResponse)

------------------------------------------------------------
-- Parts of a Step
------------------------------------------------------------

/- Validation, then the predicate of a semantic memory. -/
def validated
    (env : Env Vec F)
    (ctx : StoreContext Vec F) :
    Except (CoreError F) (StoreContext Vec F) :=
  match Validate.run env ctx with
  | .error e => .error e
  | .ok () =>
      if ctx.memoryType = .semantic then
        NormalizePredicate.run env ctx
      else
        .ok ctx

def newContext
    (env : Env Vec F)
    (service : MemoryService F)
    (w : World Vec)
    (req : StoreRequest) : StoreContext Vec F :=
  let ns := service.requestNamespace req
  StoreContext.new req ns (detectMemoryType req)
    (service.normalizer ns) service.config.deduplication
    service.config.conflict w.clock (env.uuid w.nextUuid)

/- The check that `supersede_write` makes on its target. -/
def checkTarget
    (ctx : StoreContext Vec F)
    (targetId : String)
    (db : Sqlite) : Except (CoreError F) Unit :=
  match db.getMemory targetId with
  | none =>
      .error (.validation
        s!"supersedes target not found: {targetId}")
  | some target =>
      if target.namespace ≠ ctx.namespace then
        .error (.validation
          s!"supersedes target {targetId} is in namespace {target.namespace}, not {ctx.namespace}")
      else if target.tInvalid.isSome then
        .error (.validation
          s!"supersedes target {targetId} is already invalidated")
      else
        .ok ()

def afterEntities
    (ctx : StoreContext Vec F) : StoreStage Vec F :=
  match ctx.req.supersedes with
  | some targetId => .target ctx targetId
  | none => .insertOp ctx

/- The current name is resolved to an entity. -/
def nextName
    (ctx : StoreContext Vec F)
    (r : Resolving Vec)
    (entity : Store.Entity) : StoreStage Vec F :=
  let allEntities :=
    if Table.HasKey Store.Entity.id entity.id
        r.allEntities then
      r.allEntities
    else
      r.allEntities ++ [entity]
  let resolved := r.resolved ++ [entity]
  match r.names.tail with
  | [] =>
      afterEntities { ctx with resolvedEntities := resolved }
  | names =>
      .resolve ctx ⟨names, allEntities, resolved, .exact⟩

/- The 0.92 that an entity's similarity has to exceed. -/
def embeddingMatchThreshold (env : Env Vec F) : F :=
  env.toF32 (92 / 100)

def entityFilter (payload : Payload) : Bool :=
  decide (¬ payload.IsMemory)

def entityPayload
    (entity : Store.Entity)
    (ns : String) : Payload :=
  .entity entity.id entity.name ns

/- The entity that an embedding search settles on. -/
def embeddingMatch [LT F] [DecidableLT F]
    (env : Env Vec F)
    (allEntities : List Store.Entity)
    (results : List (String × F)) : Option Store.Entity :=
  match results with
  | [] => none
  | (pointId, score) :: _ =>
      if embeddingMatchThreshold env < score then
        Entity.findEntityByPointId allEntities pointId
      else
        none

/- One call of `resolve_single` for the current name. -/
def resolveStep [LT F] [DecidableLT F]
    (env : Env Vec F)
    (w : World Vec)
    (ctx : StoreContext Vec F)
    (r : Resolving Vec) : World Vec × StoreStage Vec F :=
  let normalized :=
    Entity.normalize env (r.names.head?.getD "")
  match r.phase with
  | .exact =>
      if normalized.isEmpty then
        (w, .done (.error
          (.validation "empty entity name")))
      else
        match w.db.getEntityByName normalized with
        | some entity => (w, nextName ctx r entity)
        | none =>
            match Entity.bestFuzzyMatch env normalized
                r.allEntities fuzzyThreshold with
            | some best =>
                (w, .resolve ctx
                  { r with phase := .addAlias best.1 })
            | none =>
                (w, .resolve ctx { r with phase := .search })
  | .search =>
      let embedding := env.embed normalized
      match w.qdrant.searchDense env.nearest ctx.namespace
          embedding 1 entityFilter with
      | .error e => (w, .done (.error (.store e)))
      | .ok results =>
          match embeddingMatch env r.allEntities results with
          | some entity =>
              (w, .resolve ctx
                { r with phase := .addAlias entity })
          | none =>
              (w, .resolve ctx
                { r with phase := .create embedding })
  | .create embedding =>
      let entity : Store.Entity :=
        { id := env.uuid w.nextUuid
          name := normalized
          aliases := []
          entityType := none
          createdAt := w.clock
          updatedAt := w.clock }
      let w := { w with nextUuid := w.nextUuid + 1 }
      match w.db.insertEntity entity with
      | .error e => (w, .done (.error (.store e)))
      | .ok db =>
          ({ w with db := db }, .resolve ctx
            { r with phase := .point entity embedding })
  | .point entity embedding =>
      match w.qdrant.upsert ctx.namespace entity.id embedding
          entity.name (entityPayload entity ctx.namespace)
      with
      | .error e => (w, .done (.error (.store e)))
      | .ok qdrant =>
          ({ w with qdrant := qdrant },
            nextName ctx r entity)
  | .addAlias entity =>
      match w.db.addEntityAlias entity.id normalized w.clock
      with
      | .error e => (w, .done (.error (.store e)))
      | .ok db =>
          ({ w with db := db }, nextName ctx r entity)

------------------------------------------------------------
-- Steps
------------------------------------------------------------

namespace StoreStage

variable [LE F] [LT F] [DecidableLE F] [DecidableLT F]

/- The next call, when both stores answer it. -/
def step
    (env : Env Vec F)
    (service : MemoryService F)
    (w : World Vec) :
    StoreStage Vec F → World Vec × StoreStage Vec F
| .ensure req =>
    match ensureCollection (service.requestNamespace req) with
    | .error e => (w, .done (.error (.store e)))
    | .ok () =>
        let ctx := newContext env service w req
        let w := { w with nextUuid := w.nextUuid + 1 }
        match validated env ctx with
        | .error e => (w, .done (.error e))
        | .ok ctx => (w, .embed ctx)
| .embed ctx =>
    let ctx := Embed.run env ctx
    if ctx.req.supersedes.isSome then
      (w, .entities ctx)
    else
      (w, .dedup ctx)
| .dedup ctx =>
    match Dedup.run env ctx w.qdrant with
    | .error e => (w, .done (.error e))
    | .ok () => (w, .conflict ctx)
| .conflict ctx =>
    match Conflict.run env ctx w.db with
    | .error e => (w, .done (.error e))
    | .ok ctx => (w, .entities ctx)
| .entities ctx =>
    if ctx.req.entities.isEmpty then
      (w, afterEntities ctx)
    else
      match ensureCollection ctx.namespace with
      | .error e => (w, .done (.error (.store e)))
      | .ok () =>
          (w, .resolve ctx
            ⟨ctx.req.entities, w.db.getAllEntities, [],
              .exact⟩)
| .resolve ctx r => resolveStep env w ctx r
| .target ctx targetId =>
    match checkTarget ctx targetId w.db with
    | .error e => (w, .done (.error e))
    | .ok () => (w, .insertOp ctx)
| .insertOp ctx =>
    match ctx.embedding with
    | none =>
        (w, .done (.error
          (.validation "write stage requires embedding")))
    | some embedding =>
        let opId := env.uuid w.nextUuid
        let w := { w with nextUuid := w.nextUuid + 1 }
        match w.db.insertPendingOp
            (Write.pendingOp ctx opId w.clock) with
        | .error e => (w, .done (.error (.store e)))
        | .ok db =>
            ({ w with db := db },
              .upsert ctx embedding opId w.clock)
| .upsert ctx embedding opId startedAt =>
    match w.qdrant.upsert ctx.namespace ctx.id embedding
        (ctx.searchText.getD "") (Write.payload env ctx) with
    | .error e => (w, .done (.error (.store e)))
    | .ok qdrant =>
        ({ w with qdrant := qdrant },
          .mark ctx opId startedAt)
| .mark ctx opId startedAt =>
    ({ w with db := w.db.markPendingOpQdrantWritten opId },
      .commit ctx opId startedAt)
| .commit ctx opId startedAt =>
    -- one transaction; the cache's generation follows it
    match w.db.commitMemoryWrite (Write.buildMemory env ctx)
        (ctx.resolvedEntities.map Store.Entity.id)
        (Write.invalidateIds ctx) ctx.now
        ((Write.pendingOp ctx opId startedAt).intoCompleted
          ctx.id ctx.namespace w.clock) with
    | .error e => (w, .done (.error (.store e)))
    | .ok db =>
        ({ w with db := db },
          .done (.ok (Write.response env ctx)))
| .done result => (w, .done result)

/- The stages whose step calls the model or a store. -/
def calls : StoreStage Vec F → Bool
| .dedup ctx => ctx.memoryType ≠ .semantic
| .conflict ctx => ctx.memoryType = .semantic
| .entities ctx => !ctx.req.entities.isEmpty
| .done _ => false
| _ => true

/- The next call fails: nothing is written, the call ends. -/
def fail (e : CoreError F) : StoreStage Vec F :=
  .done (.error e)

end StoreStage

------------------------------------------------------------
-- Contexts Along the Stages
------------------------------------------------------------

/- What no stage changes once a context exists. -/
structure SameCall (ctx ctx' : StoreContext Vec F) :
    Prop where
  req : ctx'.req = ctx.req
  «namespace» : ctx'.namespace = ctx.namespace
  memoryType : ctx'.memoryType = ctx.memoryType
  now : ctx'.now = ctx.now
  id : ctx'.id = ctx.id

theorem SameCall.refl (ctx : StoreContext Vec F) :
    SameCall ctx ctx :=
  ⟨rfl, rfl, rfl, rfl, rfl⟩

theorem SameCall.trans
    {ctx₁ ctx₂ ctx₃ : StoreContext Vec F}
    (h₁ : SameCall ctx₁ ctx₂)
    (h₂ : SameCall ctx₂ ctx₃) :
    SameCall ctx₁ ctx₃ :=
  ⟨h₂.req.trans h₁.req,
    h₂.namespace.trans h₁.namespace,
    h₂.memoryType.trans h₁.memoryType,
    h₂.now.trans h₁.now, h₂.id.trans h₁.id⟩

/- Validation only adds the normalized predicate. -/
theorem validated_eq_ok
    {env : Env Vec F} {ctx ctx' : StoreContext Vec F}
    (h : validated env ctx = .ok ctx') :
    ∃ p, ctx' = { ctx with normalizedPredicate := p } := by
  unfold validated at h
  split at h
  · cases h
  · split at h
    · unfold NormalizePredicate.run at h
      split at h
      · cases h
        exact ⟨_, rfl⟩
      · split at h
        · cases h
        · cases h
          exact ⟨_, rfl⟩
    · cases h
      exact ⟨_, rfl⟩

theorem validated_eq_error
    {env : Env Vec F} {ctx : StoreContext Vec F}
    {e : CoreError F}
    (h : validated env ctx = .error e) :
    ∃ message, e = .validation message := by
  unfold validated NormalizePredicate.run at h
  grind [Validate.run_eq_error]

theorem Conflict.classify_eq_noConflict [LE F] [LT F]
    [DecidableLE F] [DecidableLT F]
    {env : Env Vec F} {object : String} {found : List Memory}
    {config : ConflictConfig F}
    (h : classify env object found config = .noConflict) :
    found = [] := by
  cases found with
  | nil => rfl
  | cons m ms =>
      cases ms with
      | nil =>
          simp only [classify] at h
          split at h
          · cases h
          · split at h
            · cases h
            · split at h <;> cases h
      | cons m₂ ms => cases h

theorem Conflict.classify_eq_update [LE F] [LT F]
    [DecidableLE F] [DecidableLT F]
    {env : Env Vec F} {object id : String} {found : List Memory}
    {config : ConflictConfig F}
    (h : classify env object found config = .update id) :
    ∃ m, found = [m] ∧ m.id = id := by
  cases found with
  | nil => cases h
  | cons m ms =>
      cases ms with
      | nil =>
          simp only [classify] at h
          split at h
          · cases h
          · split at h
            · cases h
            · split at h <;> cases h
              exact ⟨m, rfl, rfl⟩
      | cons m₂ ms => cases h

/- The conflict check only adds superseded ids. -/
theorem Conflict.run_eq_ok [LE F] [LT F] [DecidableLE F]
    [DecidableLT F]
    {env : Env Vec F} {ctx ctx' : StoreContext Vec F}
    {db : Sqlite}
    (h : Conflict.run env ctx db = .ok ctx') :
    ∃ ids, ctx' =
      { ctx with
        supersededIds := ctx.supersededIds ++ ids } := by
  unfold Conflict.run at h
  split at h
  · cases h
    exact ⟨[], by simp⟩
  · split at h
    · cases h
    · split at h <;> cases h
      · exact ⟨[], by simp⟩
      · exact ⟨_, rfl⟩

/-
  After its last entity a call goes on to its target or its
  write, with the names resolved.
-/
theorem nextName_eq
    (ctx : StoreContext Vec F)
    (r : Resolving Vec)
    (entity : Store.Entity) :
    (∃ r', nextName ctx r entity = .resolve ctx r' ∧
      r'.names = r.names.tail ∧ r'.phase = .exact ∧
      r'.names ≠ []) ∨
    (∃ ctx', nextName ctx r entity = afterEntities ctx' ∧
      SameCall ctx ctx') := by
  unfold nextName
  cases hTail : r.names.tail with
  | nil => exact Or.inr ⟨_, rfl, ⟨rfl, rfl, rfl, rfl, rfl⟩⟩
  | cons name names =>
      exact Or.inl ⟨_, rfl, rfl, rfl, by simp⟩

------------------------------------------------------------
-- A Call on Its Own
------------------------------------------------------------

namespace ResolvePhase

def weight : ResolvePhase Vec → Nat
| .exact => 5
| .search => 4
| .create _ => 3
| .point _ _ => 2
| .addAlias _ => 1

theorem weight_pos (phase : ResolvePhase Vec) :
    0 < phase.weight := by
  cases phase <;> simp [weight]

end ResolvePhase

namespace StoreStage

/- A bound on the steps that are left. -/
def stepsLeft : StoreStage Vec F → Nat
| .ensure req => 5 * req.entities.length + 11
| .embed ctx => 5 * ctx.req.entities.length + 10
| .dedup ctx => 5 * ctx.req.entities.length + 9
| .conflict ctx => 5 * ctx.req.entities.length + 8
| .entities ctx => 5 * ctx.req.entities.length + 7
| .resolve _ r =>
    5 * (r.names.length - 1) + r.phase.weight + 5
| .target _ _ => 5
| .insertOp _ => 4
| .upsert .. => 3
| .mark .. => 2
| .commit .. => 1
| .done _ => 0

private theorem stepsLeft_afterEntities
    (ctx : StoreContext Vec F) :
    (afterEntities ctx).stepsLeft ≤ 5 := by
  unfold afterEntities
  split <;> simp [stepsLeft]

private theorem stepsLeft_nextName
    (ctx : StoreContext Vec F)
    (r : Resolving Vec)
    (entity : Store.Entity) :
    (nextName ctx r entity).stepsLeft ≤
      5 * (r.names.length - 1) + 5 := by
  rcases nextName_eq ctx r entity with
    ⟨r', hEq, hNames, hPhase, hNil⟩ | ⟨ctx', hEq, _⟩
  · have hPos := List.length_pos_of_ne_nil hNil
    have hTail := congrArg List.length hNames
    rw [List.length_tail] at hTail
    rw [hEq]
    simp only [stepsLeft, hPhase, ResolvePhase.weight]
    omega
  · have hLast := stepsLeft_afterEntities ctx'
    rw [hEq]
    omega

private theorem stepsLeft_resolve
    (ctx : StoreContext Vec F)
    (r : Resolving Vec) :
    (resolve ctx r).stepsLeft =
      5 * (r.names.length - 1) + r.phase.weight + 5 :=
  rfl

variable [LE F] [LT F] [DecidableLE F] [DecidableLT F]
variable {env : Env Vec F} {service : MemoryService F}

omit [LE F] [DecidableLE F] in
private theorem resolveStep_stepsLeft
    (w : World Vec)
    (ctx : StoreContext Vec F)
    (r : Resolving Vec) :
    (resolveStep env w ctx r).2.stepsLeft <
      (resolve ctx r).stepsLeft := by
  have hNext := stepsLeft_nextName ctx r
  have hPos := r.phase.weight_pos
  rw [stepsLeft_resolve]
  unfold resolveStep
  cases hPhase : r.phase with
  | exact =>
      dsimp only
      split
      · simp [stepsLeft]
      · split
        · rename_i entity _
          have hEntity := hNext entity
          simp only [ResolvePhase.weight]
          omega
        · split <;>
            simp [stepsLeft, ResolvePhase.weight]
  | search =>
      dsimp only
      split
      · simp [stepsLeft]
      · split <;>
          simp [stepsLeft, ResolvePhase.weight]
  | create embedding =>
      dsimp only
      split <;>
        simp [stepsLeft, ResolvePhase.weight]
  | point entity embedding =>
      have hEntity := hNext entity
      dsimp only
      split
      · simp [stepsLeft]
      · simp only [ResolvePhase.weight]
        omega
  | addAlias entity =>
      have hEntity := hNext entity
      dsimp only
      split
      · simp [stepsLeft]
      · simp only [ResolvePhase.weight]
        omega

/- Every step of a call brings it closer to its end. -/
theorem step_stepsLeft
    (env : Env Vec F)
    (service : MemoryService F)
    (w : World Vec)
    {st : StoreStage Vec F}
    (hDone : ∀ result, st ≠ .done result) :
    (step env service w st).2.stepsLeft < st.stepsLeft := by
  cases st with
  | ensure req =>
      simp only [step]
      split
      · simp [stepsLeft]
      · split
        · simp [stepsLeft]
        · rename_i ctx hValid
          rcases validated_eq_ok hValid with ⟨p, rfl⟩
          simp [stepsLeft, newContext, StoreContext.new]
  | embed ctx =>
      simp only [step]
      split <;> simp [stepsLeft, Embed.run]
  | dedup ctx =>
      simp only [step]
      split <;> simp [stepsLeft]
  | conflict ctx =>
      simp only [step]
      split
      · simp [stepsLeft]
      · rename_i ctx' hRun
        rcases Conflict.run_eq_ok hRun with ⟨ids, rfl⟩
        simp [stepsLeft]
  | entities ctx =>
      have hAfter := stepsLeft_afterEntities ctx
      have hLeft :
          (entities ctx).stepsLeft =
            5 * ctx.req.entities.length + 7 :=
        rfl
      rw [hLeft]
      simp only [step]
      split
      · dsimp only
        omega
      · rename_i hNames
        have hPos :=
          List.length_pos_of_ne_nil
            (mt List.isEmpty_iff.mpr hNames)
        split
        · simp [stepsLeft]
        · simp only [stepsLeft, ResolvePhase.weight]
          omega
  | resolve ctx r => exact resolveStep_stepsLeft w ctx r
  | target ctx targetId =>
      simp only [step]
      split <;> simp [stepsLeft]
  | insertOp ctx =>
      simp only [step]
      split
      · simp [stepsLeft]
      · split <;> simp [stepsLeft]
  | upsert ctx embedding opId startedAt =>
      simp only [step]
      split <;> simp [stepsLeft]
  | mark ctx opId startedAt => simp [step, stepsLeft]
  | commit ctx opId startedAt =>
      simp only [step]
      split <;> simp [stepsLeft]
  | done result => exact absurd rfl (hDone result)

/- Some number of steps of one call, one after the other. -/
def steps
    (env : Env Vec F)
    (service : MemoryService F) :
    Nat → World Vec → StoreStage Vec F →
      World Vec × StoreStage Vec F
| 0, w, st => (w, st)
| n + 1, w, st =>
    let next := step env service w st
    steps env service n next.1 next.2

theorem steps_done
    (env : Env Vec F)
    (service : MemoryService F)
    {n : Nat} {w : World Vec} {st : StoreStage Vec F}
    (hSteps : st.stepsLeft ≤ n) :
    ∃ result,
      (steps env service n w st).2 = .done result := by
  induction n generalizing w st with
  | zero =>
      cases st with
      | done result => exact ⟨result, rfl⟩
      | resolve ctx r => simp [stepsLeft] at hSteps
      | _ => simp [stepsLeft] at hSteps
  | succ n ih =>
      rw [steps]
      apply ih
      cases st with
      | done result => simp [step, stepsLeft]
      | _ =>
          exact Nat.lt_succ_iff.mp
            ((step_stepsLeft env service w (by simp)).trans_le
                hSteps)

/- Steps after the end of a call change nothing. -/
theorem steps_of_done
    (n : Nat)
    (w : World Vec)
    (result : Except (CoreError F) StoreResponse) :
    steps env service n w (.done result) =
      (w, .done result) := by
  induction n with
  | zero => rfl
  | succ n ih => exact ih

/- The steps from a stage to the end of its call. -/
def finish
    (env : Env Vec F)
    (service : MemoryService F)
    (w : World Vec)
    (st : StoreStage Vec F) :
    World Vec × StoreStage Vec F :=
  steps env service st.stepsLeft w st

theorem steps_eq_finish
    {n : Nat} {w : World Vec} {st : StoreStage Vec F}
    (hSteps : st.stepsLeft ≤ n) :
    steps env service n w st = finish env service w st := by
  unfold finish
  generalize hLeft : st.stepsLeft = m
  rw [hLeft] at hSteps
  induction m using Nat.strong_induction_on
    generalizing n w st with
  | h m ih =>
      by_cases hDone : ∃ result, st = .done result
      · rcases hDone with ⟨result, rfl⟩
        rw [steps_of_done, steps_of_done]
      · have hLess :=
          step_stepsLeft env service w
            (fun result hEq => hDone ⟨result, hEq⟩)
        obtain ⟨m', rfl⟩ : ∃ m', m = m' + 1 :=
          Nat.exists_eq_succ_of_ne_zero (by omega)
        obtain ⟨n', rfl⟩ : ∃ n', n = n' + 1 :=
          Nat.exists_eq_succ_of_ne_zero (by omega)
        rw [steps, steps,
          ih _ (hLeft ▸ hLess) (n := n') (by omega) rfl,
          ih _ (hLeft ▸ hLess) (n := m') (by omega) rfl]

/- A call goes on from where a step has taken it. -/
theorem finish_step
    (w : World Vec)
    (st : StoreStage Vec F) :
    finish env service w st =
      finish env service (step env service w st).1
        (step env service w st).2 := by
  by_cases hDone : ∃ result, st = .done result
  · rcases hDone with ⟨result, rfl⟩
    rfl
  · have hLess :=
      step_stepsLeft env service w
        (fun result hEq => hDone ⟨result, hEq⟩)
    obtain ⟨m, hLeft⟩ : ∃ m, st.stepsLeft = m + 1 :=
      Nat.exists_eq_succ_of_ne_zero (by omega)
    rw [finish, hLeft, steps]
    exact steps_eq_finish (by omega)

@[simp] theorem finish_done
    (w : World Vec)
    (result : Except (CoreError F) StoreResponse) :
    finish env service w (.done result) =
      (w, .done result) :=
  rfl

/- What every step preserves holds at the end of a call. -/
theorem finish_invariant
    (env : Env Vec F)
    (service : MemoryService F)
    {I : World Vec → StoreStage Vec F → Prop}
    (hStep :
      ∀ w st, I w st →
        I (step env service w st).1 (step env service w st).2)
    {w : World Vec} {st : StoreStage Vec F}
    (hStart : I w st) :
    I (finish env service w st).1
      (finish env service w st).2 := by
  unfold finish
  generalize st.stepsLeft = n
  induction n generalizing w st with
  | zero => exact hStart
  | succ n ih => exact ih (hStep w st hStart)

/- The same for two calls at the same stage. -/
theorem finish_lockstep
    (env : Env Vec F)
    (service : MemoryService F)
    {R : World Vec → StoreStage Vec F →
      World Vec → StoreStage Vec F → Prop}
    (hStep :
      ∀ w st w' st', R w st w' st' →
        R (step env service w st).1 (step env service w st).2
          (step env service w' st').1
          (step env service w' st').2)
    {w w' : World Vec} {st : StoreStage Vec F}
    (hStart : R w st w' st) :
    R (finish env service w st).1 (finish env service w st).2
      (finish env service w' st).1
      (finish env service w' st).2 := by
  have hBoth :
      ∀ (n : Nat) (w w' : World Vec)
        (st st' : StoreStage Vec F), R w st w' st' →
          R (steps env service n w st).1
            (steps env service n w st).2
            (steps env service n w' st').1
            (steps env service n w' st').2 := by
    intro n
    induction n with
    | zero => exact fun _ _ _ _ h => h
    | succ n ih =>
        exact fun _ _ _ _ h => ih _ _ _ _ (hStep _ _ _ _ h)
  exact hBoth st.stepsLeft w w' st st hStart

end StoreStage

/- A store request from its first step to its last. -/
def store [LE F] [LT F] [DecidableLE F] [DecidableLT F]
    (env : Env Vec F)
    (service : MemoryService F)
    (w : World Vec)
    (req : StoreRequest) : World Vec × StoreStage Vec F :=
  StoreStage.finish env service w (.ensure req)

/- Run on its own, a store request always comes to an end. -/
theorem store_done [LE F] [LT F] [DecidableLE F]
    [DecidableLT F]
    (env : Env Vec F)
    (service : MemoryService F)
    (w : World Vec)
    (req : StoreRequest) :
    ∃ result, (store env service w req).2 = .done result :=
  StoreStage.steps_done env service le_rfl

end Core

end Ferrex
