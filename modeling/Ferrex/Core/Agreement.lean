import Ferrex.Core.Sequential

/-
  One store request in two worlds that agree on everything
  but the rows and points of other namespaces: past its
  checks it goes the same way in both.

  Main declarations:
    * `runChecks`
    * `Outcome`, `Agrees`
    * `finish_agrees`
-/

------------------------------------------------------------
-- Checks of a Store
------------------------------------------------------------

namespace Ferrex

namespace Core

open Store

variable {Vec F : Type}
variable {env : Env Vec F} {service : MemoryService F}
variable {w w' : World Vec} {req : StoreRequest}
variable {ns : String}

section Checks

variable [LE F] [LT F] [DecidableLE F] [DecidableLT F]

/- The context of a request once every check has passed. -/
def runChecks
    (env : Env Vec F)
    (service : MemoryService F)
    (w : World Vec)
    (req : StoreRequest) :
    Except (CoreError F) (StoreContext Vec F) :=
  match ensureCollection (service.requestNamespace req) with
  | .error e => .error (.store e)
  | .ok () =>
      match validated env (newContext env service w req) with
      | .error e => .error e
      | .ok ctx =>
          let ctx := Embed.run env ctx
          if ctx.req.supersedes.isSome then
            .ok ctx
          else
            match Dedup.run env ctx w.qdrant with
            | .error e => .error e
            | .ok () => Conflict.run env ctx w.db

/- A store begins with its checks and goes on from them. -/
private theorem store_of_checks
    (env : Env Vec F)
    (service : MemoryService F)
    (w : World Vec)
    (req : StoreRequest) :
    match runChecks env service w req with
    | .error e =>
        ∃ n, store env service w req =
          ({ w with nextUuid := n }, .done (.error e))
    | .ok ctx =>
        store env service w req =
          StoreStage.finish env service
            { w with nextUuid := w.nextUuid + 1 }
            (.entities ctx) := by
  unfold runChecks store
  rw [StoreStage.finish_step]
  simp only [StoreStage.step]
  cases hEnsure :
      ensureCollection (service.requestNamespace req) with
  | error e => exact ⟨w.nextUuid, rfl⟩
  | ok _ =>
      dsimp only
      cases hValid :
          validated env (newContext env service w req) with
      | error e => exact ⟨w.nextUuid + 1, rfl⟩
      | ok ctx =>
          dsimp only
          rw [StoreStage.finish_step]
          simp only [StoreStage.step]
          cases hTarget :
              (Embed.run env ctx).req.supersedes.isSome with
          | true => rfl
          | false =>
              simp only [Bool.false_eq_true, if_false]
              rw [StoreStage.finish_step]
              simp only [StoreStage.step]
              cases hDedup :
                  Dedup.run env (Embed.run env ctx)
                    w.qdrant with
              | error e => exact ⟨w.nextUuid + 1, rfl⟩
              | ok _ =>
                  dsimp only
                  rw [StoreStage.finish_step]
                  simp only [StoreStage.step]
                  cases hConflict :
                      Conflict.run env (Embed.run env ctx)
                        w.db with
                  | error e => exact ⟨w.nextUuid + 1, rfl⟩
                  | ok ctx' => rfl

theorem store_of_error
    {e : CoreError F}
    (h : runChecks env service w req = .error e) :
    ∃ n, store env service w req =
      ({ w with nextUuid := n }, .done (.error e)) := by
  have hStore :=
    store_of_checks env service w req
  rw [h] at hStore
  exact hStore

theorem store_of_ok
    {ctx : StoreContext Vec F}
    (h : runChecks env service w req = .ok ctx) :
    store env service w req =
      StoreStage.finish env service
        { w with nextUuid := w.nextUuid + 1 }
        (.entities ctx) := by
  have hStore :=
    store_of_checks env service w req
  rw [h] at hStore
  exact hStore

/- The ways in which a request passes its checks. -/
theorem runChecks_eq_ok
    {ctx : StoreContext Vec F}
    (h : runChecks env service w req = .ok ctx) :
    ensureCollection (service.requestNamespace req) =
        .ok () ∧
      ∃ ctx₀,
        validated env (newContext env service w req) =
          .ok ctx₀ ∧
        ((ctx₀.req.supersedes.isSome = true ∧
            ctx = Embed.run env ctx₀) ∨
          (ctx₀.req.supersedes = none ∧
            Conflict.run env (Embed.run env ctx₀) w.db =
              .ok ctx)) := by
  unfold runChecks at h
  split at h
  · cases h
  · rename_i hEnsure
    split at h
    · cases h
    · rename_i ctx₀ hValid
      refine ⟨hEnsure, ctx₀, hValid, ?_⟩
      dsimp only at h
      split at h
      · rename_i hTarget
        exact Or.inl ⟨hTarget, (Except.ok.inj h).symm⟩
      · rename_i hTarget
        split at h
        · cases h
        · exact Or.inr ⟨by simpa [Embed.run] using hTarget, h⟩

/- A context that passes its checks, and its world. -/
theorem runChecks_proper
    {ctx : StoreContext Vec F}
    (hWorld : w.WellFormed env)
    (h : runChecks env service w req = .ok ctx) :
    World.WellFormed env
        { w with nextUuid := w.nextUuid + 1 } ∧
      (StoreStage.entities ctx).Proper env
        { w with nextUuid := w.nextUuid + 1 } ∧
      Past req (service.requestNamespace req)
        ctx.supersededIds w.db.memories
        { w with nextUuid := w.nextUuid + 1 } ctx ∧
      ctx.embedding ≠ none := by
  rcases runChecks_eq_ok h with ⟨_, ctx₀, hValid, hCases⟩
  rcases validated_eq_ok hValid with ⟨p, rfl⟩
  obtain ⟨ids, rfl⟩ :
      ∃ ids, ctx =
        { Embed.run env
            { newContext env service w req with
              normalizedPredicate := p } with
          supersededIds := ids } := by
    rcases hCases with ⟨_, rfl⟩ | ⟨_, hRun⟩
    · exact ⟨[], rfl⟩
    · rcases Conflict.run_eq_ok hRun with ⟨ids, rfl⟩
      exact ⟨_, rfl⟩
  refine ⟨hWorld.mono rfl rfl (fun e he => ⟨e, he, rfl⟩)
      (Nat.le_succ _), ⟨fun ctx' h => ?_, by simp⟩,
    ⟨rfl, rfl, rfl, rfl⟩, by simp [Embed.run]⟩
  cases h
  exact ⟨hWorld.fresh_row,
    Old.of_next (Nat.lt_succ_self _),
    by simp [Embed.run, newContext, StoreContext.new]⟩

end Checks

------------------------------------------------------------
-- Outcomes and Agreement
------------------------------------------------------------

/- What a store call comes to, without its texts and ids. -/
inductive Outcome (F : Type) where
| stored (superseded : List String)
| duplicate (existingId : String) (similarity : F)
| conflictAmbiguous (existingId : String) (ratio : F)
| multiMatchConflict (existingIds : List String)
| failed

def outcome :
    Except (CoreError F) StoreResponse → Outcome F
| .ok response => .stored response.superseded
| .error (.duplicate id similarity) =>
    .duplicate id similarity
| .error (.conflictAmbiguous id ratio) =>
    .conflictAmbiguous id ratio
| .error (.multiMatchConflict ids) =>
    .multiMatchConflict ids
| .error _ => .failed

def StoreStage.outcome : StoreStage Vec F → Outcome F
| .done result => Core.outcome result
| _ => .failed

theorem outcome_of_reports
    {e : CoreError F}
    (h : e.reports = false) :
    outcome (.error e : Except _ StoreResponse) =
      .failed := by
  cases e <;> simp_all [CoreError.reports, outcome]

/- The rows of one namespace, and those of the others. -/
def ownRows (ns : String) (db : Sqlite) : List MemoryRow :=
  db.memories.filter (fun r => r.namespace = ns)

def foreignRows
    (ns : String)
    (db : Sqlite) : List MemoryRow :=
  db.memories.filter (fun r => r.namespace ≠ ns)

/-
  Worlds that differ in nothing but the rows and points of
  other namespaces and the ops of both journals.
-/
structure Agrees
    (ns : String)
    (w w' : World Vec) : Prop where
  rows : ownRows ns w'.db = ownRows ns w.db
  points : w'.qdrant.points ns = w.qdrant.points ns
  entities : w'.db.entities = w.db.entities
  entityAliases : w'.db.entityAliases = w.db.entityAliases
  clock : w'.clock = w.clock
  nextUuid : w'.nextUuid = w.nextUuid

namespace Agrees

theorem mem_iff
    {r : MemoryRow}
    (hAgrees : Agrees ns w w')
    (hNs : r.namespace = ns) :
    r ∈ w'.db.memories ↔ r ∈ w.db.memories := by
  have hRows : r ∈ ownRows ns w'.db ↔ r ∈ ownRows ns w.db := by
    rw [hAgrees.rows]
  simpa [ownRows, hNs] using hRows

/- A statement on the registry, run in both worlds. -/
theorem registry
    {result result' : Except StoreError Sqlite}
    (c : DateTime)
    (n : Nat)
    (hAgrees : Agrees ns w w')
    (hSame :
      Sqlite.SameOnRegistry w.db w'.db result result') :
    (∃ e, result = .error e ∧ result' = .error e) ∨
      ∃ db db', result = .ok db ∧ result' = .ok db' ∧
        Agrees ns
          { w with db := db, clock := c, nextUuid := n }
          { w' with
            db := db', clock := c, nextUuid := n } := by
  rcases hSame with hError | ⟨entities, aliases, rfl, rfl⟩
  · exact Or.inl hError
  · exact Or.inr ⟨_, _, rfl, rfl,
      ⟨hAgrees.rows, hAgrees.points, rfl, rfl, rfl, rfl⟩⟩

/- A point of the namespace, written in both worlds. -/
theorem upsert
    {id text : String} {vector : Vec} {payload : Payload}
    (hAgrees : Agrees ns w w') :
    (∃ e,
      w.qdrant.upsert ns id vector text payload =
          .error e ∧
        w'.qdrant.upsert ns id vector text payload =
          .error e) ∨
    ∃ q q',
      w.qdrant.upsert ns id vector text payload = .ok q ∧
      w'.qdrant.upsert ns id vector text payload =
          .ok q' ∧
        Agrees ns { w with qdrant := q }
          { w' with qdrant := q' } := by
  rcases Qdrant.upsert_congr
      hAgrees.points with hError | ⟨q, q', hq, hq', hPoints⟩
  · exact Or.inl hError
  · exact Or.inr ⟨q, q', hq, hq',
      ⟨hAgrees.rows, hPoints, hAgrees.entities,
        hAgrees.entityAliases, hAgrees.clock,
        hAgrees.nextUuid⟩⟩

end Agrees

------------------------------------------------------------
-- Agreement Along the Stages
------------------------------------------------------------

/- One call of a resolution goes the same way in both. -/
private theorem resolveStep_agrees [LT F] [DecidableLT F]
    {ctx : StoreContext Vec F} {r : Resolving Vec}
    (hAgrees : Agrees ns w w')
    (hNs : ctx.namespace = ns) :
    (resolveStep env w' ctx r).2 =
        (resolveStep env w ctx r).2 ∧
      Agrees ns (resolveStep env w ctx r).1
        (resolveStep env w' ctx r).1 := by
  subst hNs
  unfold resolveStep
  cases hPhase : r.phase with
  | exact =>
      dsimp only
      rw [Sqlite.getEntityByName_congr hAgrees.entities
        hAgrees.entityAliases]
      split
      · exact ⟨rfl, hAgrees⟩
      · split
        · exact ⟨rfl, hAgrees⟩
        · split
          · exact ⟨rfl, hAgrees⟩
          · exact ⟨rfl, hAgrees⟩
  | search =>
      dsimp only
      rw [Qdrant.searchDense_congr hAgrees.points]
      split
      · exact ⟨rfl, hAgrees⟩
      · split
        · exact ⟨rfl, hAgrees⟩
        · exact ⟨rfl, hAgrees⟩
  | create embedding =>
      dsimp only
      rw [hAgrees.nextUuid, hAgrees.clock]
      have hInsert :=
        hAgrees.registry w.clock (w.nextUuid + 1)
          (Sqlite.insertEntity_congr hAgrees.entities
            hAgrees.entityAliases
            ⟨env.uuid w.nextUuid,
              Entity.normalize env (r.names.head?.getD ""),
              [], none, w.clock, w.clock⟩)
      rcases hInsert with
        ⟨e, hw, hw'⟩ | ⟨db, db', hw, hw', hLater⟩
      · rw [hw, hw']
        exact ⟨rfl, hAgrees.rows, hAgrees.points,
          hAgrees.entities, hAgrees.entityAliases, rfl, rfl⟩
      · rw [hw, hw']
        exact ⟨rfl, hLater⟩
  | point entity embedding =>
      dsimp only
      rcases hAgrees.upsert
        with ⟨e, hw, hw'⟩ | ⟨q, q', hw, hw', hLater⟩
      · rw [hw, hw']
        exact ⟨rfl, hAgrees⟩
      · rw [hw, hw']
        exact ⟨rfl, hLater⟩
  | addAlias entity =>
      dsimp only
      have hAlias :=
        hAgrees.registry w.clock w.nextUuid
          (Sqlite.addEntityAlias_congr hAgrees.entities
            hAgrees.entityAliases entity.id
            (Entity.normalize env (r.names.head?.getD ""))
            w.clock)
      rw [hAgrees.clock, hAgrees.nextUuid]
      rcases hAlias with
        ⟨e, hw, hw'⟩ | ⟨db, db', hw, hw', hLater⟩
      · rw [hw, hw']
        exact ⟨rfl, hAgrees⟩
      · rw [hw, hw']
        exact ⟨rfl, hLater⟩

/- Two runs of one request past its checks. -/
structure Alike
    (env : Env Vec F)
    (req : StoreRequest)
    (ns : String)
    (ids : List String)
    (rows rows' : List MemoryRow)
    (w : World Vec)
    (st : StoreStage Vec F)
    (w' : World Vec) : Prop where
  agrees : Agrees ns w w'
  world : w.WellFormed env
  world' : w'.WellFormed env
  proper : st.Proper env w
  proper' : st.Proper env w'
  past : st.Past req ns ids rows w
  past' : st.Past req ns ids rows' w'

/- A target passes in both worlds, or fails in both. -/
private theorem checkTarget_eq_ok_iff
    {ctx : StoreContext Vec F} {id : String}
    (hWorld : w.WellFormed env) :
    checkTarget ctx id w.db = .ok () ↔
      ∃ r ∈ w.db.memories, r.id = id ∧
        r.namespace = ctx.namespace ∧ r.tInvalid = none := by
  unfold checkTarget
  cases hGet : w.db.getMemory id with
  | none =>
      have hNone := Sqlite.getMemory_eq_none hGet
      constructor
      · intro h
        cases h
      · rintro ⟨r, hr, hId, _⟩
        exact absurd ⟨r, hr, hId⟩ hNone
  | some target =>
      have hRow := Sqlite.getMemory_eq_some hGet
      have hOnly :
          ∀ r ∈ w.db.memories, r.id = id →
            r = target.toMemoryRow :=
        fun r hr hId =>
          hWorld.rows_unique.eq_of_key_eq hr hRow.1
            (hId.trans hRow.2.symm)
      dsimp only
      constructor
      · intro h
        split at h
        · cases h
        · rename_i hNs
          split at h
          · cases h
          · rename_i hValid
            exact ⟨target.toMemoryRow, hRow.1, hRow.2,
              not_not.mp hNs, by simpa using hValid⟩
      · rintro ⟨r, hr, hId, hNs, hValid⟩
        have hSame := hOnly r hr hId
        rw [hSame] at hNs hValid
        rw [if_neg (not_not.mpr hNs), hValid]
        rfl

private theorem checkTarget_eq_error
    {ctx : StoreContext Vec F} {id : String} {db : Sqlite}
    {e : CoreError F}
    (h : checkTarget ctx id db = .error e) :
    e.reports = false := by
  unfold checkTarget at h
  split at h
  · cases h
    rfl
  · split at h
    · cases h
      rfl
    · split at h <;> cases h
      rfl

section Lockstep

variable [LE F] [LT F] [DecidableLE F] [DecidableLT F]

/-
  One step of both runs: they go the same way, or end with
  the same outcome.
-/
private theorem step_agrees
    {ids : List String} {rows rows' : List MemoryRow}
    {st : StoreStage Vec F}
    (h : Alike env req ns ids rows rows' w st w') :
    ((st.step env service w').2 =
        (st.step env service w).2 ∧
      Agrees ns (st.step env service w).1
        (st.step env service w').1) ∨
    ∃ r r', (st.step env service w).2 = .done r ∧
      (st.step env service w').2 = .done r' ∧
        outcome r' = outcome r := by
  have hAgrees := h.agrees
  cases st with
  | entities ctx =>
      simp only [StoreStage.step,
        Sqlite.getAllEntities_congr hAgrees.entities
          hAgrees.entityAliases]
      split
      · exact Or.inl ⟨rfl, hAgrees⟩
      · split <;> exact Or.inl ⟨rfl, hAgrees⟩
  | resolve ctx r =>
      have hPast : Past req ns ids rows w ctx := h.past
      exact Or.inl
        (resolveStep_agrees hAgrees hPast.namespace)
  | target ctx id =>
      have hNs := h.past.1.namespace
      have hSame :
          checkTarget ctx id w'.db = .ok () ↔
            checkTarget ctx id w.db = .ok () := by
        rw [checkTarget_eq_ok_iff h.world,
          checkTarget_eq_ok_iff h.world']
        exact exists_congr fun r => by
          constructor
          · rintro ⟨hr, hId, hRow, hValid⟩
            exact ⟨(hAgrees.mem_iff (hRow.trans hNs)).mp hr,
              hId, hRow, hValid⟩
          · rintro ⟨hr, hId, hRow, hValid⟩
            exact ⟨(hAgrees.mem_iff (hRow.trans hNs)).mpr hr,
              hId, hRow, hValid⟩
      simp only [StoreStage.step]
      cases hCheck : checkTarget ctx id w.db with
      | ok _ =>
          rw [hSame.mpr hCheck]
          exact Or.inl ⟨rfl, hAgrees⟩
      | error e =>
          cases hCheck' : checkTarget ctx id w'.db with
          | ok _ =>
              rw [hSame.mp hCheck'] at hCheck
              cases hCheck
          | error e' =>
              exact Or.inr ⟨_, _, rfl, rfl, by
                rw [outcome_of_reports
                    (checkTarget_eq_error hCheck),
                  outcome_of_reports
                    (checkTarget_eq_error hCheck')]⟩
  | insertOp ctx =>
      simp only [StoreStage.step]
      split
      · exact Or.inl ⟨rfl, hAgrees⟩
      · -- the op's id is new in both worlds
        have hInsert :
            ∀ {v : World Vec}, v.WellFormed env →
              v.nextUuid = w.nextUuid →
                v.db.insertPendingOp
                    (Write.pendingOp ctx
                      (env.uuid w.nextUuid) w.clock) =
                  .ok { v.db with
                    pendingOps := v.db.pendingOps ++
                      [Write.pendingOp ctx
                        (env.uuid w.nextUuid) w.clock] } := by
          intro v hWorld hNext
          rw [Sqlite.insertPendingOp,
            Table.insert_of_fresh _
              (hNext ▸ hWorld.fresh_op)]
        rw [hAgrees.nextUuid, hAgrees.clock,
          hInsert h.world rfl,
          hInsert h.world' hAgrees.nextUuid]
        exact Or.inl ⟨rfl, hAgrees.rows, hAgrees.points,
          hAgrees.entities, hAgrees.entityAliases,
          rfl, rfl⟩
  | upsert ctx embedding opId startedAt =>
      have hNs := h.past.1.namespace
      subst hNs
      simp only [StoreStage.step]
      rcases hAgrees.upsert with
        ⟨e, hw, hw'⟩ | ⟨q, q', hw, hw', hLater⟩
      · rw [hw, hw']
        exact Or.inl ⟨rfl, hAgrees⟩
      · rw [hw, hw']
        exact Or.inl ⟨rfl, hLater⟩
  | mark ctx opId startedAt =>
      exact Or.inl ⟨rfl, hAgrees.rows, hAgrees.points,
        hAgrees.entities, hAgrees.entityAliases,
        hAgrees.clock, hAgrees.nextUuid⟩
  | commit ctx opId startedAt =>
      have hCommits :
          ∀ {v : World Vec},
            (StoreStage.commit ctx opId startedAt).Proper
                env v →
              ((StoreStage.commit ctx opId startedAt).step
                env service v).2 =
                  .done (.ok (Write.response env ctx)) := by
        intro v hProper
        rcases StoreStage.step_commit
          hProper with ⟨db, hStep⟩
        rw [hStep]
      exact Or.inr ⟨_, _, hCommits h.proper,
        hCommits h.proper', rfl⟩
  | done result =>
      exact Or.inr ⟨result, result, rfl, rfl, rfl⟩
  | _ => cases h.past

/- Past their checks, both runs come to the same outcome. -/
theorem finish_agrees
    {ids : List String} {rows rows' : List MemoryRow}
    {st : StoreStage Vec F}
    (h : Alike env req ns ids rows rows' w st w') :
    (st.finish env service w').2.outcome =
      (st.finish env service w).2.outcome := by
  have hBoth :=
    StoreStage.finish_lockstep
      env service
      (R := fun w st w' st' =>
        (st' = st ∧
          Alike env req ns ids rows rows' w st w') ∨
        ∃ r r', st = .done r ∧ st' = .done r' ∧
          outcome r' = outcome r)
      (by
        rintro w st w' st'
          (⟨rfl, hAlike⟩ | ⟨r, r', rfl, rfl, hSame⟩)
        · rcases step_agrees hAlike with
            ⟨hStage, hAgrees⟩ | hDone
          · refine Or.inl ⟨hStage, hAgrees, ?_, ?_, ?_, ?_,
              ?_, ?_⟩
            · exact (StoreStage.step_proper hAlike.world
                hAlike.proper).1
            · exact (StoreStage.step_proper hAlike.world'
                hAlike.proper').1
            · exact (StoreStage.step_proper hAlike.world
                hAlike.proper).2
            · rw [← hStage]
              exact (StoreStage.step_proper hAlike.world'
                hAlike.proper').2
            · exact StoreStage.step_past hAlike.world
                hAlike.proper hAlike.past
            · rw [← hStage]
              exact StoreStage.step_past hAlike.world'
                hAlike.proper' hAlike.past'
          · exact Or.inr hDone
        · exact Or.inr ⟨r, r', rfl, rfl, hSame⟩)
      (Or.inl ⟨rfl, h⟩)
  rcases hBoth with ⟨hStage, _⟩ | ⟨r, r', hw, hw', hSame⟩
  · rw [hStage]
  · rw [hw, hw']
    exact hSame

end Lockstep

end Core

end Ferrex
