import Ferrex.Core.Agreement

/-
  Namespaces and the writes of a store request: when a store
  in one namespace neither changes nor depends on the memory
  rows of the others.

  Main declarations:
    * `ForeignMatch`, `Leaks`
    * `Isolated`
    * `store_isolated_iff`
-/

------------------------------------------------------------
-- Lookups and Their Namespaces
------------------------------------------------------------

namespace Ferrex

namespace Core

open Store

variable {Vec F : Type}
variable {env : Env Vec F} {service : MemoryService F}
variable {w w' : World Vec} {req : StoreRequest}
variable {ns : String}

/- The rows that the lookup of a request finds. -/
def lookupRows
    (env : Env Vec F)
    (ctx : StoreContext Vec F)
    (predicate : String)
    (w : World Vec) : List MemoryRow :=
  w.db.memories.filter
    (fun r => Sqlite.MatchesFact
      (Conflict.lookupSubject env ctx.req) predicate r)

/- A row of another namespace that the lookup finds. -/
def ForeignMatch
    (env : Env Vec F)
    (w : World Vec)
    (ctx : StoreContext Vec F) : Prop :=
  ctx.memoryType = .semantic ∧
    ∃ predicate, ctx.normalizedPredicate = some predicate ∧
      ∃ r ∈ lookupRows env ctx predicate w,
        r.namespace ≠ ctx.namespace

section Lookups

variable [LE F] [LT F] [DecidableLE F] [DecidableLT F]

/- What the lookup of a request makes of its rows. -/
def classified
    (env : Env Vec F)
    (ctx : StoreContext Vec F)
    (predicate : String)
    (w : World Vec) : Conflict.Classification F :=
  Conflict.classify env (ctx.req.object.getD "")
    (Conflict.existing env ctx.req predicate w.db)
    ctx.conflictConfig

/-
  The one row found would be updated, but an entity name is
  empty and ends the call before.
-/
def RefusedUpdate
    (env : Env Vec F)
    (w : World Vec)
    (ctx : StoreContext Vec F) : Prop :=
  ∃ predicate id, ctx.normalizedPredicate = some predicate ∧
    classified env ctx predicate w = .update id ∧
      ¬ NamesOk env ctx.req.entities

/-
  A valid semantic store without a target whose lookup finds
  a row of another namespace.
-/
def Leaks
    (env : Env Vec F)
    (service : MemoryService F)
    (w : World Vec)
    (req : StoreRequest) : Prop :=
  ensureCollection (service.requestNamespace req) = .ok () ∧
    req.supersedes = none ∧
      ∃ ctx,
        validated env (newContext env service w req) =
            .ok ctx ∧
          ForeignMatch env w ctx ∧ ¬ RefusedUpdate env w ctx

/- The answer of a conflict check, by its classification. -/
def Conflict.answer
    (ctx : StoreContext Vec F) :
    Classification F →
      Except (CoreError F) (StoreContext Vec F)
| .noConflict => .ok ctx
| .duplicate id similarity =>
    .error (.duplicate id similarity)
| .update id =>
    .ok { ctx with
      supersededIds := ctx.supersededIds ++ [id] }
| .ambiguous id ratio => .error (.conflictAmbiguous id ratio)
| .multiMatch ids => .error (.multiMatchConflict ids)

theorem Conflict.run_semantic
    (env : Env Vec F)
    (w : World Vec)
    (ctx : StoreContext Vec F)
    {predicate : String}
    (hType : ctx.memoryType = .semantic)
    (hPredicate : ctx.normalizedPredicate = some predicate) :
    Conflict.run env ctx w.db =
      answer ctx (classified env ctx predicate w) := by
  unfold Conflict.run
  rw [if_neg (not_not.mpr hType)]
  split
  · rename_i hNone
    cases hPredicate.symm.trans hNone
  · rename_i hSome
    cases hPredicate.symm.trans hSome
    unfold answer classified
    split <;> simp_all

omit [LE F] [LT F] [DecidableLE F] [DecidableLT F] in
private theorem existing_map
    (ctx : StoreContext Vec F)
    (predicate : String) :
    (Conflict.existing env ctx.req predicate w.db).map
        Memory.toMemoryRow =
      lookupRows env ctx predicate w := by
  simp [Conflict.existing, lookupRows,
    Sqlite.getMemoriesBySubjectPredicate,
    Function.comp_def]

/- Memories are classified by their rows alone. -/
private theorem classify_congr
    {object : String} {config : ConflictConfig F}
    {existing existing' : List Memory}
    (h :
      existing'.map Memory.toMemoryRow =
        existing.map Memory.toMemoryRow) :
    Conflict.classify env object existing' config =
      Conflict.classify env object existing config := by
  have hIds :
      existing'.map (fun m => m.id) =
        existing.map (fun m => m.id) := by
    have hMap := congrArg (List.map MemoryRow.id) h
    simpa [Function.comp_def] using hMap
  cases existing with
  | nil =>
      obtain rfl : existing' = [] := by simpa using h
      rfl
  | cons m ms =>
      cases existing' with
      | nil => cases h
      | cons m' ms' =>
          cases ms with
          | nil =>
              obtain ⟨hRow, rfl⟩ :
                  m'.toMemoryRow = m.toMemoryRow ∧
                    ms' = [] := by
                simpa using h
              simp only [Conflict.classify, hRow]
          | cons m₂ ms =>
              cases ms' with
              | nil => simp at h
              | cons m₂' ms' =>
                  exact congrArg Conflict.Classification.multiMatch
                    hIds

/- What the rows of a lookup may be classified as. -/
inductive Verdict :
    List MemoryRow → Conflict.Classification F → Prop where
| clear : Verdict [] .noConflict
| duplicate (row : MemoryRow) (similarity : F) :
    Verdict [row] (.duplicate row.id similarity)
| update (row : MemoryRow) :
    Verdict [row] (.update row.id)
| ambiguous (row : MemoryRow) (ratio : F) :
    Verdict [row] (.ambiguous row.id ratio)
| multiMatch (rows : List MemoryRow)
    (hMany : 2 ≤ rows.length) :
    Verdict rows (.multiMatch (rows.map MemoryRow.id))

theorem classified_verdict
    (env : Env Vec F)
    (w : World Vec)
    (ctx : StoreContext Vec F)
    (predicate : String) :
    Verdict (lookupRows env ctx predicate w)
      (classified env ctx predicate w) := by
  unfold classified
  rw [← existing_map]
  cases hRows :
      Conflict.existing env ctx.req predicate w.db with
  | nil => exact .clear
  | cons m ms =>
      cases ms with
      | nil =>
          simp only [Conflict.classify, List.map_cons,
            List.map_nil]
          split
          · exact .duplicate _ _
          · split
            · exact .duplicate _ _
            · split
              · exact .update _
              · exact .ambiguous _ _
      | cons m₂ ms =>
          have hVerdict :=
            Verdict.multiMatch (F := F)
              ((m :: m₂ :: ms).map Memory.toMemoryRow)
              (by simp)
          simpa [Conflict.classify, Function.comp_def]
            using hVerdict

omit [LE F] [LT F] [DecidableLE F] [DecidableLT F] in
/- Without foreign matches the lookup sees own rows only. -/
private theorem lookupRows_own
    {ctx : StoreContext Vec F} {predicate : String}
    (hOwn : ∀ r ∈ lookupRows env ctx predicate w,
      r.namespace = ctx.namespace) :
    lookupRows env ctx predicate w =
      (ownRows ctx.namespace w.db).filter
        (fun r => Sqlite.MatchesFact
          (Conflict.lookupSubject env ctx.req) predicate
            r) := by
  unfold ownRows
  rw [List.filter_filter]
  apply List.filter_congr
  intro r hr
  by_cases hMatch :
      Sqlite.MatchesFact
        (Conflict.lookupSubject env ctx.req) predicate r
  · have hNs :=
      hOwn r (List.mem_filter.mpr ⟨hr, by simpa using hMatch⟩)
    simp [hMatch, hNs]
  · simp [hMatch]

/- Two worlds without foreign matches give one answer. -/
private theorem conflict_run_agrees
    (ctx : StoreContext Vec F)
    (hAgrees : Agrees ctx.namespace w w')
    (hForeign : ¬ ForeignMatch env w ctx)
    (hForeign' : ¬ ForeignMatch env w' ctx) :
    Conflict.run env ctx w'.db =
      Conflict.run env ctx w.db := by
  by_cases hType : ctx.memoryType = .semantic
  · cases hPredicate : ctx.normalizedPredicate with
    | none => simp only [Conflict.run, hPredicate]
    | some predicate =>
        have hOwn :
            ∀ {v : World Vec}, ¬ ForeignMatch env v ctx →
              ∀ r ∈ lookupRows env ctx predicate v,
                r.namespace = ctx.namespace := by
          intro v hNone r hr
          by_contra hNe
          exact hNone
            ⟨hType, predicate, hPredicate, r, hr, hNe⟩
        have hRows :
            lookupRows env ctx predicate w' =
              lookupRows env ctx predicate w := by
          rw [lookupRows_own (hOwn hForeign),
            lookupRows_own (hOwn hForeign'), hAgrees.rows]
        have hSame :
            classified env ctx predicate w' =
              classified env ctx predicate w := by
          apply classify_congr
          rw [existing_map, existing_map, hRows]
        rw [Conflict.run_semantic _ _ _ hType hPredicate,
          Conflict.run_semantic _ _ _ hType hPredicate, hSame]
  · simp only [Conflict.run, ne_eq, hType,
      not_false_eq_true, if_true]

end Lookups

------------------------------------------------------------
-- Outcomes of a Store
------------------------------------------------------------

section Isolation

variable [LE F] [LT F] [DecidableLE F] [DecidableLT F]

/- An outcome that names no memory found by the checks. -/
def Outcome.Settled : Outcome F → Prop
| .stored _ => True
| .failed => True
| _ => False

/- What an outcome says of the classification before it. -/
def Outcome.Reports :
    Outcome F → Conflict.Classification F → Prop
| o, .duplicate id similarity => o = .duplicate id similarity
| o, .ambiguous id ratio => o = .conflictAmbiguous id ratio
| o, .multiMatch ids => o = .multiMatchConflict ids
| o, _ => o.Settled

theorem outcome_of_error
    {e : CoreError F}
    (h : runChecks env service w req = .error e) :
    (store env service w req).2.outcome =
        outcome (.error e) ∧
      (store env service w req).1.db = w.db := by
  rcases store_of_error h with ⟨n, hStore⟩
  rw [hStore]
  exact ⟨rfl, rfl⟩

theorem past_of_ok
    {ctx : StoreContext Vec F}
    (hWorld : w.WellFormed env)
    (h : runChecks env service w req = .ok ctx) :
    (store env service w req).2.Past req
      (service.requestNamespace req) ctx.supersededIds
        w.db.memories (store env service w req).1 := by
  rcases runChecks_proper hWorld h with
    ⟨hTaken, hProper, hPast, _⟩
  rw [store_of_ok h]
  exact StoreStage.finish_past hTaken hProper hPast

theorem settled_of_ok
    {ctx : StoreContext Vec F}
    (hWorld : w.WellFormed env)
    (h : runChecks env service w req = .ok ctx) :
    (store env service w req).2.outcome.Settled := by
  have hPast := past_of_ok hWorld h
  rcases store_done env service w req with ⟨result, hDone⟩
  rw [hDone] at hPast ⊢
  cases result with
  | ok response => trivial
  | error e =>
      rw [StoreStage.outcome, outcome_of_reports hPast.2]
      trivial

/- An empty entity name ends a store before it commits. -/
theorem refused_of_ok
    {ctx : StoreContext Vec F}
    (hWorld : w.WellFormed env)
    (h : runChecks env service w req = .ok ctx)
    (hNames : ¬ NamesOk env req.entities) :
    (store env service w req).2.outcome = .failed ∧
      (store env service w req).1.db.memories =
        w.db.memories := by
  rcases runChecks_proper hWorld h with
    ⟨hTaken, hProper, hRequest, _⟩
  have hPast := past_of_ok hWorld h
  have hRefused : (StoreStage.entities ctx).Refused env := by
    rw [← hRequest.request] at hNames
    exact hNames
  rcases StoreStage.finish_refused
      hTaken hProper hRefused with ⟨e, hDone⟩
  rw [← store_of_ok h] at hDone
  rw [hDone] at hPast ⊢
  exact ⟨outcome_of_reports hPast.2, hPast.1⟩

/- Without a target and empty names, a store commits. -/
theorem committed_of_ok
    {ctx : StoreContext Vec F}
    (hWorld : w.WellFormed env)
    (h : runChecks env service w req = .ok ctx)
    (hTarget : req.supersedes = none)
    (hNames : NamesOk env req.entities) :
    Committed req (service.requestNamespace req)
      ctx.supersededIds w.db.memories
        (store env service w req).1 := by
  rcases runChecks_proper hWorld h with
    ⟨hTaken, hProper, hRequest, hEmbedding⟩
  have hPast := past_of_ok hWorld h
  have hBound : (StoreStage.entities ctx).Bound env := by
    refine ⟨⟨?_, hEmbedding, ?_⟩, ?_⟩
    · rw [hRequest.namespace]
      exact (runChecks_eq_ok h).1
    · rw [hRequest.request, hTarget]
    · rw [hRequest.request]
      exact hNames
  rcases StoreStage.finish_bound
      hTaken hProper hBound with ⟨response, hDone⟩
  rw [← store_of_ok h] at hDone
  rw [hDone] at hPast
  exact hPast.1

/- A semantic request without a target, by its lookup. -/
theorem runChecks_semantic
    {ctx : StoreContext Vec F} {predicate : String}
    (hEnsure :
      ensureCollection (service.requestNamespace req) =
        .ok ())
    (hValid :
      validated env (newContext env service w req) = .ok ctx)
    (hTarget : req.supersedes = none)
    (hType : ctx.memoryType = .semantic)
    (hPredicate : ctx.normalizedPredicate = some predicate) :
    runChecks env service w req =
      Conflict.answer (Embed.run env ctx)
        (classified env ctx predicate w) := by
  have hReq : (Embed.run env ctx).req = req := by
    rcases validated_eq_ok hValid with ⟨p, rfl⟩
    rfl
  have hDedup :
      Dedup.run env (Embed.run env ctx) w.qdrant =
        .ok () := by
    rw [Dedup.run, if_pos (by exact hType)]
  have hRun :=
    Conflict.run_semantic env w
      (Embed.run env ctx) hType hPredicate
  unfold runChecks
  simp only [hEnsure, hValid, hReq, hTarget,
    Option.isSome_none, Bool.false_eq_true, if_false, hDedup]
  exact hRun

theorem outcome_reports
    {ctx : StoreContext Vec F} {predicate : String}
    (hWorld : w.WellFormed env)
    (hEnsure :
      ensureCollection (service.requestNamespace req) =
        .ok ())
    (hValid :
      validated env (newContext env service w req) = .ok ctx)
    (hTarget : req.supersedes = none)
    (hType : ctx.memoryType = .semantic)
    (hPredicate : ctx.normalizedPredicate = some predicate) :
    (store env service w req).2.outcome.Reports
      (classified env ctx predicate w) := by
  have hChecks :=
    runChecks_semantic hEnsure hValid hTarget hType hPredicate
  cases hClass : classified env ctx predicate w with
  | noConflict =>
      rw [hClass] at hChecks
      exact settled_of_ok hWorld hChecks
  | update id =>
      rw [hClass] at hChecks
      exact settled_of_ok hWorld hChecks
  | duplicate id similarity =>
      rw [hClass] at hChecks
      exact (outcome_of_error hChecks).1
  | ambiguous id ratio =>
      rw [hClass] at hChecks
      exact (outcome_of_error hChecks).1
  | multiMatch ids =>
      rw [hClass] at hChecks
      exact (outcome_of_error hChecks).1

/- The ids that a store supersedes before its target. -/
theorem supersededIds_of_ok
    {ctx : StoreContext Vec F}
    (h : runChecks env service w req = .ok ctx) :
    ctx.supersededIds = [] ∨
      ensureCollection (service.requestNamespace req) =
          .ok () ∧
        req.supersedes = none ∧
        ∃ ctx₀ predicate row,
          validated env (newContext env service w req) =
            .ok ctx₀ ∧
          ctx₀.memoryType = .semantic ∧
          ctx₀.normalizedPredicate = some predicate ∧
          lookupRows env ctx₀ predicate w = [row] ∧
          classified env ctx₀ predicate w =
            .update row.id ∧
          ctx.supersededIds = [row.id] := by
  rcases runChecks_eq_ok h with
    ⟨hEnsure, ctx₀, hValid, ⟨_, rfl⟩ | ⟨hTarget, hRun⟩⟩
  · rcases validated_eq_ok hValid with ⟨p, rfl⟩
    exact Or.inl rfl
  · obtain ⟨hNil, hReq⟩ :
        ctx₀.supersededIds = [] ∧ ctx₀.req = req := by
      rcases validated_eq_ok hValid with ⟨p, rfl⟩
      exact ⟨rfl, rfl⟩
    by_cases hType : ctx₀.memoryType = .semantic
    · cases hPredicate : ctx₀.normalizedPredicate with
      | none =>
          simp [Conflict.run, Embed.run, hType, hPredicate]
            at hRun
      | some predicate =>
          have hAnswer :=
            Conflict.run_semantic env w
              (Embed.run env ctx₀) hType hPredicate
          rw [hRun] at hAnswer
          have hVerdict :=
            classified_verdict env w ctx₀ predicate
          have hSame :
              classified env (Embed.run env ctx₀) predicate
                  w =
                classified env ctx₀ predicate w := rfl
          rw [hSame] at hAnswer
          generalize hClass :
            classified env ctx₀ predicate w = c at *
          generalize hRows :
            lookupRows env ctx₀ predicate w = rows at *
          cases hVerdict with
          | clear =>
              cases hAnswer
              exact Or.inl hNil
          | update row =>
              cases hAnswer
              refine Or.inr ⟨hEnsure, hReq ▸ hTarget, ctx₀,
                predicate, row, hValid, hType, hPredicate,
                hRows, hClass, ?_⟩
              simp [Embed.run, hNil]
          | duplicate row similarity => cases hAnswer
          | ambiguous row ratio => cases hAnswer
          | multiMatch rows hMany => cases hAnswer
    · have hSame : ctx = Embed.run env ctx₀ := by
        simp only [Conflict.run, Embed.run, ne_eq, hType,
          not_false_eq_true, if_true] at hRun
        exact (Except.ok.inj hRun).symm
      rw [hSame]
      exact Or.inl hNil

/- A commit leaves the rows that it does not name alone. -/
theorem Committed.foreign
    {ids : List String}
    (h : Committed req ns ids w.db.memories w')
    (hTarget : TargetOwn req ns w.db.memories)
    (hIds : ∀ id ∈ ids, ∀ r ∈ w.db.memories,
      r.id = id → r.namespace = ns) :
    foreignRows ns w'.db = foreignRows ns w.db := by
  rcases h with ⟨row, t, hRow, hMemories⟩
  have hUpdate :
      (Table.update
          (fun r => r.id ∈ ids ++ req.supersedes.toList)
          (Sqlite.invalidateRow t)
          (w.db.memories ++ [row])).filter
            (fun r => decide (r.namespace ≠ ns)) =
        (w.db.memories ++ [row]).filter
          (fun r => decide (r.namespace ≠ ns)) := by
    apply Table.filter_update
    · intro r hr hForeign hNamed
      simp only [decide_eq_true_eq] at hForeign
      rcases List.mem_append.mp hr with hr | hr
      · rcases List.mem_append.mp hNamed with hId | hId
        · exact absurd (hIds _ hId r hr rfl) hForeign
        · exact absurd
            (hTarget _ (Option.mem_toList.mp hId) r hr rfl)
            hForeign
      · obtain rfl := List.mem_singleton.mp hr
        exact absurd hRow hForeign
    · intro r _ hOwn
      exact hOwn
  unfold foreignRows
  rw [hMemories, hUpdate]
  simp [hRow]

------------------------------------------------------------
-- Isolation
------------------------------------------------------------

/-
  A store changes no row of another namespace, and comes to
  the same outcome in each state without foreign matches
  that agrees on the namespace.
-/
structure Isolated
    (env : Env Vec F)
    (service : MemoryService F)
    (w : World Vec)
    (req : StoreRequest) : Prop where
  foreign :
    foreignRows (service.requestNamespace req)
        (store env service w req).1.db =
      foreignRows (service.requestNamespace req) w.db
  outcome :
    ∀ w' : World Vec, w'.WellFormed env →
      Agrees (service.requestNamespace req) w w' →
        ¬ Leaks env service w' req →
          (store env service w' req).2.outcome =
            (store env service w req).2.outcome

/- An update names a row of the namespace, or never commits. -/
private theorem foreign_of_not_leaks
    (hWorld : w.WellFormed env)
    (hLeaks : ¬ Leaks env service w req) :
    foreignRows (service.requestNamespace req)
        (store env service w req).1.db =
      foreignRows (service.requestNamespace req) w.db := by
  cases hChecks : runChecks env service w req with
  | error e => rw [(outcome_of_error hChecks).2]
  | ok ctx =>
      have hOwn :
          (∀ id ∈ ctx.supersededIds, ∀ r ∈ w.db.memories,
            r.id = id →
              r.namespace = service.requestNamespace req) ∨
          ¬ NamesOk env req.entities := by
        rcases supersededIds_of_ok hChecks with hNil |
          ⟨hEnsure, hTarget, ctx₀, predicate, row, hValid,
            hType, hPredicate, hRows, hClass, hIds⟩
        · exact Or.inl (by simp [hNil])
        · obtain ⟨hNs, hReq⟩ :
              ctx₀.namespace = service.requestNamespace req ∧
                ctx₀.req = req := by
            rcases validated_eq_ok hValid with ⟨p, rfl⟩
            exact ⟨rfl, rfl⟩
          have hRow :
              row ∈ lookupRows env ctx₀ predicate w := by
            simp [hRows]
          by_cases hRowNs : row.namespace = ctx₀.namespace
          · refine Or.inl fun id hId r hr hEq => ?_
            rw [hIds] at hId
            obtain rfl := List.mem_singleton.mp hId
            have hSame :=
              hWorld.rows_unique.eq_of_key_eq hr
                (List.mem_of_mem_filter hRow) hEq
            rw [hSame, hRowNs, hNs]
          · right
            intro hNames
            apply hLeaks
            refine ⟨hEnsure, hTarget, ctx₀, hValid,
              ⟨hType, predicate, hPredicate, row, hRow,
                hRowNs⟩, ?_⟩
            rintro ⟨_, _, _, _, hRefused⟩
            rw [hReq] at hRefused
            exact hRefused hNames
      rcases hOwn with hOwn | hNames
      · have hPast := past_of_ok hWorld hChecks
        rcases store_done env service w req with
          ⟨result, hDone⟩
        rw [hDone] at hPast
        cases result with
        | ok response =>
            exact hPast.1.foreign hPast.2 hOwn
        | error e =>
            unfold foreignRows
            rw [hPast.1]
      · unfold foreignRows
        rw [(refused_of_ok hWorld hChecks hNames).2]

omit [LE F] [LT F] [DecidableLE F] [DecidableLT F] in
/- The own rows among those that a lookup finds. -/
private theorem filter_lookupRows
    (ctx : StoreContext Vec F)
    (predicate : String) :
    (lookupRows env ctx predicate w).filter
        (fun r => decide (r.namespace = ctx.namespace)) =
      (ownRows ctx.namespace w.db).filter
        (fun r => Sqlite.MatchesFact
          (Conflict.lookupSubject env ctx.req) predicate
            r) := by
  unfold lookupRows ownRows
  rw [List.filter_filter, List.filter_filter]
  exact List.filter_congr fun r _ => Bool.and_comm _ _

/- Equal checks lead two agreeing worlds to one outcome. -/
private theorem outcome_of_same_checks
    (hWorld : w.WellFormed env)
    (hWorld' : w'.WellFormed env)
    (hAgrees : Agrees (service.requestNamespace req) w w')
    (hSame :
      runChecks env service w' req =
        runChecks env service w req) :
    (store env service w' req).2.outcome =
      (store env service w req).2.outcome := by
  cases hChecks : runChecks env service w req with
  | error e =>
      rw [hChecks] at hSame
      rw [(outcome_of_error hChecks).1,
        (outcome_of_error hSame).1]
  | ok ctx =>
      rw [hChecks] at hSame
      rcases runChecks_proper hWorld hChecks with
        ⟨hTaken, hProper, hPast, _⟩
      rcases runChecks_proper hWorld' hSame with
        ⟨hTaken', hProper', hPast', _⟩
      rw [store_of_ok hChecks, store_of_ok hSame]
      refine finish_agrees
        ⟨⟨hAgrees.rows, hAgrees.points, hAgrees.entities,
            hAgrees.entityAliases, hAgrees.clock, ?_⟩,
          hTaken, hTaken', hProper, hProper', hPast, hPast'⟩
      exact congrArg (· + 1) hAgrees.nextUuid

/- The checks of two worlds with no foreign match agree. -/
private theorem runChecks_agrees
    (hAgrees : Agrees (service.requestNamespace req) w w')
    (hForeign :
      ∀ ctx,
        validated env (newContext env service w req) =
            .ok ctx →
          ensureCollection (service.requestNamespace req) =
              .ok () →
            req.supersedes = none →
              ¬ ForeignMatch env w ctx ∧
                ¬ ForeignMatch env w' ctx) :
    runChecks env service w' req =
      runChecks env service w req := by
  have hNew :
      newContext env service w' req =
        newContext env service w req := by
    simp only [newContext, hAgrees.clock, hAgrees.nextUuid]
  unfold runChecks
  rw [hNew]
  cases hEnsure :
      ensureCollection (service.requestNamespace req) with
  | error e => rfl
  | ok _ =>
      cases hValid :
          validated env (newContext env service w req) with
      | error e => rfl
      | ok ctx =>
          obtain ⟨hNs, hReq⟩ :
              ctx.namespace = service.requestNamespace req ∧
                ctx.req = req := by
            rcases validated_eq_ok hValid with ⟨p, rfl⟩
            exact ⟨rfl, rfl⟩
          dsimp only
          split
          · rfl
          · rename_i hTarget
            have hDedup :
                Dedup.run env (Embed.run env ctx) w'.qdrant =
                  Dedup.run env (Embed.run env ctx)
                    w.qdrant := by
              have hPoints :
                  w'.qdrant.points
                      (Embed.run env ctx).namespace =
                    w.qdrant.points
                      (Embed.run env ctx).namespace :=
                hNs ▸ hAgrees.points
              simp only [Dedup.run,
                Qdrant.searchDense_congr hPoints]
            have hNone : req.supersedes = none := by
              simpa [Embed.run, hReq] using hTarget
            have hBoth := hForeign ctx hValid hEnsure hNone
            have hConflict :=
              conflict_run_agrees (Embed.run env ctx)
                (hNs ▸ hAgrees) hBoth.1 hBoth.2
            rw [hDedup, hConflict]

/-
  A refused update of a foreign row: the call fails here and
  in each state without leaks that agrees on the namespace.
-/
private theorem failed_of_refused
    {ctx : StoreContext Vec F}
    (hWorld : w.WellFormed env)
    (hWorld' : w'.WellFormed env)
    (hAgrees : Agrees (service.requestNamespace req) w w')
    (hEnsure :
      ensureCollection (service.requestNamespace req) =
        .ok ())
    (hTarget : req.supersedes = none)
    (hValid :
      validated env (newContext env service w req) = .ok ctx)
    (hForeign : ForeignMatch env w ctx)
    (hRefused : RefusedUpdate env w ctx)
    (hLeaks' : ¬ Leaks env service w' req) :
    (store env service w req).2.outcome = .failed ∧
      (store env service w' req).2.outcome = .failed := by
  obtain ⟨hNs, hReq⟩ :
      ctx.namespace = service.requestNamespace req ∧
        ctx.req = req := by
    rcases validated_eq_ok hValid with ⟨p, rfl⟩
    exact ⟨rfl, rfl⟩
  have hValid' :
      validated env (newContext env service w' req) =
        .ok ctx := by
    rw [← hValid, newContext, newContext, hAgrees.clock,
      hAgrees.nextUuid]
  have hUpdate :
      ∀ {v : World Vec}, v.WellFormed env →
        validated env (newContext env service v req) =
            .ok ctx →
          RefusedUpdate env v ctx →
            (store env service v req).2.outcome =
              .failed := by
    rintro v hWorld hValid
      ⟨predicate, id, hPredicate, hClass, hNames⟩
    have hChecks :=
      runChecks_semantic hEnsure hValid hTarget hForeign.1
        hPredicate
    rw [hClass] at hChecks
    exact (refused_of_ok hWorld hChecks
      (hReq ▸ hNames)).1
  refine ⟨hUpdate hWorld hValid hRefused, ?_⟩
  by_cases hForeign' : ForeignMatch env w' ctx
  · apply hUpdate hWorld' hValid'
    by_contra hNot
    exact hLeaks'
      ⟨hEnsure, hTarget, ctx, hValid', hForeign', hNot⟩
  · -- the only match is foreign, so nothing is found
    rcases hForeign with
      ⟨hType, predicate, hPredicate, row, hRow, hRowNs⟩
    rcases hRefused with
      ⟨predicate', id, hPredicate', hClass, hNames⟩
    cases hPredicate.symm.trans hPredicate'
    have hOwn :
        lookupRows env ctx predicate w' = [] := by
      rw [lookupRows_own, hNs, hAgrees.rows, ← hNs,
        ← filter_lookupRows]
      · have hVerdict :=
          classified_verdict env w ctx predicate
        rw [hClass] at hVerdict
        generalize hRows :
          lookupRows env ctx predicate w = rows at *
        cases hVerdict with
        | update found =>
            obtain rfl := List.mem_singleton.mp hRow
            simp [hRowNs]
      · intro r hr
        by_contra hNe
        exact hForeign'
          ⟨hType, predicate, hPredicate, r, hr, hNe⟩
    have hClear :
        classified env ctx predicate w' = .noConflict := by
      have hVerdict :=
        classified_verdict env w' ctx predicate
      rw [hOwn] at hVerdict
      generalize classified env ctx predicate w' = c at *
      cases hVerdict with
      | clear => rfl
      | multiMatch _ hMany => simp at hMany
    have hChecks :=
      runChecks_semantic hEnsure hValid' hTarget hType
        hPredicate
    rw [hClear] at hChecks
    exact (refused_of_ok hWorld' hChecks (hReq ▸ hNames)).1

theorem Agrees.symm
    (hAgrees : Agrees ns w w') :
    Agrees ns w' w :=
  ⟨hAgrees.rows.symm, hAgrees.points.symm,
    hAgrees.entities.symm, hAgrees.entityAliases.symm,
    hAgrees.clock.symm, hAgrees.nextUuid.symm⟩

/- Agreeing states without leaks come to one outcome. -/
theorem outcome_of_not_leaks
    (hWorld : w.WellFormed env)
    (hWorld' : w'.WellFormed env)
    (hAgrees : Agrees (service.requestNamespace req) w w')
    (hLeaks : ¬ Leaks env service w req)
    (hLeaks' : ¬ Leaks env service w' req) :
    (store env service w' req).2.outcome =
      (store env service w req).2.outcome := by
  by_cases hForeign :
      ∃ ctx,
        validated env (newContext env service w req) =
            .ok ctx ∧
          ensureCollection (service.requestNamespace req) =
              .ok () ∧
            req.supersedes = none ∧
              (ForeignMatch env w ctx ∨
                ForeignMatch env w' ctx)
  · rcases hForeign with
      ⟨ctx, hValid, hEnsure, hTarget, hForeign | hForeign⟩
    · have hRefused : RefusedUpdate env w ctx := by
        by_contra hNot
        exact hLeaks
          ⟨hEnsure, hTarget, ctx, hValid, hForeign, hNot⟩
      have hFailed :=
        failed_of_refused hWorld hWorld' hAgrees hEnsure
          hTarget hValid hForeign hRefused hLeaks'
      rw [hFailed.1, hFailed.2]
    · have hValid' :
          validated env (newContext env service w' req) =
            .ok ctx := by
        rw [← hValid, newContext, newContext, hAgrees.clock,
          hAgrees.nextUuid]
      have hRefused : RefusedUpdate env w' ctx := by
        by_contra hNot
        exact hLeaks'
          ⟨hEnsure, hTarget, ctx, hValid', hForeign, hNot⟩
      have hFailed :=
        failed_of_refused hWorld' hWorld hAgrees.symm hEnsure
          hTarget hValid' hForeign hRefused hLeaks
      rw [hFailed.1, hFailed.2]
  · apply outcome_of_same_checks hWorld hWorld' hAgrees
    apply runChecks_agrees hAgrees
    intro ctx hValid hEnsure hTarget
    exact ⟨fun h => hForeign
        ⟨ctx, hValid, hEnsure, hTarget, Or.inl h⟩,
      fun h => hForeign
        ⟨ctx, hValid, hEnsure, hTarget, Or.inr h⟩⟩

/- A world without the rows of other namespaces. -/
def World.restrict (ns : String) (w : World Vec) : World Vec :=
  { w with db := { w.db with memories := ownRows ns w.db } }

omit [LE F] [LT F] [DecidableLE F] [DecidableLT F] in
theorem World.WellFormed.restrict
    (ns : String)
    (hWorld : w.WellFormed env) :
    (w.restrict ns).WellFormed env where
  rows_unique :=
    List.Nodup.sublist (List.filter_sublist.map _)
      hWorld.rows_unique
  rows r hr := hWorld.rows r (List.mem_of_mem_filter hr)
  ops := hWorld.ops
  entities := hWorld.entities

omit [LE F] [LT F] [DecidableLE F] [DecidableLT F] in
theorem agrees_restrict (w : World Vec) :
    Agrees ns w (w.restrict ns) where
  rows := by simp [ownRows, World.restrict]
  points := rfl
  entities := rfl
  entityAliases := rfl
  clock := rfl
  nextUuid := rfl

omit [LE F] [LT F] [DecidableLE F] [DecidableLT F] in
/- There the lookup finds the own rows only. -/
private theorem lookupRows_restrict
    (ctx : StoreContext Vec F)
    (predicate : String) :
    lookupRows env ctx predicate
        (w.restrict ctx.namespace) =
      (lookupRows env ctx predicate w).filter
        (fun r => decide (r.namespace = ctx.namespace)) := by
  rw [filter_lookupRows]
  rfl

private theorem not_leaks_restrict :
    ¬ Leaks env service
      (w.restrict (service.requestNamespace req)) req := by
  rintro ⟨_, _, ctx, hValid, hForeign, _⟩
  rcases hForeign with ⟨_, predicate, _, r, hr, hNe⟩
  have hNs :
      ctx.namespace = service.requestNamespace req := by
    rcases validated_eq_ok hValid with ⟨p, rfl⟩
    rfl
  have hOwn := List.mem_of_mem_filter hr
  simp only [World.restrict, ownRows, List.mem_filter,
    decide_eq_true_eq] at hOwn
  exact hNe (hOwn.2.trans hNs.symm)

/- An update of a foreign row changes that row. -/
private theorem foreign_of_committed
    {row : MemoryRow}
    (h : Committed req ns [row.id] w.db.memories w')
    (hRow : row ∈ w.db.memories)
    (hForeign : row.namespace ≠ ns)
    (hValid : row.tInvalid = none) :
    foreignRows ns w'.db ≠ foreignRows ns w.db := by
  rcases h with ⟨new, t, _, hMemories⟩
  intro hSame
  have hMem : row ∈ foreignRows ns w'.db := by
    rw [hSame]
    simpa [foreignRows] using ⟨hRow, hForeign⟩
  have hLater := List.mem_of_mem_filter hMem
  rw [hMemories, Table.mem_update_iff] at hLater
  rcases hLater with ⟨r, _, hr⟩
  split at hr
  · rw [← hr] at hValid
    cases hValid
  · rename_i hOther
    rw [hr] at hOther
    exact hOther (by simp)

omit [LE F] [LT F] [DecidableLE F] [DecidableLT F] in
/- One outcome after two lookups, the second with less. -/
private theorem update_of_fewer
    {o : Outcome F} {rows rows' : List MemoryRow}
    {c c' : Conflict.Classification F}
    (hVerdict : Verdict rows c)
    (hVerdict' : Verdict rows' c')
    (hFewer : rows'.length < rows.length)
    (hReports : o.Reports c)
    (hReports' : o.Reports c') :
    ∃ row, rows = [row] ∧ c = .update row.id := by
  cases hVerdict with
  | clear => simp at hFewer
  | update row => exact ⟨row, rfl, rfl⟩
  | duplicate row similarity =>
      obtain rfl : rows' = [] := by simpa using hFewer
      subst hReports
      cases hVerdict' with
      | clear => cases hReports'
      | multiMatch _ hMany => simp at hMany
  | ambiguous row ratio =>
      obtain rfl : rows' = [] := by simpa using hFewer
      subst hReports
      cases hVerdict' with
      | clear => cases hReports'
      | multiMatch _ hMany => simp at hMany
  | multiMatch rows hMany =>
      subst hReports
      cases hVerdict' with
      | clear => cases hReports'
      | update row => cases hReports'
      | duplicate row similarity => cases hReports'
      | ambiguous row ratio => cases hReports'
      | multiMatch rows' _ =>
          have hIds := Outcome.multiMatchConflict.inj hReports'
          have hLength := congrArg List.length hIds
          simp only [List.length_map] at hLength
          omega

/- A leak shows in a foreign row or in the outcome. -/
private theorem not_isolated_of_leaks
    (hWorld : w.WellFormed env)
    (hLeaks : Leaks env service w req) :
    ¬ Isolated env service w req := by
  rcases hLeaks with
    ⟨hEnsure, hTarget, ctx, hValid, hForeign, hRefused⟩
  rcases hForeign with
    ⟨hType, predicate, hPredicate, row, hRow, hNe⟩
  obtain ⟨hNs, hReq, hNil⟩ :
      ctx.namespace = service.requestNamespace req ∧
        ctx.req = req ∧
          (Embed.run env ctx).supersededIds = [] := by
    rcases validated_eq_ok hValid with ⟨p, rfl⟩
    exact ⟨rfl, rfl, rfl⟩
  intro hIsolated
  have hSame :=
    hIsolated.outcome _ (hWorld.restrict _)
      (agrees_restrict w) not_leaks_restrict
  have hReports :=
    outcome_reports hWorld hEnsure hValid hTarget hType
      hPredicate
  have hReports' :=
    outcome_reports
      (hWorld.restrict (service.requestNamespace req))
      hEnsure hValid hTarget hType hPredicate
  rw [hSame, ← hNs] at hReports'
  -- fewer rows are found without the foreign ones
  have hFewer :
      (lookupRows env ctx predicate
          (w.restrict ctx.namespace)).length <
        (lookupRows env ctx predicate w).length := by
    rw [lookupRows_restrict]
    exact List.length_filter_lt_length_iff_exists.mpr
      ⟨row, hRow, by simpa using hNe⟩
  obtain ⟨found, hRows, hUpdate⟩ :=
    update_of_fewer
      (classified_verdict _ _ ctx predicate)
      (classified_verdict _ _ ctx predicate)
      hFewer hReports hReports'
  obtain rfl : row = found := by
    rw [hRows] at hRow
    exact List.mem_singleton.mp hRow
  have hNames : NamesOk env req.entities := by
    by_contra hNot
    exact hRefused
      ⟨predicate, _, hPredicate, hUpdate, hReq ▸ hNot⟩
  have hChecks :=
    runChecks_semantic hEnsure hValid hTarget hType hPredicate
  rw [hUpdate] at hChecks
  have hCommitted :=
    committed_of_ok hWorld hChecks hTarget hNames
  simp only [hNil, List.nil_append] at hCommitted
  have hFact := (List.mem_filter.mp hRow).2
  simp only [decide_eq_true_eq] at hFact
  exact foreign_of_committed hCommitted
    (List.mem_of_mem_filter hRow) (hNs ▸ hNe)
      hFact.2.2.2 hIsolated.foreign

/- Exactly the leaks break the isolation of a store. -/
theorem store_isolated_iff
    (hWorld : w.WellFormed env) :
    Isolated env service w req ↔
      ¬ Leaks env service w req := by
  constructor
  · exact fun h hLeaks =>
      not_isolated_of_leaks hWorld hLeaks h
  · exact fun hLeaks =>
      ⟨foreign_of_not_leaks hWorld hLeaks,
        fun w' hWorld' hAgrees hLeaks' =>
          outcome_of_not_leaks hWorld hWorld' hAgrees hLeaks
            hLeaks'⟩

/- A store keeps the world well formed. -/
theorem World.WellFormed.store
    (hWorld : w.WellFormed env) :
    (store env service w req).1.WellFormed env := by
  have hStart :
      (StoreStage.ensure req : StoreStage Vec F).Proper
        env w :=
    ⟨(fun _ h => nomatch h), (fun _ _ h => nomatch h)⟩
  have hAll :=
    StoreStage.finish_invariant
      env service
      (I := fun w st => w.WellFormed env ∧ st.Proper env w)
      (fun w st h => StoreStage.step_proper h.1 h.2)
      ⟨hWorld, hStart⟩
  exact hAll.1

end Isolation

theorem wellFormed_empty (env : Env Vec F) :
    (System.empty : System Vec F).world.WellFormed env where
  rows_unique := by simp [System.empty, Table.KeyUnique]
  rows := by simp [System.empty]
  ops := by simp [System.empty]
  entities := by simp [System.empty]

/- One fact, stored in a namespace that is not the default. -/
private def elsewhere : World String :=
  (store Env.plain MemoryService.plain
    (System.empty : System String Rat).world
    { StoreRequest.fact "cat" "is" "asleep" with
      «namespace» := some "elsewhere" }).1

private theorem elsewhere_wellFormed :
    elsewhere.WellFormed Env.plain :=
  (wellFormed_empty Env.plain).store

/- A fact on another subject does not see the one stored. -/
theorem store_isolated_other_subject :
    Isolated Env.plain MemoryService.plain elsewhere
      (.fact "dog" "is" "purring") := by
  refine (store_isolated_iff elsewhere_wellFormed).mpr ?_
  rintro ⟨_, _, ctx, hValid,
    ⟨_, predicate, _, r, hr, _⟩, _⟩
  rcases validated_eq_ok hValid with ⟨p, rfl⟩
  have hRows :
      ∀ r ∈ elsewhere.db.memories, r.subject ≠
        some (Conflict.lookupSubject Env.plain
          (.fact "dog" "is" "purring")) := by
    decide +kernel
  have hFact := (List.mem_filter.mp hr).2
  simp only [decide_eq_true_eq] at hFact
  exact hRows r (List.mem_of_mem_filter hr) hFact.1

/- The same subject and predicate, and another object. -/
theorem store_invalidates_elsewhere :
    ¬ ∀ (w w' : World String) (req : StoreRequest),
        w.WellFormed Env.plain →
        w'.WellFormed Env.plain →
        Agrees (MemoryService.plain.requestNamespace req)
          w w' →
          foreignRows
              (MemoryService.plain.requestNamespace req)
              (store Env.plain MemoryService.plain w
                req).1.db =
            foreignRows
              (MemoryService.plain.requestNamespace req)
                w.db ∧
          (store Env.plain MemoryService.plain w'
              req).2.outcome =
            (store Env.plain MemoryService.plain w
              req).2.outcome := by
  intro hClaim
  have hForeign :=
    (hClaim elsewhere (elsewhere.restrict "default")
      (.fact "cat" "is" "purring") elsewhere_wellFormed
      (elsewhere_wellFormed.restrict "default")
      (agrees_restrict elsewhere)).1
  revert hForeign
  decide +kernel

end Core

end Ferrex
