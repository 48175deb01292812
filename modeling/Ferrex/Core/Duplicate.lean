import Ferrex.Core.Consistency
import Ferrex.Core.Recall

/-
  What a duplicate error promises: the memory it names is a
  valid row of the namespace of the request, as long as the
  checks of a store see no point and no row they should not
  trust.

  Main declarations:
    * `StoreStage.step_eq_duplicate`
    * `Stale`, `TrustsChecks`
    * `duplicate_valid`
-/

------------------------------------------------------------
-- Steps That Report a Duplicate
------------------------------------------------------------

namespace Ferrex

namespace Core

open Store

variable {Vec F : Type}
variable {env : Env Vec F} {service : MemoryService F}
variable {ctx : StoreContext Vec F}

/- The points that the deduplication of a request sees. -/
def Dedup.candidates
    (ctx : StoreContext Vec F)
    (qdrant : Qdrant Vec) : List (Point Vec) :=
  (qdrant.points ctx.namespace).filter
    (fun p => filter ctx.memoryType p.payload)

/- A duplicate is the first answer, over the threshold. -/
theorem Dedup.run_eq_duplicate [LE F] [DecidableLE F]
    {qdrant : Qdrant Vec} {id : String} {score : F}
    (h : Dedup.run env ctx qdrant =
      .error (.duplicate id score)) :
    ∃ embedding rest, ctx.embedding = some embedding ∧
      ctx.memoryType ≠ .semantic ∧
      env.nearest (candidates ctx qdrant) embedding topK =
        (id, score) :: rest ∧
      ctx.dedupConfig.threshold ≤ score := by
  unfold Dedup.run at h
  split at h
  · cases h
  · rename_i hType
    split at h
    · cases h
    · rename_i embedding hEmbedding
      split at h
      · cases h
      · cases h
      · rename_i first score' rest hSearch
        split at h
        · rename_i hScore
          cases h
          refine ⟨embedding, rest, hEmbedding, hType, ?_,
            hScore⟩
          unfold Qdrant.searchDense collectionName at hSearch
          split at hSearch
          · cases hSearch
          · rename_i name hName
            split at hName
            · cases hName
            · cases hName
              exact Except.ok.inj hSearch
        · cases h

section Steps

variable [LE F] [LT F] [DecidableLE F] [DecidableLT F]

/- A duplicate is the only row that the lookup returns. -/
theorem Conflict.run_eq_duplicate
    {db : Sqlite} {id : String} {score : F}
    (h : Conflict.run env ctx db =
      .error (.duplicate id score)) :
    ∃ predicate m, ctx.normalizedPredicate = some predicate ∧
      ctx.memoryType = .semantic ∧
      existing env ctx.req predicate db = [m] ∧
      m.id = id := by
  unfold Conflict.run at h
  split at h
  · cases h
  · rename_i hType
    split at h
    · cases h
    · rename_i predicate hPredicate
      split at h
      case h_2 id' score' hClassify =>
        cases h
        refine ⟨predicate, ?_⟩
        unfold Conflict.classify at hClassify
        split at hClassify
        · cases hClassify
        · rename_i m hExisting
          refine ⟨m, hPredicate, not_not.mp hType,
            hExisting, ?_⟩
          dsimp only at hClassify
          split at hClassify
          · exact (Classification.duplicate.inj hClassify).1
          · split at hClassify
            · exact
                (Classification.duplicate.inj hClassify).1
            · split at hClassify <;> cases hClassify
        · cases hClassify
      all_goals cases h

/- Only the two checks report a duplicate. -/
theorem StoreStage.step_eq_duplicate
    {st : StoreStage Vec F} {w : World Vec}
    {id : String} {score : F}
    (hStage : ∀ result, st ≠ .done result)
    (h :
      (st.step env service w).2 =
        .done (.error (.duplicate id score))) :
    (∃ ctx, st = .dedup ctx ∧
      Dedup.run env ctx w.qdrant =
        .error (.duplicate id score)) ∨
    (∃ ctx, st = .conflict ctx ∧
      Conflict.run env ctx w.db =
        .error (.duplicate id score)) := by
  cases st with
  | dedup ctx =>
      refine Or.inl ⟨ctx, rfl, ?_⟩
      simp only [step] at h
      split at h
      · rename_i e hRun
        cases h
        exact hRun
      · cases h
  | conflict ctx =>
      refine Or.inr ⟨ctx, rfl, ?_⟩
      simp only [step] at h
      split at h
      · rename_i e hRun
        cases h
        exact hRun
      · cases h
  | ensure req =>
      simp only [step] at h
      split at h
      · cases h
      · split at h
        · rename_i e hValid
          rcases validated_eq_error hValid with ⟨m, rfl⟩
          cases h
        · cases h
  | target ctx targetId =>
      simp only [step, checkTarget] at h
      grind
  | resolve ctx r =>
      have hNext :
          ∀ entity result,
            nextName ctx r entity ≠ .done result := by
        intro entity result
        simp only [nextName, afterEntities]
        grind
      simp only [step, resolveStep] at h
      grind
  | done result => exact absurd rfl (hStage result)
  | _ =>
      simp only [step, afterEntities] at h
      grind

end Steps

------------------------------------------------------------
-- Points and Rows to Trust
------------------------------------------------------------

/- A store call past its upsert that has not committed. -/
def Task.adding :
    Task Vec F → Option (StoreContext Vec F)
| .store _ (.mark ctx _ _) => some ctx
| .store _ (.commit ctx _ _) => some ctx
| _ => none

def Task.failed : Task Vec F → Bool
| .store _ (.done (.error _)) => true
| .forget _ (.done (.error _)) => true
| _ => false

/-
  A point that stands for no valid row: its call is past the
  upsert only, or its row is invalidated.
-/
def Stale (s : System Vec F) (k : MemoryKey) : Prop :=
  (∃ i task ctx, s.live i = some task ∧
    task.adding = some ctx ∧ ctx.key = k) ∨
  ∃ r ∈ s.world.db.memories,
    (r.namespace, r.id) = k ∧ r.tInvalid ≠ none

/-
  Where a stale point reaches the threshold, some other
  point is strictly more similar.
-/
def StaleOutscored [LE F] [LT F]
    (env : Env Vec F)
    (s : System Vec F)
    (ctx : StoreContext Vec F) : Prop :=
  ∀ embedding, ctx.embedding = some embedding →
    ∀ p ∈ Dedup.candidates ctx s.world.qdrant,
      Stale s (ctx.namespace, p.id) →
      ctx.dedupConfig.threshold ≤
          env.similarity p.vector embedding →
        ∃ q ∈ Dedup.candidates ctx s.world.qdrant,
          env.similarity p.vector embedding <
            env.similarity q.vector embedding

/- A row found alone is of the namespace of the request. -/
def LookupOwn
    (env : Env Vec F)
    (s : System Vec F)
    (ctx : StoreContext Vec F) : Prop :=
  ∀ predicate m, ctx.normalizedPredicate = some predicate →
    Conflict.existing env ctx.req predicate s.world.db =
        [m] →
      m.namespace = ctx.namespace

variable [LE F] [LT F] [DecidableLE F] [DecidableLT F]

/- What a step of a call needs for its checks to be right. -/
def Task.Trusts
    (env : Env Vec F)
    (service : MemoryService F)
    (s : System Vec F)
    (task : Task Vec F) : Prop :=
  match task with
  | .store _ (.dedup ctx) =>
      ctx.memoryType ≠ .semantic → StaleOutscored env s ctx
  | .store _ (.conflict ctx) => LookupOwn env s ctx
  | task =>
      task.adding ≠ none →
        (task.step env service s.world).2.failed = false

/-
  No store call fails between its upsert and its commit, no
  crash comes between an upsert and its mark, and the checks
  see neither a stale best match nor a row of another
  namespace alone.
-/
def TrustsChecks
    (env : Env Vec F)
    (service : MemoryService F)
    (s : System Vec F) : Event F → Prop
| .fail i _ =>
    ∀ task, s.live i = some task → task.adding = none
| .crash =>
    ∀ i task, s.live i = some task →
      task.adding ≠ none → task.unmarked = false
| .step i =>
    ∀ task, s.live i = some task → task.Trusts env service s
| _ => True

------------------------------------------------------------
-- Points and Their Rows
------------------------------------------------------------

variable {s t : System Vec F} {e : Event F}

omit [LE F] [LT F] [DecidableLE F] [DecidableLT F] in
private theorem adding_of_worker
    {task : Task Vec F}
    {x : IntentJournal.Entry MemoryKey String}
    (hWorker :
      task.worker = .written x ∨ task.worker = .marked x)
    (hKind : x.kind = .add) :
    ∃ ctx, task.adding = some ctx ∧ ctx.key = x.key := by
  cases task with
  | store req stage =>
      cases stage <;>
        simp_all [Task.worker, Task.adding,
          StoreStage.preparing]
      all_goals
        subst hWorker
        rfl
  | forget ids stage =>
      cases stage <;> simp_all [Task.worker]
      all_goals
        subst hWorker
        cases hKind

omit [LE F] [LT F] [DecidableLE F] [DecidableLT F] in
private theorem commit_of_marked
    {task : Task Vec F}
    {x : IntentJournal.Entry MemoryKey String}
    (hWorker : task.worker = .marked x)
    (hKind : x.kind = .add) :
    ∃ req ctx opId startedAt,
      task = .store req (.commit ctx opId startedAt) ∧
        x.op = opId := by
  cases task with
  | store req stage =>
      cases stage <;>
        simp_all [Task.worker, StoreStage.preparing]
      subst hWorker
      rfl
  | forget ids stage =>
      cases stage <;> simp_all [Task.worker]
      subst hWorker
      cases hKind

/- What the rows and the points of a state have in common. -/
structure Trusted
    (env : Env Vec F)
    (service : MemoryService F)
    (s : System Vec F) : Prop where
  ordered : Ordered env s
  points : IntentJournal.PointsCovered s.journal
  owned : IntentJournal.AddsOwned s.journal
  fits : s.Fits service

/- No upsert of a store is cut off from its mark. -/
private theorem not_interrupts_add
    (hNext : s.next env service e = some t)
    (hTrusts : TrustsChecks env service s e) :
    ¬ IntentJournal.Interrupts .add s.journal
      t.journal := by
  intro hCut
  rcases interrupts_cases hNext hCut with
    ⟨i, task, x, hLive, hWorker, hKind, hEvent⟩
  rcases adding_of_worker (Or.inl hWorker) hKind with
    ⟨ctx, hAdding, _⟩
  rcases hEvent with ⟨err, rfl⟩ | rfl
  · simp [hTrusts task hLive] at hAdding
  · have hUnmarked := unmarked_of_written hWorker
    simp [hTrusts i task hLive (by simp [hAdding])]
      at hUnmarked

/- No store leaves its marked op behind while others run. -/
private theorem not_abandons
    (hNext : s.next env service e = some t)
    (hTrusts : TrustsChecks env service s e) :
    ¬ IntentJournal.Abandons s.journal t.journal := by
  rintro ⟨hUp, i, x, hMarked, hKind, hIdle, hEntry⟩
  change s.journalWorkers i = .marked x at hMarked
  change t.journalWorkers i = .idle at hIdle
  obtain ⟨task, hLive⟩ :
      ∃ task, s.live i = some task := by
    cases hLive : s.live i with
    | none => simp [System.journalWorkers, hLive] at hMarked
    | some task => exact ⟨task, rfl⟩
  have hWorker : task.worker = .marked x :=
    (System.journalWorkers_of_live hLive).symm.trans hMarked
  rcases adding_of_worker (Or.inr hWorker) hKind with
    ⟨ctx, hAdding, _⟩
  rcases System.live_next hNext hLive with
    hSame | ⟨rfl, _⟩ | ⟨err, rfl, _⟩ | rfl
  · rw [System.journalWorkers_of_live hSame, hWorker]
      at hIdle
    cases hIdle
  · -- the commit succeeds and takes the op with it
    have hStep := hTrusts task hLive
    rcases commit_of_marked hWorker hKind with
      ⟨req, ctx, opId, startedAt, rfl, hOp⟩
    simp only [System.next, hLive, Option.some.injEq]
      at hNext
    subst hNext
    rcases hEntry with ⟨op, hMem, hEq⟩
    have hOpId : op.opId = opId :=
      (congrArg IntentJournal.Entry.op hEq).trans hOp
    have hFailed := hStep (by simp [Task.adding])
    simp only [Task.step, StoreStage.step] at hMem hFailed
    split at hMem
    · simp_all [Task.failed]
    · rename_i db hCommit
      rcases Sqlite.commitMemoryWrite_eq_ok hCommit with
        ⟨_, links, rfl⟩
      exact (Table.mem_delete_iff.mp hMem).2 hOpId
  · simp [hTrusts task hLive] at hAdding
  · cases hNext
    cases hUp

theorem Trusted.next
    (hTrusted : Trusted env service s)
    (hNext : s.next env service e = some t)
    (hTrusts : TrustsChecks env service s e) :
    Trusted env service t := by
  have hInv := hTrusted.ordered.inv
  have hStep := journal_step hTrusted.ordered.sound hNext
  refine ⟨hTrusted.ordered.next hNext, ?_, ?_, ?_⟩
  · rcases hStep with hEq | hStep
    · exact hEq ▸ hTrusted.points
    · exact hStep.pointsCovered hInv hTrusted.points
        (not_interrupts_add hNext hTrusts)
  · rcases hStep with hEq | hStep
    · exact hEq ▸ hTrusted.owned
    · exact hStep.addsOwned hInv hTrusted.owned
        (not_abandons hNext hTrusts)
  · exact System.tasks_next
      (taskInvariant_fits env service) hNext hTrusted.fits

omit [LE F] [LT F] [DecidableLE F] [DecidableLT F] in
theorem Start.trusted
    (hStart : Start env s) :
    Trusted env service s := by
  refine ⟨hStart.toIdle.ordered, hStart.pointsCovered, ?_, ?_⟩
  · rintro - x ⟨op, hOp, -⟩
    simp [hStart.pendingOps] at hOp
  · intro i call hCall
    simp [hStart.calls i] at hCall

omit [LE F] [LT F] [DecidableLE F] [DecidableLT F] in
/- A memory point that is not stale stands for a valid row. -/
theorem Trusted.valid_row
    {ns id : String}
    (hTrusted : Trusted env service s)
    (hMode : s.mode = .up)
    (hPoint : s.world.qdrant.HasMemoryPoint ns id)
    (hFresh : ¬ Stale s (ns, id)) :
    ∃ r ∈ s.world.db.memories,
      r.namespace = ns ∧ r.id = id ∧ r.tInvalid = none := by
  have hRow :=
    IntentJournal.row_or_adding hTrusted.points
      hTrusted.owned
      (by simp [System.journal, hMode, Mode.journal])
      (show (ns, id) ∈ s.journal.points from hPoint)
  rcases hRow with ⟨r, hr, hKey⟩ | ⟨i, x, hx, hKind, hKey⟩
  · refine ⟨r, hr, congrArg Prod.fst hKey,
      congrArg Prod.snd hKey, ?_⟩
    by_contra hInvalid
    exact hFresh (Or.inr ⟨r, hr, hKey, hInvalid⟩)
  · change s.journalWorkers i = .written x ∨
      s.journalWorkers i = .marked x at hx
    cases hLive : s.live i with
    | none => simp [System.journalWorkers, hLive] at hx
    | some task =>
        rw [System.journalWorkers_of_live hLive] at hx
        rcases adding_of_worker hx hKind with
          ⟨ctx, hAdding, hCtx⟩
        exact absurd
          (Or.inl ⟨i, task, ctx, hLive, hAdding,
            hCtx.trans hKey⟩) hFresh

------------------------------------------------------------
-- Duplicates
------------------------------------------------------------

omit [DecidableLT F] in
/- The first answer to a deduplication query is not stale. -/
theorem Dedup.run_not_stale
    {ctx : StoreContext Vec F} {id : String} {score : F}
    (hSearch : ExactSearch env)
    (hOutscored : StaleOutscored env s ctx)
    (hRun :
      Dedup.run env ctx s.world.qdrant =
        .error (.duplicate id score)) :
    s.world.qdrant.HasMemoryPoint ctx.namespace id ∧
      ¬ Stale s (ctx.namespace, id) := by
  rcases Dedup.run_eq_duplicate hRun with
    ⟨embedding, rest, hEmbedding, _, hNearest, hScore⟩
  rcases hSearch.mem _ _ _ id score
      (by rw [hNearest]; exact List.mem_cons_self) with
    ⟨p, hp, rfl, rfl⟩
  constructor
  · have hFilter := (List.mem_filter.mp hp).2
    exact ⟨p, (List.mem_filter.mp hp).1, rfl,
      (of_decide_eq_true hFilter).1⟩
  · intro hStale
    rcases hOutscored embedding hEmbedding p hp hStale hScore
      with ⟨q, hq, hLess⟩
    exact hSearch.first _ _ _ _ _ _ hNearest q hq hLess

/- The next step of a store call returns Duplicate. -/
def ReturnsDuplicate
    (env : Env Vec F)
    (service : MemoryService F)
    (s : System Vec F)
    (i : Nat)
    (req : StoreRequest)
    (id : String) : Prop :=
  ∃ st score, s.live i = some (.store req st) ∧
    (∀ result, st ≠ .done result) ∧
    (st.step env service s.world).2 =
      .done (.error (.duplicate id score))

/-
  A store that returns Duplicate names a row of its
  namespace that is valid, and that a default recall admits.
-/
theorem duplicate_valid
    {s₀ : System Vec F} {es : List (Event F)} {i : Nat}
    {req : StoreRequest} {id : String}
    (hSearch : ExactSearch env)
    (hStart : Start env s₀)
    (hRun :
      ((machine env service).restrict
        (TrustsChecks env service)).Run s₀ es s)
    (hStep :
      ((machine env service).restrict
        (TrustsChecks env service)).step s (.step i) t)
    (hReturns : ReturnsDuplicate env service s i req id) :
    ∃ r ∈ t.world.db.memories,
      r.namespace = service.requestNamespace req ∧
        r.id = id ∧ r.tInvalid = none ∧
          Recall.admits none false r = true := by
  have hTrusted : Trusted env service s :=
    hRun.restrict_invariant
      (fun _ _ _ hTrusted hNext hTrusts =>
        hTrusted.next hNext hTrusts)
      hStart.trusted
  rcases hStep with ⟨hNext, hTrusts⟩
  rcases hReturns with ⟨st, score, hLive, hStage, hDone⟩
  have hMode := (System.live_eq_some hLive).1
  have hTask := hTrusts _ hLive
  have hFits :=
    (hTrusted.fits i _ (System.live_eq_some hLive).2).2
  change s.next env service (.step i) = some t at hNext
  simp only [System.next, hLive, Option.some.injEq] at hNext
  subst hNext
  suffices hRow :
      ∃ r ∈ (st.step env service s.world).1.db.memories,
        r.namespace = service.requestNamespace req ∧
          r.id = id ∧ r.tInvalid = none by
    rcases hRow with ⟨r, hr, hNs, hId, hValid⟩
    exact ⟨r, hr, hNs, hId, hValid,
      by simp [Recall.admits, hValid]⟩
  rcases StoreStage.step_eq_duplicate hStage hDone with
    ⟨ctx, rfl, hCheck⟩ | ⟨ctx, rfl, hCheck⟩
  · have hNs := (hFits ctx rfl).namespace
    rcases Dedup.run_eq_duplicate hCheck with
      ⟨_, _, _, hType, _⟩
    have hPoint :=
      Dedup.run_not_stale hSearch (hTask hType) hCheck
    have hRow :=
      hTrusted.valid_row hMode hPoint.1 hPoint.2
    simpa [StoreStage.step, hCheck, hNs] using hRow
  · have hNs := (hFits ctx rfl).namespace
    rcases Conflict.run_eq_duplicate hCheck with
      ⟨predicate, m, hPredicate, _, hExisting, rfl⟩
    have hRow :=
      Sqlite.mem_getMemoriesBySubjectPredicate_iff.mp
        ⟨m, by
          rw [← Conflict.existing, hExisting]
          exact List.mem_singleton_self m, rfl⟩
    have hOwn := hTask predicate m hPredicate hExisting
    refine ⟨m.toMemoryRow, ?_, hOwn.trans hNs, rfl,
      hRow.2.2.2.2⟩
    simpa [StoreStage.step, hCheck] using hRow.1

/- A call that is about to return has a next step. -/
theorem ReturnsDuplicate.next
    {i : Nat} {req : StoreRequest} {id : String}
    (h : ReturnsDuplicate env service s i req id) :
    ∃ t, s.next env service (.step i) = some t := by
  rcases h with ⟨st, score, hLive, _⟩
  simp [System.next, hLive]

/- Whether the next step returns Duplicate with an id. -/
private def duplicateNext
    (memoryType : MemoryType)
    (s : System String Rat)
    (i : Nat)
    (id : String) : Bool :=
  match s.live i with
  | some (.store _ (.done _)) => false
  | some (.store req st) =>
      decide (detectMemoryType req = memoryType) &&
      match (st.step Env.plain MemoryService.plain
          s.world).2 with
      | .done (.error (.duplicate existing _)) =>
          decide (existing = id)
      | _ => false
  | _ => false

private theorem returnsDuplicate_of_next
    {memoryType : MemoryType} {s : System String Rat}
    {i : Nat} {id : String}
    (h : duplicateNext memoryType s i id = true) :
    ∃ req, detectMemoryType req = memoryType ∧
      ReturnsDuplicate Env.plain MemoryService.plain s i req
        id := by
  unfold duplicateNext at h
  split at h
  · cases h
  · rename_i req st hStage hLive
    rcases (Bool.and_eq_true _ _).mp h with ⟨hType, hNext⟩
    split at hNext
    · rename_i existing score hDone
      obtain rfl := of_decide_eq_true hNext
      exact ⟨req, of_decide_eq_true hType, st, score, hLive,
        hStage, hDone⟩
    · cases hNext
  · cases h

/- The steps that meet the condition, as no point is seen. -/
private def trustsUnseen
    (s : System String Rat) : Event Rat → Bool
| .step i =>
    match s.live i with
    | some (.store _ (.dedup ctx)) =>
        decide (ctx.memoryType = .semantic) ||
          (Dedup.candidates ctx s.world.qdrant).isEmpty
    | some (.store _ (.conflict ctx)) =>
        match Conflict.existing Env.plain ctx.req
            (ctx.normalizedPredicate.getD "") s.world.db with
        | [m] => decide (m.namespace = ctx.namespace)
        | _ => true
    | some task =>
        !(task.step Env.plain MemoryService.plain
          s.world).2.failed
    | none => true
| .fail _ _ => false
| .crash => false
| _ => true

private theorem trustsChecks_of_unseen
    (s : System String Rat)
    (e : Event Rat)
    (h : trustsUnseen s e = true) :
    TrustsChecks Env.plain MemoryService.plain s e := by
  cases e with
  | step i =>
      intro task hLive
      simp only [trustsUnseen, hLive] at h
      unfold Task.Trusts
      split
      · intro hType embedding _ p hp
        rcases Bool.or_eq_true_iff.mp h with hSame | hNone
        · exact absurd (of_decide_eq_true hSame) hType
        · rw [List.isEmpty_iff.mp hNone] at hp
          cases hp
      · intro predicate m hPredicate hExisting
        simp only [hPredicate, Option.getD_some,
          hExisting] at h
        exact of_decide_eq_true h
      · intro _
        split at h <;> simp_all
  | fail i err => cases h
  | crash => cases h
  | _ => trivial

/- A store is done, and another one is at its check. -/
private def twoStores
    (req : StoreRequest)
    (steps : Nat) : Option (System String Rat) :=
  System.empty.afterWhen Env.plain MemoryService.plain
    trustsUnseen
    (.store 0 req :: (List.replicate 9 (.step 0) ++
      .store 1 req :: List.replicate steps (.step 1)))

/- Neither call is between its upsert and its commit. -/
private def trustsRows (s : System String Rat) : Bool :=
  s.world.db.memories.all (fun r => r.tInvalid.isNone) &&
    [0, 1].all (fun i =>
      (s.calls i).all (fun c => c.task.adding.isNone))

private def atDedup (s : System String Rat) : Bool :=
  (s.live 1).all (fun task =>
    match task with
    | .store _ (.dedup _) => true
    | _ => false)

/- Then a check that sees points sees none that is stale. -/
private theorem trustsChecks_of_rows
    {req : StoreRequest} {steps : Nat}
    {s : System String Rat}
    (hStored : twoStores req steps = some s)
    (hOthers :
      ∀ i, (twoStores req steps).bind
        (fun s => s.calls (i + 2)) = none)
    (hRows : trustsRows s = true)
    (hDedup : atDedup s = true) :
    TrustsChecks Env.plain MemoryService.plain s (.step 1) := by
  rw [trustsRows, Bool.and_eq_true, List.all_eq_true,
    List.all_eq_true] at hRows
  intro task hLive
  obtain ⟨req', ctx, rfl⟩ :
      ∃ req ctx, task = .store req (.dedup ctx) := by
    rw [atDedup, hLive, Option.all_some] at hDedup
    split at hDedup
    · exact ⟨_, _, rfl⟩
    · cases hDedup
  intro _ embedding _ p _ hStale
  rcases hStale with
    ⟨i, task, ctx', hLive', hAdding, _⟩ | ⟨r, hr, _, hInvalid⟩
  · have hCall := (System.live_eq_some hLive').2
    have hAll :
        ∀ i ∈ [0, 1],
          (s.calls i).all (fun c => c.task.adding.isNone) :=
      hRows.2
    cases i with
    | zero => simpa [hCall, hAdding] using hAll 0
    | succ i =>
        cases i with
        | zero => simpa [hCall, hAdding] using hAll 1
        | succ i =>
            have hNone := hOthers i
            rw [hStored] at hNone
            simp [hCall] at hNone
  · exact absurd (Option.isNone_iff_eq_none.mp
      (hRows.1 r hr)) hInvalid

/- The second of two stores names the row of the first. -/
private def SecondDuplicate
    (memoryType : MemoryType)
    (s t : System String Rat) : Prop :=
  ∃ req, detectMemoryType req = memoryType ∧
    ReturnsDuplicate Env.plain MemoryService.plain s 1 req
        (Env.plainUuid 0) ∧
      ∃ r ∈ t.world.db.memories,
        r.namespace =
            MemoryService.plain.requestNamespace req ∧
          r.id = Env.plainUuid 0 ∧ r.tInvalid = none ∧
            Recall.admits none false r = true

/-
  A note stored twice, found among the points, and a fact
  stored twice, found among the rows.
-/
theorem duplicate_valid_second_store :
    (∃ s t, SecondDuplicate .episodic s t) ∧
      ∃ s t, SecondDuplicate .semantic s t := by
  constructor
  · cases hStored :
        twoStores (.note "the cat is asleep") 2 with
    | none =>
        have hSome :
            (twoStores (.note "the cat is asleep")
              2).isSome = true := by
          decide +kernel
        simp [hStored] at hSome
    | some s =>
        have hTest :
            (twoStores (.note "the cat is asleep") 2).all
              (fun s => trustsRows s && atDedup s &&
                duplicateNext .episodic s 1
                  (Env.plainUuid 0)) = true := by
          decide +kernel
        rw [hStored, Option.all_some, Bool.and_eq_true,
          Bool.and_eq_true] at hTest
        rcases returnsDuplicate_of_next hTest.2 with
          ⟨req, hType, hReturns⟩
        rcases hReturns.next with ⟨t, hNext⟩
        exact ⟨s, t, req, hType, hReturns,
          duplicate_valid Env.exactSearch_plain (start_empty _)
            (System.restrict_of_afterWhen
              trustsChecks_of_unseen hStored)
            ⟨hNext, trustsChecks_of_rows hStored
              (fun _ => rfl) hTest.1.1 hTest.1.2⟩ hReturns⟩
  · rcases System.restrict_of_any Env.plain
      MemoryService.plain System.empty
      (.store 0 (.fact "cat" "is" "asleep") ::
        (List.replicate 9 (.step 0) ++
          .store 1 (.fact "cat" "is" "asleep") ::
            List.replicate 3 (.step 1)))
      (fun s =>
        trustsUnseen s (.step 1) &&
          duplicateNext .semantic s 1 (Env.plainUuid 0))
      trustsChecks_of_unseen
      (by decide +kernel) with ⟨s, hRun, hTest⟩
    rw [Bool.and_eq_true] at hTest
    rcases returnsDuplicate_of_next hTest.2 with
      ⟨req, hType, hReturns⟩
    rcases hReturns.next with ⟨t, hNext⟩
    exact ⟨s, t, req, hType, hReturns,
      duplicate_valid Env.exactSearch_plain (start_empty _)
        hRun ⟨hNext, trustsChecks_of_unseen _ _ hTest.1⟩
        hReturns⟩

/-
  A superseded memory keeps its point: stored again, its
  content is a duplicate of a memory that is not valid.
-/
theorem duplicate_of_superseded :
    ¬ ∀ (s₀ s t : System String Rat)
        (es : List (Event Rat)) (i : Nat)
        (req : StoreRequest) (id : String),
        ExactSearch Env.plain →
        Start Env.plain s₀ →
        (machine Env.plain MemoryService.plain).Run
          s₀ es s →
        (machine Env.plain MemoryService.plain).step
          s (.step i) t →
        ReturnsDuplicate Env.plain MemoryService.plain s i
          req id →
          ∃ r ∈ t.world.db.memories,
            r.namespace =
                MemoryService.plain.requestNamespace req ∧
              r.id = id ∧ r.tInvalid = none := by
  intro hClaim
  rcases System.run_of_any Env.plain
    MemoryService.plain System.empty
    (.store 0 (.note "the cat is asleep") ::
      (List.replicate 9 (.step 0) ++
        .store 1 { StoreRequest.note "the cat is awake" with
          supersedes := some (Env.plainUuid 0) } ::
          (List.replicate 8 (.step 1) ++
            .store 2 (.note "the cat is asleep") ::
              List.replicate 2 (.step 2))))
    (fun s =>
      duplicateNext .episodic s 2 (Env.plainUuid 0) &&
        (s.next Env.plain MemoryService.plain (.step 2)).all
          (fun t => t.world.db.memories.all
            (fun r => decide (r.id ≠ Env.plainUuid 0) ||
              r.tInvalid.isSome)))
    (by decide +kernel) with ⟨s, hRun, hTest⟩
  rw [Bool.and_eq_true] at hTest
  rcases returnsDuplicate_of_next hTest.1 with
    ⟨req, _, hReturns⟩
  rcases hReturns.next with ⟨t, hNext⟩
  rcases hClaim _ _ _ _ _ _ _ Env.exactSearch_plain
      (start_empty _) hRun hNext hReturns with
    ⟨r, hr, _, hId, hValid⟩
  have hRows := hTest.2
  rw [hNext, Option.all_some] at hRows
  have hRow := List.all_eq_true.mp hRows r hr
  simp [hId, hValid] at hRow

end Core

end Ferrex
