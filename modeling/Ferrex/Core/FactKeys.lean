import Ferrex.Core.Rows
import Ferrex.Core.Registry
import Ferrex.Core.Calls
import Ferrex.Core.Synonyms

/-
  The key of a stored fact: the subject and the normalized
  predicate of its row.  Validation looks at the raw texts,
  so a key may come out as nothing or as white space; it does
  not for exactly the requests described here.

  Main declarations:
    * `MemoryRow.UsableKey`
    * `PredicateNormalizer.group`
    * `StoreRequest.NamesFact`
    * `System.Commits`
    * `stored_key_usable_iff`
-/

------------------------------------------------------------
-- Usable Keys
------------------------------------------------------------

namespace Ferrex

namespace Store

/- Neither part is empty or nothing but white space. -/
structure MemoryRow.UsableKey (r : MemoryRow) : Prop where
  subject : ∃ s, r.subject = some s ∧ Text.Visible s
  predicate :
    ∃ p, r.normalizedPredicate = some p ∧ Text.Visible p

end Store

namespace Core

open Store

variable {Vec F : Type}
variable {env : Env Vec F}

/-
  The group that a predicate falls into: one of its synonyms
  is the text of the predicate, or is close to it.
-/
def PredicateNormalizer.group
    (env : Env Vec F)
    (n : PredicateNormalizer)
    (input : String) : Option String :=
  (n.lookup.lookup (textNormalize env input)).or
    ((n.bestSynonym env (textNormalize env input)).map
      Prod.fst)

theorem PredicateNormalizer.normalize_eq_group
    {n : PredicateNormalizer} {input : String}
    (hText : textNormalize env input ≠ "") :
    n.normalize env input =
      (n.group env input).getD (textNormalize env input) := by
  unfold normalize group
  dsimp only
  rw [if_neg (by simpa using hText)]
  cases n.lookup.lookup (textNormalize env input) with
  | some c => rw [Option.some_or, Option.getD_some]
  | none =>
      rw [Option.none_or]
      cases n.bestSynonym env (textNormalize env input) with
      | some best => rw [Option.map_some, Option.getD_some]
      | none => rw [Option.map_none, Option.getD_none]

/- Something of the predicate remains, and of its group. -/
theorem PredicateNormalizer.visible_normalize_iff
    {n : PredicateNormalizer} {input : String} :
    Text.Visible (n.normalize env input) ↔
      textNormalize env input ≠ "" ∧
        ∀ name ∈ n.group env input, Text.Visible name := by
  have hShown :
      Text.Visible (textNormalize env input) ↔
        textNormalize env input ≠ "" :=
    Text.visible_normalForm_iff
  by_cases hText : textNormalize env input = ""
  · have hNothing : n.normalize env input = "" := by
      unfold normalize
      dsimp only
      rw [hText]
      rfl
    rw [hNothing]
    constructor
    · rintro ⟨c, hMem, _⟩
      cases hMem
    · exact fun h => absurd hText h.1
  · rw [normalize_eq_group hText]
    cases hGroup : n.group env input with
    | none =>
        rw [Option.getD_none, hShown]
        simp
    | some name => simp [hText]

/- What a request has to say for its fact to have a key. -/
structure StoreRequest.NamesFact
    (env : Env Vec F)
    (service : MemoryService F)
    (req : StoreRequest) : Prop where
  subject : ∃ s ∈ req.subject, Text.Visible s
  predicate :
    ∃ p ∈ req.predicate,
      PredicateNormalizer.textNormalize env p ≠ "" ∧
        ∀ name ∈ (service.normalizer
            (service.requestNamespace req)).group env p,
          Text.Visible name

------------------------------------------------------------
-- Contexts That Were Validated
------------------------------------------------------------

/-
  What validation and the predicate stage leave behind in the
  context of a semantic memory.
-/
structure StoreContext.Keyed
    (env : Env Vec F)
    (service : MemoryService F)
    (req : StoreRequest)
    (ctx : StoreContext Vec F) : Prop where
  subject : ∃ s, req.subject = some s
  predicate :
    ∃ p, req.predicate = some p ∧
      ctx.normalizedPredicate =
        some ((service.normalizer
          (service.requestNamespace req)).normalize env p)

theorem validated_semantic
    {ctx ctx' : StoreContext Vec F}
    (hType : ctx.memoryType = .semantic)
    (h : validated env ctx = .ok ctx') :
    ∃ s p, ctx.req.subject = some s ∧
      ctx.req.predicate = some p ∧
      ctx' = { ctx with
        normalizedPredicate :=
          some (ctx.normalizer.normalize env p) } := by
  unfold validated at h
  cases hRun : Validate.run env ctx with
  | error e =>
      rw [hRun] at h
      cases h
  | ok valid =>
      obtain ⟨s, hs⟩ : ∃ s, ctx.req.subject = some s := by
        cases hCase : ctx.req.subject with
        | none =>
            unfold Validate.run Validate.checkFields at hRun
            simp [hType, hCase, Validate.nonEmpty, bind,
              Except.bind, throw, throwThe,
              MonadExceptOf.throw] at hRun
            split at hRun <;> cases hRun
        | some s => exact ⟨s, rfl⟩
      rw [hRun] at h
      dsimp only at h
      rw [if_pos hType, NormalizePredicate.run,
        if_neg (by simp [hType])] at h
      cases hPredicate : ctx.req.predicate with
      | none =>
          rw [hPredicate] at h
          cases h
      | some p =>
          rw [hPredicate] at h
          exact ⟨s, p, hs, rfl, (Except.ok.inj h).symm⟩

/- Later stages keep the predicate. -/
structure SamePredicate
    (ctx ctx' : StoreContext Vec F) : Prop where
  predicate :
    ctx'.normalizedPredicate = ctx.normalizedPredicate
  memoryType : ctx'.memoryType = ctx.memoryType

private theorem context_afterEntities
    (ctx : StoreContext Vec F) :
    (afterEntities ctx).context = some ctx := by
  unfold afterEntities
  split <;> rfl

private theorem context_nextName
    {ctx ctx' : StoreContext Vec F}
    {r : Resolving Vec} {entity : Store.Entity}
    (h : (nextName ctx r entity).context = some ctx') :
    SamePredicate ctx ctx' := by
  rcases nextName_resolving ctx r entity with
    ⟨_, hEq⟩ | ⟨_, _, _, hEq⟩
  · rw [hEq, context_afterEntities] at h
    cases h
    exact ⟨rfl, rfl⟩
  · rw [hEq] at h
    cases h
    exact ⟨rfl, rfl⟩

section Steps

variable [LE F] [LT F] [DecidableLE F] [DecidableLT F]
variable {service : MemoryService F}

omit [LE F] [DecidableLE F] in
private theorem context_resolveStep
    {w : World Vec} {ctx ctx' : StoreContext Vec F}
    {r : Resolving Vec}
    (h : (resolveStep env w ctx r).2.context = some ctx') :
    SamePredicate ctx ctx' := by
  have hMove := resolveStep_move env w ctx r
  revert h hMove
  generalize resolveStep env w ctx r = next
  intro h hMove
  rcases next with ⟨w', st⟩
  cases hMove with
  | known => exact context_nextName h
  | point => exact context_nextName h
  | addAlias => exact context_nextName h
  | similar | unknown | close | distant | create =>
      cases h
      exact ⟨rfl, rfl⟩
  | empty | refused | orphan | unreachable => cases h

theorem StoreStage.context_step
    {w : World Vec} {st : StoreStage Vec F}
    {ctx ctx' : StoreContext Vec F}
    (hContext : st.context = some ctx)
    (h : (st.step env service w).2.context = some ctx') :
    SamePredicate ctx ctx' := by
  cases st with
  | resolve ctx₀ r =>
      cases hContext
      exact context_resolveStep h
  | conflict ctx₀ =>
      cases hContext
      simp only [step] at h
      split at h
      · cases h
      · rename_i hRun
        cases h
        unfold Conflict.run at hRun
        split at hRun
        · cases hRun
          exact ⟨rfl, rfl⟩
        · split at hRun
          · cases hRun
          · split at hRun <;> cases hRun <;> exact ⟨rfl, rfl⟩
  | entities ctx₀ =>
      cases hContext
      simp only [step] at h
      split at h
      · rw [context_afterEntities] at h
        cases h
        exact ⟨rfl, rfl⟩
      · split at h <;> cases h
        exact ⟨rfl, rfl⟩
  | embed ctx₀ =>
      cases hContext
      simp only [step] at h
      split at h <;> cases h <;> exact ⟨rfl, rfl⟩
  | insertOp ctx₀ =>
      cases hContext
      simp only [step] at h
      split at h
      · cases h
      · split at h <;> cases h
        exact ⟨rfl, rfl⟩
  | dedup ctx₀ | target ctx₀ _ | upsert ctx₀ _ _ _
  | commit ctx₀ _ _ =>
      cases hContext
      simp only [step] at h
      split at h <;> cases h
      all_goals exact ⟨rfl, rfl⟩
  | mark ctx₀ _ _ =>
      cases hContext
      cases h
      exact ⟨rfl, rfl⟩
  | ensure _ | done _ => cases hContext

------------------------------------------------------------
-- Runs
------------------------------------------------------------

/- The context of a semantic call, at every stage. -/
def Task.Keyed
    (env : Env Vec F)
    (service : MemoryService F) : Task Vec F → Prop
| .store req stage =>
    ∀ ctx, stage.context = some ctx →
      ctx.memoryType = .semantic →
        ctx.Keyed env service req
| .forget _ _ => True

private theorem keyed_ensure
    {w : World Vec} {req : StoreRequest}
    {ctx : StoreContext Vec F}
    (h :
      ((StoreStage.ensure req).step env service w).2.context =
        some ctx)
    (hType : ctx.memoryType = .semantic) :
    ctx.Keyed env service req := by
  simp only [StoreStage.step] at h
  split at h
  · cases h
  · split at h
    · cases h
    · rename_i hValidated
      cases h
      rcases validated_eq_ok hValidated with ⟨_, hSame⟩
      have hSemantic :
          (newContext env service w req).memoryType =
            .semantic := by
        rw [hSame] at hType
        exact hType
      rcases validated_semantic hSemantic hValidated with
        ⟨s, p, hSubject, hPredicate, hCtx⟩
      exact ⟨⟨s, hSubject⟩, p, hPredicate, by
        rw [hCtx]
        rfl⟩

theorem taskInvariant_keyed
    (env : Env Vec F)
    (service : MemoryService F) :
    TaskInvariant env service
      (fun _ task =>
        task.Fits service ∧ task.Keyed env service) where
  store c req := by
    refine ⟨(taskInvariant_fits env service).store c req, ?_⟩
    intro ctx hContext
    cases hContext
  forget c ids :=
    ⟨(taskInvariant_fits env service).forget c ids, trivial⟩
  step w task hTask := by
    refine ⟨(taskInvariant_fits env service).step w task
      hTask.1, ?_⟩
    cases task with
    | forget ids st => trivial
    | store req st =>
        intro ctx' hContext hType
        have hFrom :
            ∀ {ctx : StoreContext Vec F},
              st.context = some ctx →
                ctx'.Keyed env service req := by
          intro ctx hOld
          have hSame := StoreStage.context_step hOld hContext
          have hKeyed :=
            hTask.2 ctx hOld (hSame.memoryType ▸ hType)
          exact ⟨hKeyed.subject, by
            rw [hSame.predicate]
            exact hKeyed.predicate⟩
        cases st with
        | ensure req' =>
            obtain rfl := hTask.1.1 req' rfl
            exact keyed_ensure hContext hType
        | done result => cases hContext
        | _ => exact hFrom rfl
  fail c task e hTask := by
    refine ⟨(taskInvariant_fits env service).fail c task e
      hTask.1, ?_⟩
    cases task with
    | forget ids st => trivial
    | store req st =>
        intro ctx hContext
        cases hContext
  mono _ _ _ _ hTask := hTask

variable {s t u : System Vec F}
variable {i : Nat} {req : StoreRequest} {row : MemoryRow}

omit [LE F] [LT F] [DecidableLE F] [DecidableLT F] in
/-
  A call is at its commit, then it has its answer, and the
  row is the one with the id of the answer.
-/
structure System.Commits
    (t : System Vec F)
    (i : Nat)
    (req : StoreRequest)
    (row : MemoryRow)
    (u : System Vec F) : Prop where
  before :
    ∃ ctx opId startedAt,
      t.live i = some (.store req (.commit ctx opId startedAt))
  after :
    ∃ resp,
      u.live i = some (.store req (.done (.ok resp))) ∧
        row.id = resp.id
  mem : row ∈ u.world.db.memories

/- The row is the one that its context describes. -/
theorem System.Commits.row_eq
    (hNext : t.next env service (.step i) = some u)
    (hCommits : t.Commits i req row u) :
    ∃ ctx opId startedAt,
      t.live i =
          some (.store req (.commit ctx opId startedAt)) ∧
        row.subject = (Write.row env ctx).subject ∧
        row.normalizedPredicate = ctx.normalizedPredicate ∧
        row.memoryType = ctx.memoryType := by
  rcases hCommits.before with ⟨ctx, opId, startedAt, hLive⟩
  rcases hCommits.after with ⟨resp, hAnswer, hId⟩
  refine ⟨ctx, opId, startedAt, hLive, ?_⟩
  have hAfter := System.live_step hNext hLive
  have hWorld :
      u.world =
        ((Task.store req (.commit ctx opId startedAt)).step env
          service t.world).1 := by
    simp only [System.next, hLive, Option.some.injEq] at hNext
    rw [← hNext]
    rfl
  simp only [hAnswer, Task.step, StoreStage.step]
    at hAfter hWorld
  split at hAfter
  · cases hAfter
  · rename_i db hWrite
    cases hAfter
    rcases Sqlite.commitMemoryWrite_eq_ok hWrite with
      ⟨hFresh, links, hDb⟩
    have hMem := hCommits.mem
    rw [hWorld, hWrite, hDb] at hMem
    rcases Table.mem_update_iff.mp hMem with ⟨r, hr, hRow⟩
    have hSame : r.id = row.id := by
      rw [← hRow]
      split <;> rfl
    have hNew : r = Write.row env ctx := by
      rcases List.mem_append.mp hr with hOld | hNew
      · exact absurd ⟨r, hOld, hSame.trans hId⟩ hFresh
      · exact List.mem_singleton.mp hNew
    rw [← hRow, hNew]
    split <;> exact ⟨rfl, rfl, rfl⟩

/-
  A committed fact has a usable key if and only if the
  request has a subject to show, and a predicate of which
  something remains when it is normalized, in no group whose
  name is blank.
-/
theorem stored_key_usable_iff
    {es : List (Event F)}
    (hStart : (machine env service).initial s)
    (hRun : (machine env service).Run s es t)
    (hNext : t.next env service (.step i) = some u)
    (hCommits : t.Commits i req row u)
    (hSemantic : row.memoryType = .semantic) :
    row.UsableKey ↔ req.NamesFact env service := by
  rcases hCommits.row_eq hNext with
    ⟨ctx, opId, startedAt, hLive, hSubject, hPredicate, hType⟩
  have hTasks :
      ∀ j call, t.calls j = some call →
        call.task.Fits service ∧ call.task.Keyed env service :=
    hRun.invariant
      (I := fun s =>
        ∀ j call, s.calls j = some call →
          call.task.Fits service ∧ call.task.Keyed env service)
      (fun _ _ _ hOld hStep =>
        System.tasks_next (taskInvariant_keyed env service)
          hStep hOld)
      (fun j call hCall => by simp [hStart.2 j] at hCall)
  rcases hTasks i _ (System.live_eq_some hLive).2 with
    ⟨hFits, hKeyedTask⟩
  have hRequest : ctx.req = req := (hFits.2 ctx rfl).request
  have hKeyed := hKeyedTask ctx rfl (hType ▸ hSemantic)
  rcases hKeyed.subject with ⟨text, hText⟩
  rcases hKeyed.predicate with ⟨p, hReq, hNormalized⟩
  have hStored :
      row.subject =
        some (env.toLowercase (Text.trim text)) := by
    rw [hSubject]
    simp [Write.row, Write.buildMemory, hRequest, hText]
  have hSubjects :
      Text.Visible (env.toLowercase (Text.trim text)) ↔
        Text.Visible text :=
    Text.visible_toLowercase_iff.trans Text.visible_trim_iff
  rw [hNormalized] at hPredicate
  constructor
  · intro hUsable
    rcases hUsable.subject with ⟨s', hs', hShown⟩
    rcases hUsable.predicate with ⟨p', hp', hLeft⟩
    rw [← Option.some.inj (hStored.symm.trans hs'),
      hSubjects] at hShown
    rw [← Option.some.inj (hPredicate.symm.trans hp'),
      PredicateNormalizer.visible_normalize_iff] at hLeft
    exact ⟨⟨text, hText, hShown⟩, p, hReq, hLeft⟩
  · intro hNames
    rcases hNames.subject with ⟨s', hs', hShown⟩
    rcases hNames.predicate with ⟨p', hp', hLeft⟩
    rw [← Option.some.inj (hText.symm.trans hs'),
      ← hSubjects] at hShown
    rw [← Option.some.inj (hReq.symm.trans hp'),
      ← PredicateNormalizer.visible_normalize_iff] at hLeft
    exact ⟨⟨_, hStored, hShown⟩, _, hPredicate, hLeft⟩

end Steps

------------------------------------------------------------
-- Two Facts
------------------------------------------------------------

/- What the next step of a call commits, and for what. -/
private def committing
    (t : System String Rat)
    (i : Nat) : Option (StoreRequest × MemoryRow) :=
  match t.live i,
      t.next Env.plain MemoryService.plain (.step i) with
  | some (.store req (.commit _ _ _)), some u =>
      match u.live i with
      | some (.store _ (.done (.ok resp))) =>
          (u.world.db.memories.find?
            (fun r => r.id = resp.id)).map (fun r => (req, r))
      | _ => none
  | _, _ => none

private theorem commits_of_committing
    {t : System String Rat} {i : Nat}
    {req : StoreRequest} {row : MemoryRow}
    (h : committing t i = some (req, row)) :
    ∃ u, t.next Env.plain MemoryService.plain (.step i) =
        some u ∧
      t.Commits i req row u := by
  unfold committing at h
  split at h
  · rename_i req' ctx opId startedAt u hLive hNext
    split at h
    · rename_i req'' resp hAnswer
      rcases Option.map_eq_some_iff.mp h with ⟨r, hFind, hEq⟩
      cases hEq
      have hAfter := System.live_step hNext hLive
      have hSame : req'' = req := by
        rw [hAnswer] at hAfter
        exact (Task.store.inj (Option.some.inj hAfter)).1
      exact ⟨u, hNext, ⟨ctx, opId, startedAt, hLive⟩,
        ⟨resp, hSame ▸ hAnswer, by
          simpa using List.find?_some hFind⟩,
        List.mem_of_find?_eq_some hFind⟩
    · cases h
  · cases h

/- A fact about the cat has a key. -/
theorem stored_key_usable_cat :
    ∃ row : MemoryRow,
      row.subject = some "cat" ∧
        row.normalizedPredicate = some "is" ∧
        row.UsableKey := by
  rcases System.run_of_any Env.plain
    MemoryService.plain System.empty
    (.store 0 (.fact "Cat" "is" "asleep") ::
      List.replicate 8 (.step 0))
    (fun t => (committing t 0).any
      (fun c : StoreRequest × MemoryRow => decide
      (c.1.subject = some "Cat" ∧ c.1.predicate = some "is" ∧
        c.2.memoryType = .semantic ∧
        c.2.subject = some "cat" ∧
        c.2.normalizedPredicate = some "is")))
    (by decide +kernel) with ⟨t, hRun, hTest⟩
  rcases (Option.any_eq_true _ _).mp hTest with
    ⟨⟨req, row⟩, hCommitting, hGet⟩
  rw [decide_eq_true_eq] at hGet
  rcases hGet with ⟨hSubject, hPredicate, hType, hRow, hKey⟩
  rcases commits_of_committing hCommitting with
    ⟨u, hNext, hCommits⟩
  refine ⟨row, hRow, hKey, ?_⟩
  refine (stored_key_usable_iff ⟨rfl, fun _ => rfl⟩ hRun hNext
    hCommits hType).mpr ?_
  exact ⟨⟨"Cat", hSubject, by decide +kernel⟩, "is", hPredicate,
    by decide +kernel, fun name hName => by cases hName⟩

/-
  A predicate of separators passes validation and is stored
  as nothing.
-/
theorem stored_key_blank :
    ¬ ∀ (s t u : System String Rat) (es : List (Event Rat))
        (i : Nat) (req : StoreRequest) (row : MemoryRow),
        (machine Env.plain MemoryService.plain).initial s →
        (machine Env.plain MemoryService.plain).Run s es t →
        t.next Env.plain MemoryService.plain (.step i) =
            some u →
        t.Commits i req row u →
        row.memoryType = .semantic →
          row.UsableKey := by
  intro hClaim
  rcases System.run_of_any Env.plain
    MemoryService.plain System.empty
    (.store 0 (.fact "cat" "---" "asleep") ::
      List.replicate 8 (.step 0))
    (fun t => (committing t 0).any
      (fun c : StoreRequest × MemoryRow => decide
      (c.2.memoryType = .semantic ∧
        c.2.normalizedPredicate = some "")))
    (by decide +kernel) with ⟨t, hRun, hTest⟩
  rcases (Option.any_eq_true _ _).mp hTest with
    ⟨⟨req, row⟩, hCommitting, hGet⟩
  rw [decide_eq_true_eq] at hGet
  rcases commits_of_committing hCommitting with
    ⟨u, hNext, hCommits⟩
  rcases (hClaim _ _ _ _ _ _ _ ⟨rfl, fun _ => rfl⟩ hRun hNext
    hCommits hGet.1).predicate with ⟨p, hp, c, hc, _⟩
  rw [hGet.2] at hp
  rw [← Option.some.inj hp] at hc
  cases hc

end Core

end Ferrex
