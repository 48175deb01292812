import Ferrex.Core.Rows

/-
  Supersession: the memories that a store call means to
  invalidate were committed before, and as long as each of
  them is still valid at the commit, one call at most
  supersedes a memory, for good.

  Main declarations:
    * `StoreStage.Aimed`, `StoreStage.step_aimed`
    * `SupersedesValid`
    * `FinalFrom`, `Exclusive`
    * `supersede_exclusive`
-/

------------------------------------------------------------
-- Targets
------------------------------------------------------------

namespace Ferrex

namespace Core

open Store

variable {Vec F : Type}
variable {env : Env Vec F} {service : MemoryService F}
variable {s t : System Vec F} {e : Event F}

/- The id of a memory that is or was a row. -/
def System.Known
    (s : System Vec F)
    (id : String) : Prop :=
  ∃ k ∈ s.committed, k.2 = id

/-
  What a call is to invalidate is known: the rows its lookup
  found, and its target once that has been checked.
-/
def StoreStage.Aimed
    (known : String → Prop) : StoreStage Vec F → Prop
| .target ctx targetId =>
    (∀ id ∈ ctx.supersededIds, known id) ∧
      ctx.req.supersedes = some targetId
| .insertOp ctx => ∀ id ∈ Write.invalidateIds ctx, known id
| .upsert ctx _ _ _ =>
    ∀ id ∈ Write.invalidateIds ctx, known id
| .mark ctx _ _ => ∀ id ∈ Write.invalidateIds ctx, known id
| .commit ctx _ _ =>
    ∀ id ∈ Write.invalidateIds ctx, known id
| .embed ctx => ∀ id ∈ ctx.supersededIds, known id
| .dedup ctx => ∀ id ∈ ctx.supersededIds, known id
| .conflict ctx => ∀ id ∈ ctx.supersededIds, known id
| .entities ctx => ∀ id ∈ ctx.supersededIds, known id
| .resolve ctx _ => ∀ id ∈ ctx.supersededIds, known id
| .ensure _ => True
| .done _ => True

namespace StoreStage

variable {known known' : String → Prop}

theorem Aimed.mono
    {st : StoreStage Vec F}
    (hAimed : st.Aimed known)
    (hKnown : ∀ id, known id → known' id) :
    st.Aimed known' := by
  cases st with
  | target ctx targetId =>
      exact ⟨fun id hId => hKnown id (hAimed.1 id hId),
        hAimed.2⟩
  | ensure req => exact True.intro
  | done result => exact True.intro
  | _ => exact fun id hId => hKnown id (hAimed id hId)

private theorem aimed_afterEntities
    {ctx : StoreContext Vec F}
    (h : ∀ id ∈ ctx.supersededIds, known id) :
    (afterEntities ctx).Aimed known := by
  unfold afterEntities
  split
  · rename_i targetId hTarget
    exact ⟨h, hTarget⟩
  · rename_i hNone
    simpa [Aimed, Write.invalidateIds, hNone] using h

private theorem aimed_nextName
    {ctx : StoreContext Vec F}
    (r : Resolving Vec)
    (entity : Store.Entity)
    (h : ∀ id ∈ ctx.supersededIds, known id) :
    (nextName ctx r entity).Aimed known := by
  unfold nextName
  dsimp only
  split
  · exact aimed_afterEntities h
  · exact h

/- Where a step of the resolution of a name can lead. -/
theorem resolveStep_rule [LT F] [DecidableLT F]
    {P : StoreStage Vec F → Prop}
    (w : World Vec)
    (ctx : StoreContext Vec F)
    (r : Resolving Vec)
    (hStop : ∀ e, P (.done (.error e)))
    (hStay : ∀ r', P (.resolve ctx r'))
    (hNext : ∀ entity, P (nextName ctx r entity)) :
    P (resolveStep env w ctx r).2 := by
  unfold resolveStep
  cases r.phase with
  | exact =>
      dsimp only
      split
      · exact hStop _
      · split
        · exact hNext _
        · split <;> exact hStay _
  | search =>
      dsimp only
      split
      · exact hStop _
      · split <;> exact hStay _
  | create embedding =>
      dsimp only
      split
      · exact hStop _
      · exact hStay _
  | point entity embedding =>
      dsimp only
      split
      · exact hStop _
      · exact hNext _
  | addAlias entity =>
      dsimp only
      split
      · exact hStop _
      · exact hNext _

/- A target that passes its check is the id of a row. -/
theorem checkTarget_eq_ok
    {ctx : StoreContext Vec F} {targetId : String}
    {db : Sqlite}
    (h : checkTarget ctx targetId db = .ok ()) :
    ∃ r ∈ db.memories, r.id = targetId := by
  unfold checkTarget at h
  split at h
  · cases h
  · rename_i target hFound
    rcases Sqlite.getMemory_eq_some hFound with ⟨hMem, hId⟩
    exact ⟨_, hMem, hId⟩

variable [LE F] [LT F] [DecidableLE F] [DecidableLT F]

/- The lookup adds the ids of rows. -/
private theorem known_of_conflict
    {ctx ctx' : StoreContext Vec F} {db : Sqlite}
    (hRows : ∀ r ∈ db.memories, known r.id)
    (hRun : Conflict.run env ctx db = .ok ctx')
    (h : ∀ id ∈ ctx.supersededIds, known id) :
    ∀ id ∈ ctx'.supersededIds, known id := by
  unfold Conflict.run at hRun
  split at hRun
  · cases hRun
    exact h
  · split at hRun
    · cases hRun
    · split at hRun <;> cases hRun
      · exact h
      · rename_i id hClass
        rcases Conflict.classify_eq_update hClass with
          ⟨m, hFound, rfl⟩
        have hRow :=
          Sqlite.mem_getMemoriesBySubjectPredicate_iff.mp
            ⟨m, by
              rw [← Conflict.existing, hFound]
              exact List.mem_singleton_self m, rfl⟩
        intro id hId
        rcases List.mem_append.mp hId with hOld | hNew
        · exact h id hOld
        · rw [List.mem_singleton.mp hNew]
          exact hRows _ hRow.1

theorem step_aimed
    {w : World Vec} {st : StoreStage Vec F}
    (hRows : ∀ r ∈ w.db.memories, known r.id)
    (hAimed : st.Aimed known) :
    (st.step env service w).2.Aimed known := by
  cases st with
  | ensure req =>
      simp only [step]
      split
      · exact True.intro
      · split
        · exact True.intro
        · rename_i ctx hValid
          rcases validated_eq_ok hValid with ⟨p, rfl⟩
          simp [Aimed, newContext, StoreContext.new]
  | embed ctx =>
      simp only [step]
      split <;> exact hAimed
  | dedup ctx =>
      simp only [step]
      split
      · exact True.intro
      · exact hAimed
  | conflict ctx =>
      simp only [step]
      split
      · exact True.intro
      · rename_i ctx' hRun
        exact known_of_conflict hRows hRun hAimed
  | entities ctx =>
      simp only [step]
      split
      · exact aimed_afterEntities hAimed
      · split
        · exact True.intro
        · exact hAimed
  | resolve ctx r =>
      exact resolveStep_rule w ctx r (fun _ => True.intro)
        (fun _ => hAimed)
        (fun entity => aimed_nextName r entity hAimed)
  | target ctx targetId =>
      simp only [step]
      split
      · exact True.intro
      · rename_i hCheck
        rcases checkTarget_eq_ok hCheck with
          ⟨r, hr, hId⟩
        intro id hMem
        rw [Write.invalidateIds, hAimed.2,
          Option.toList_some, List.mem_append,
          List.mem_singleton] at hMem
        rcases hMem with hOld | rfl
        · exact hAimed.1 id hOld
        · exact hId ▸ hRows r hr
  | insertOp ctx =>
      simp only [step]
      split
      · exact True.intro
      · split
        · exact True.intro
        · exact hAimed
  | upsert ctx embedding opId startedAt =>
      simp only [step]
      split
      · exact True.intro
      · exact hAimed
  | mark ctx opId startedAt => exact hAimed
  | commit ctx opId startedAt =>
      simp only [step]
      split <;> exact True.intro
  | done result => exact True.intro

end StoreStage

------------------------------------------------------------
-- Calls and Their Targets
------------------------------------------------------------

variable [LE F] [LT F] [DecidableLE F] [DecidableLT F]

theorem System.committed_subset
    (hNext : s.next env service e = some t) :
    s.committed ⊆ t.committed := by
  intro k hk
  cases System.next_eq_some hNext with
  | step i task _ => exact List.mem_append_left _ hk
  | _ => exact hk

theorem System.Known.next
    {id : String}
    (hKnown : s.Known id)
    (hNext : s.next env service e = some t) :
    t.Known id := by
  rcases hKnown with ⟨k, hk, hId⟩
  exact ⟨k, System.committed_subset hNext hk, hId⟩

/- What every store call is to invalidate is known. -/
def System.Aimed (s : System Vec F) : Prop :=
  ∀ i call req stage, s.calls i = some call →
    call.task = .store req stage → stage.Aimed s.Known

theorem System.Aimed.next
    (hAimed : s.Aimed)
    (hOrdered : Ordered env s)
    (hNext : s.next env service e = some t) :
    t.Aimed := by
  have hRows :
      ∀ r ∈ s.world.db.memories, s.Known r.id :=
    fun r hr => ⟨_, hOrdered.sound.world.rows r hr, rfl⟩
  intro i call req stage hCall hTask
  rcases System.calls_next hNext hCall with
    ⟨old, hOld, hSame⟩ | ⟨req', _, hStart⟩ |
      ⟨ids, _, hStart⟩ | ⟨task, _, hLive, hStep⟩ |
        ⟨task, err, _, _, hFail⟩
  · exact (hAimed i old req stage hOld
      (hSame ▸ hTask)).mono (fun _ h => h.next hNext)
  · cases hTask.symm.trans hStart
    exact True.intro
  · cases hTask.symm.trans hStart
  · cases task with
    | forget ids st => cases hTask.symm.trans hStep
    | store req' st =>
        cases hTask.symm.trans hStep
        have hOld :=
          hAimed i _ req st (System.live_eq_some hLive).2 rfl
        exact (StoreStage.step_aimed hRows hOld).mono
          (fun _ h => h.next hNext)
  · cases task with
    | forget ids st => cases hTask.symm.trans hFail
    | store req' st =>
        cases hTask.symm.trans hFail
        exact True.intro

omit [LE F] [LT F] [DecidableLE F] [DecidableLT F] in
/- The new memory of a call that is to commit is not known. -/
theorem Ordered.not_known
    {i : Nat} {req : StoreRequest}
    {ctx : StoreContext Vec F} {opId : String}
    {startedAt : DateTime}
    (hOrdered : Ordered env s)
    (hLive :
      s.live i =
        some (.store req (.commit ctx opId startedAt))) :
    ¬ s.Known ctx.id := by
  rintro ⟨k, hk, hId⟩
  exact hOrdered.inv.adds_fresh i ctx.key
    (by
      change (s.journalWorkers i).task = _
      rw [System.journalWorkers_of_live hLive]
      rfl) k hk hId

/- A call that has answered that it superseded a memory. -/
def System.Supersedes
    (s : System Vec F)
    (i : Nat)
    (id : String) : Prop :=
  ∃ req resp, s.Answered i req resp ∧ id ∈ resp.superseded

omit [LE F] [LT F] [DecidableLE F] [DecidableLT F] in
/- What a call reports as superseded it invalidates. -/
theorem Write.superseded_subset
    (ctx : StoreContext Vec F) :
    Write.superseded ctx ⊆ Write.invalidateIds ctx := by
  unfold Write.superseded Write.invalidateIds
  cases ctx.req.supersedes <;> simp

/-
  Each memory that a commit is to invalidate is still valid,
  or it is gone and no call has superseded it.
-/
def SupersedesValid (s : System Vec F) : Event F → Prop
| .step i =>
    ∀ req ctx opId startedAt,
      s.live i =
          some (.store req (.commit ctx opId startedAt)) →
        ∀ id ∈ Write.invalidateIds ctx,
          (∀ r ∈ s.world.db.memories, r.id = id →
            r.tInvalid = none) ∧
          ((∃ r ∈ s.world.db.memories, r.id = id) ∨
            ∀ j, ¬ s.Supersedes j id)
| _ => True

/- Between two states no invalidated row changes its time. -/
def FinalFrom (s t : System Vec F) : Prop :=
  ∀ r ∈ s.world.db.memories, ∀ r' ∈ t.world.db.memories,
    r'.id = r.id → r.tInvalid.isSome = true →
      r'.tInvalid = r.tInvalid

/-
  A memory is superseded by one call at most; it is not
  valid then, and other calls with that target have failed.
-/
structure Exclusive (s : System Vec F) : Prop where
  invalid :
    ∀ i id, s.Supersedes i id →
      ∀ r ∈ s.world.db.memories, r.id = id →
        r.tInvalid.isSome = true
  once :
    ∀ i j id, s.Supersedes i id → s.Supersedes j id → i = j
  refused :
    ∀ i j id call req result, s.Supersedes i id → j ≠ i →
      s.calls j = some call →
      call.task = .store req (.done result) →
      req.supersedes = some id →
        ∃ err, result = .error err

------------------------------------------------------------
-- Runs
------------------------------------------------------------

/- The state of all supersessions in a run. -/
structure Settled
    (env : Env Vec F)
    (service : MemoryService F)
    (s : System Vec F) : Prop where
  ordered : Ordered env s
  aimed : s.Aimed
  fits : s.Fits service
  known : ∀ i id, s.Supersedes i id → s.Known id
  target :
    ∀ i req resp id, s.Answered i req resp →
      req.supersedes = some id → id ∈ resp.superseded
  invalid :
    ∀ i id, s.Supersedes i id →
      ∀ r ∈ s.world.db.memories, r.id = id →
        r.tInvalid.isSome = true
  once :
    ∀ i j id, s.Supersedes i id → s.Supersedes j id → i = j

theorem System.supersedes_next
    {i : Nat} {id : String}
    (hNext : s.next env service e = some t)
    (h : t.Supersedes i id) :
    s.Supersedes i id ∨
      ∃ req ctx opId startedAt, e = .step i ∧
        s.live i =
            some (.store req (.commit ctx opId startedAt)) ∧
          id ∈ Write.invalidateIds ctx ∧
            t.world.db.memories =
              Write.rows env ctx s.world.db.memories := by
  rcases h with ⟨req, resp, hAnswered, hId⟩
  rcases System.answered_next hNext hAnswered with
    hOld | ⟨ctx, opId, startedAt, hEvent, hLive, rfl, hRows,
      _⟩
  · exact Or.inl ⟨req, resp, hOld, hId⟩
  · exact Or.inr ⟨req, ctx, opId, startedAt, hEvent, hLive,
      Write.superseded_subset ctx hId, hRows⟩

omit [LE F] [LT F] [DecidableLE F] [DecidableLT F] in
/- A row after a commit: invalidated, an old one or new. -/
theorem Write.mem_rows
    {ctx : StoreContext Vec F} {rows : List MemoryRow}
    {r : MemoryRow}
    (h : r ∈ Write.rows env ctx rows) :
    (r.id ∈ Write.invalidateIds ctx ∧
      r.tInvalid = some ctx.now ∧
        ∃ r₀ ∈ rows ++ [Write.row env ctx],
          r = Sqlite.invalidateRow ctx.now r₀) ∨
      (r.id ∉ Write.invalidateIds ctx ∧
        r ∈ rows ++ [Write.row env ctx]) := by
  rcases Table.mem_update_iff.mp h with ⟨r₀, hr₀, rfl⟩
  split
  · rename_i hIn
    exact Or.inl ⟨hIn, rfl, r₀, hr₀, rfl⟩
  · rename_i hOut
    exact Or.inr ⟨hOut, hr₀⟩

theorem Settled.next
    (hSettled : Settled env service s)
    (hNext : s.next env service e = some t)
    (hValid : SupersedesValid s e) :
    Settled env service t := by
  have hOrdered := hSettled.ordered
  refine ⟨hOrdered.next hNext,
    hSettled.aimed.next hOrdered hNext,
    System.tasks_next (taskInvariant_fits env service)
      hNext hSettled.fits, ?_, ?_, ?_, ?_⟩
  · -- what is superseded is known
    intro i id h
    rcases System.supersedes_next hNext h with
      hOld | ⟨req, ctx, opId, startedAt, _, hLive, hId, _⟩
    · exact (hSettled.known i id hOld).next hNext
    · have hCall := (System.live_eq_some hLive).2
      exact (hSettled.aimed i _ _ _ hCall rfl id hId).next
        hNext
  · -- a target is reported
    intro i req resp id h hTarget
    rcases System.answered_next hNext h with
      hOld | ⟨ctx, opId, startedAt, _, hLive, rfl, _, _⟩
    · exact hSettled.target i req resp id hOld hTarget
    · have hCall := (System.live_eq_some hLive).2
      have hReq : ctx.req = req :=
        ((hSettled.fits i _ hCall).2 ctx rfl).request
      simp [Write.response, Write.superseded, hReq, hTarget]
  · -- what is superseded is not valid
    intro i id h r hr hId
    rcases System.supersedes_next hNext h with
      hOld | ⟨req, ctx, opId, startedAt, _, _, hIn, hRows⟩
    · cases System.rowChange hNext with
      | keep hRows =>
          exact hSettled.invalid i id hOld r (hRows ▸ hr) hId
      | delete p hRows =>
          rw [hRows] at hr
          exact hSettled.invalid i id hOld r
            (List.mem_of_mem_filter hr) hId
      | @commit j req ctx _ _ hLive _ hRows _ _ =>
          rw [hRows] at hr
          rcases Write.mem_rows hr with
            ⟨_, hInvalid, _⟩ | ⟨_, hKept⟩
          · simp [hInvalid]
          · rcases List.mem_append.mp hKept with hMem | hNew
            · exact hSettled.invalid i id hOld r hMem hId
            · rw [List.mem_singleton.mp hNew, Write.row_id]
                at hId
              exact absurd
                (hId ▸ hSettled.known i id hOld)
                (hOrdered.not_known hLive)
    · rw [hRows] at hr
      rcases Write.mem_rows hr with
        ⟨_, hInvalid, _⟩ | ⟨hOut, _⟩
      · simp [hInvalid]
      · exact absurd (hId ▸ hIn) hOut
  · -- nothing is superseded twice
    have hNew :
        ∀ {i j : Nat} {id : String} {req : StoreRequest}
          {ctx : StoreContext Vec F} {opId : String}
          {startedAt : DateTime}, e = .step i →
          s.live i =
            some (.store req (.commit ctx opId startedAt)) →
          id ∈ Write.invalidateIds ctx →
            ¬ s.Supersedes j id := by
      rintro i j id req ctx opId startedAt rfl hLive hId hOld
      rcases hValid _ _ _ _ hLive id hId with
        ⟨hNone, ⟨r, hr, hRow⟩ | hFirst⟩
      · have hSome := hSettled.invalid j id hOld r hr hRow
        simp [hNone r hr hRow] at hSome
      · exact hFirst j hOld
    intro i j id hi hj
    rcases System.supersedes_next hNext hi with
      hOldI | ⟨_, _, _, _, hEventI, hLiveI, hIdI, _⟩ <;>
      rcases System.supersedes_next hNext hj with
        hOldJ | ⟨_, _, _, _, hEventJ, hLiveJ, hIdJ, _⟩
    · exact hSettled.once i j id hOldI hOldJ
    · exact absurd hOldI (hNew hEventJ hLiveJ hIdJ)
    · exact absurd hOldJ (hNew hEventI hLiveI hIdI)
    · cases hEventI.symm.trans hEventJ
      rfl

omit [LE F] [LT F] [DecidableLE F] [DecidableLT F] in
theorem Idle.settled
    (hIdle : Idle env s) :
    Settled env service s := by
  have hNone :
      ∀ i req resp, ¬ s.Answered i req resp := by
    rintro i req resp ⟨call, hCall, _⟩
    simp [hIdle.calls i] at hCall
  have hSupersedes : ∀ i id, ¬ s.Supersedes i id :=
    fun i id ⟨_, _, h, _⟩ => hNone _ _ _ h
  refine ⟨hIdle.ordered, ?_, ?_, ?_, ?_, ?_, ?_⟩
  · intro i call _ _ hCall
    simp [hIdle.calls i] at hCall
  · intro i call hCall
    simp [hIdle.calls i] at hCall
  · exact fun i id h => absurd h (hSupersedes i id)
  · exact fun i req resp _ h => absurd h (hNone i req resp)
  · exact fun i id h => absurd h (hSupersedes i id)
  · exact fun i _ id h => absurd h (hSupersedes i id)

omit [LE F] [LT F] [DecidableLE F] [DecidableLT F] in
theorem Settled.exclusive
    (hSettled : Settled env service s) :
    Exclusive s where
  invalid := hSettled.invalid
  once := hSettled.once
  refused := by
    intro i j id call req result hFirst hNe hCall hTask
      hTarget
    cases result with
    | error err => exact ⟨err, rfl⟩
    | ok resp =>
        have hAnswered : s.Answered j req resp :=
          ⟨call, hCall, hTask⟩
        have hSecond : s.Supersedes j id :=
          ⟨req, resp, hAnswered,
            hSettled.target j req resp id hAnswered hTarget⟩
        exact absurd (hSettled.once j i id hSecond hFirst) hNe

/- An invalidated row stays as it is, whatever happens. -/
theorem Settled.final
    {es : List (Event F)}
    (hSettled : Settled env service s)
    (hRun :
      ((machine env service).restrict
        SupersedesValid).Run s es t) :
    FinalFrom s t := by
  intro r hr r' hr' hId hSome
  have hKept :
      Settled env service t ∧ t.Known r.id ∧
        ∀ r' ∈ t.world.db.memories, r'.id = r.id →
          r'.tInvalid = r.tInvalid := by
    refine hRun.restrict_invariant
      (I := fun u =>
        Settled env service u ∧ u.Known r.id ∧
          ∀ r' ∈ u.world.db.memories, r'.id = r.id →
            r'.tInvalid = r.tInvalid)
      ?_ ⟨hSettled,
        ⟨_, hSettled.ordered.sound.world.rows r hr, rfl⟩, ?_⟩
    · rintro u e v ⟨hOld, hKnown, hSame⟩ hNext hValid
      refine ⟨hOld.next hNext hValid, hKnown.next hNext, ?_⟩
      intro r' hr' hId
      cases System.rowChange hNext with
      | keep hRows => exact hSame r' (hRows ▸ hr') hId
      | delete p hRows =>
          rw [hRows] at hr'
          exact hSame r' (List.mem_of_mem_filter hr') hId
      | commit hLive _ hRows _ _ =>
          have hFresh := hOld.ordered.not_known hLive
          rw [hRows] at hr'
          rcases Write.mem_rows hr' with
            ⟨hIn, _, r₀, hr₀, rfl⟩ | ⟨_, hKept⟩
          · -- it would have been valid before
            rcases List.mem_append.mp hr₀ with hMem | hNew
            · have hNone :=
                (hValid _ _ _ _ hLive r₀.id hIn).1 r₀ hMem
                  rfl
              rw [← hSame r₀ hMem hId, hNone] at hSome
              cases hSome
            · rw [List.mem_singleton.mp hNew,
                Sqlite.invalidateRow_id, Write.row_id] at hId
              exact absurd (hId ▸ hKnown) hFresh
          · rcases List.mem_append.mp hKept with hMem | hNew
            · exact hSame r' hMem hId
            · rw [List.mem_singleton.mp hNew, Write.row_id]
                at hId
              exact absurd (hId ▸ hKnown) hFresh
    · intro r' hr' hId
      rw [hSettled.ordered.sound.world.rows_unique.eq_of_key_eq
        hr' hr hId]
  exact hKept.2.2 r' hr' hId

/-
  Supersession is final and exclusive in every run whose
  commits invalidate memories that are still valid.
-/
theorem supersede_exclusive
    {s₀ : System Vec F} {es fs : List (Event F)}
    (hIdle : Idle env s₀)
    (hRun :
      ((machine env service).restrict
        SupersedesValid).Run s₀ es s)
    (hLater :
      ((machine env service).restrict
        SupersedesValid).Run s fs t) :
    FinalFrom s t ∧ Exclusive t := by
  have hSettled : Settled env service s :=
    hRun.restrict_invariant
      (fun _ _ _ h hNext hValid => h.next hNext hValid)
      hIdle.settled
  have hAfter : Settled env service t :=
    hLater.restrict_invariant
      (fun _ _ _ h hNext hValid => h.next hNext hValid)
      hSettled
  exact ⟨hSettled.final hLater, hAfter.exclusive⟩

/- The condition as a check, for runs without deletions. -/
private def supersedesValid
    (s : System String Rat) : Event Rat → Bool
| .step i =>
    match s.live i with
    | some (.store _ (.commit ctx _ _)) =>
        (Write.invalidateIds ctx).all (fun id =>
          s.world.db.memories.any
            (fun r => decide (r.id = id)) &&
          s.world.db.memories.all
            (fun r => decide (r.id ≠ id) ||
              r.tInvalid.isNone))
    | _ => true
| _ => true

private theorem supersedesValid_of_check
    (s : System String Rat)
    (e : Event Rat)
    (h : supersedesValid s e = true) :
    SupersedesValid s e := by
  cases e with
  | step i =>
      intro req ctx opId startedAt hLive id hId
      simp only [supersedesValid, hLive] at h
      have hBoth := List.all_eq_true.mp h id hId
      simp only [Bool.and_eq_true, List.any_eq_true,
        List.all_eq_true, decide_eq_true_eq,
        Bool.or_eq_true, Option.isNone_iff_eq_none] at hBoth
      exact ⟨fun r hr hEq =>
        (hBoth.2 r hr).resolve_left (by simp [hEq]),
        Or.inl hBoth.1⟩
  | _ => exact True.intro

/- Whether a call has answered that it superseded an id. -/
private def superseded
    (s : System String Rat)
    (i : Nat)
    (id : String) : Bool :=
  match s.calls i with
  | some ⟨.store _ (.done (.ok resp)), _⟩ =>
      decide (id ∈ resp.superseded)
  | _ => false

private theorem supersedes_of_check
    {s : System String Rat} {i : Nat} {id : String}
    (h : superseded s i id = true) :
    s.Supersedes i id := by
  unfold superseded at h
  split at h
  · rename_i req resp lost hCall
    exact ⟨req, resp, ⟨_, hCall, rfl⟩, of_decide_eq_true h⟩
  · cases h

/- A second call with the same target comes too late. -/
theorem supersede_exclusive_second_call :
    ∃ s t : System String Rat,
      s.Supersedes 1 (Env.plainUuid 0) ∧
        FinalFrom s t ∧ Exclusive t ∧
          (t.calls 2).isSome = true := by
  rcases System.restrict_of_any Env.plain
    MemoryService.plain System.empty
    (.store 0 (.note "the cat is asleep") ::
      (List.replicate 9 (.step 0) ++
        .store 1 { StoreRequest.note "the cat is awake" with
          supersedes := some (Env.plainUuid 0) } ::
          List.replicate 8 (.step 1)))
    (fun s =>
      superseded s 1 (Env.plainUuid 0) &&
        (s.afterWhen Env.plain MemoryService.plain
          supersedesValid
          (.store 2 { StoreRequest.note "the cat is out" with
            supersedes := some (Env.plainUuid 0) } ::
            List.replicate 4 (.step 2))).any
          (fun t => (t.calls 2).isSome))
    supersedesValid_of_check
    (by decide +kernel) with ⟨s, hRun, hTest⟩
  rw [Bool.and_eq_true] at hTest
  rcases System.restrict_of_any _ _ _ _ _
    supersedesValid_of_check hTest.2 with
    ⟨t, hLater, hCall⟩
  have hBoth :=
    supersede_exclusive (start_empty _).toIdle hRun hLater
  exact ⟨s, t, supersedes_of_check hTest.1, hBoth.1, hBoth.2,
    hCall⟩

------------------------------------------------------------
-- A Race
------------------------------------------------------------

omit [LE F] [LT F] [DecidableLE F] [DecidableLT F] in
/- Calls, their steps, and the passing of time. -/
def Event.OfCalls : Event F → Prop
| .store _ _ => True
| .forget _ _ => True
| .step _ => True
| .tick _ => True
| _ => False

/-
  Two calls check the same target before either commits, and
  both supersede it.
-/
theorem superseded_twice :
    ¬ ∀ (s₀ s t : System String Rat)
        (es fs : List (Event Rat)),
        Start Env.plain s₀ →
        (∀ e ∈ es ++ fs, e.OfCalls) →
        (machine Env.plain MemoryService.plain).Run
          s₀ es s →
        (machine Env.plain MemoryService.plain).Run
          s fs t →
          FinalFrom s t ∧ Exclusive t := by
  intro hClaim
  rcases System.run_of_any Env.plain
    MemoryService.plain System.empty
    (.store 0 (.note "the cat is asleep") ::
      (List.replicate 9 (.step 0) ++
        .store 1 { StoreRequest.note "the cat is awake" with
          supersedes := some (Env.plainUuid 0) } ::
          .store 2 { StoreRequest.note "the cat is out" with
            supersedes := some (Env.plainUuid 0) } ::
            (List.replicate 4 (.step 1) ++
              (List.replicate 8 (.step 2) ++
                List.replicate 4 (.step 1)))))
    (fun s =>
      superseded s 1 (Env.plainUuid 0) &&
        superseded s 2 (Env.plainUuid 0))
    (by decide +kernel) with ⟨s, hRun, hTest⟩
  rw [Bool.and_eq_true] at hTest
  have hBoth :=
    hClaim _ _ _ _ [] (start_empty _)
      (by simp [Event.OfCalls]) hRun .nil
  have hSame :=
    hBoth.2.once _ _ _ (supersedes_of_check hTest.1)
      (supersedes_of_check hTest.2)
  cases hSame

end Core

end Ferrex
