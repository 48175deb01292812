import Ferrex.Core.Validation

/-
  What outlasts the process: a memory that was acknowledged
  stays a row until a forget call names it, and a memory that
  was reported deleted comes back in neither store, whatever
  calls run, fail or are cut off by a crash, whatever recalls
  write to the rows, and whatever a recovery undoes.

  Main declarations:
    * `Cached.lives`
    * `RowsStep`, `Cached.lifeNext_rows`
    * `acknowledged_kept`
    * `forgotten_gone`
-/

------------------------------------------------------------
-- Lives of the Process
------------------------------------------------------------

namespace Ferrex

namespace Core

open Store

variable {Vec F D : Type}

namespace Cached

/- What happens in one life, its end, and the next start. -/
inductive LifeEvent (F : Type) where
| run (e : Cached.Event F)
| crash (config : CacheConfig)
| recover

section Lives

variable [DecidableEq Vec]
variable [LE F] [LT F] [DecidableLE F] [DecidableLT F]
variable [LT D] [DecidableLT D]

/-
  A crash leaves the stores alone, and the cache, the tracker
  and the recalls go with the process.  Calls are taken only
  once the recovery is through.
-/
def lifeNext
    (backend : Backend Vec F D)
    (s : Cached Vec F D) :
    LifeEvent F → Option (Cached Vec F D)
| .run e =>
    match s.sys.mode with
    | .up => s.next backend e
    | _ => none
| .crash config =>
    (s.sys.next backend.env backend.service .crash).map
      (fun sys => start sys config)
| .recover =>
    (s.sys.next backend.env backend.service .recover).map
      (fun sys => { s with sys := sys })

/- All lives, from stores that are in order. -/
def lives
    (backend : Backend Vec F D) :
    Machine (Cached Vec F D) (LifeEvent F) :=
  .ofNext
    (fun s =>
      ∃ sys config, s = start sys config ∧
        Idle backend.env sys)
    (lifeNext backend)

/- A computed run to a state that passes a test. -/
theorem lives_of_any
    (backend : Backend Vec F D)
    (s : Cached Vec F D)
    (es : List (LifeEvent F))
    (test : Cached Vec F D → Bool)
    (h : (es.foldlM (lifeNext backend) s).any test = true) :
    ∃ t, (lives backend).Run s es t ∧ test t = true :=
  Machine.Run.of_any (lives backend).initial s es test h

end Lives

end Cached

------------------------------------------------------------
-- What a Life Does to the Stores
------------------------------------------------------------

variable {env : Env Vec F} {service : MemoryService F}
variable {s t : System Vec F}

namespace System

/- The system with other columns of accesses in its rows. -/
def setDb
    (s : System Vec F)
    (db : Sqlite) : System Vec F :=
  { s with world := { s.world with db := db } }

/- The protocol does not see them. -/
theorem journal_touched
    {db : Sqlite}
    (hRows : Sqlite.TouchedRows s.world.db db) :
    (s.setDb db).journal = s.journal := by
  rcases hRows with ⟨g, hg, rfl⟩
  have hId : ∀ r, (g r).id = r.id := fun r => by rw [hg r]
  have hNs : ∀ r, (g r).namespace = r.namespace :=
    fun r => by rw [hg r]
  have hKeys :
      memoryKeys { s.world.db with
        memories := s.world.db.memories.map g } =
          memoryKeys s.world.db := by
    ext k
    simp [memoryKeys, hId, hNs]
  have hJournal :
      System.journal
          (s.setDb { s.world.db with
            memories := s.world.db.memories.map g }) =
        { s.journal with
          rows := memoryKeys { s.world.db with
            memories := s.world.db.memories.map g } } :=
    rfl
  rw [hJournal, hKeys]
  rfl

end System

/- An event of the calls, or a write of accesses to rows. -/
inductive RowsStep
    [LE F] [LT F] [DecidableLE F] [DecidableLT F]
    (env : Env Vec F)
    (service : MemoryService F)
    (s : System Vec F) : System Vec F → Prop
| same : RowsStep env service s s
| event {t : System Vec F} {e : Event F}
    (hNext : s.next env service e = some t) :
    RowsStep env service s t
| touched {db : Sqlite}
    (hRows : Sqlite.TouchedRows s.world.db db) :
    RowsStep env service s (s.setDb db)

section Steps

variable [LE F] [LT F] [DecidableLE F] [DecidableLT F]

theorem RowsStep.ordered
    (hStep : RowsStep env service s t)
    (hOrdered : Ordered env s) :
    Ordered env t := by
  cases hStep with
  | same => exact hOrdered
  | event hNext => exact hOrdered.next hNext
  | touched hRows => exact hOrdered.touched hRows

theorem RowsStep.gone
    {k : MemoryKey}
    (hStep : RowsStep env service s t)
    (hOrdered : Ordered env s)
    (hGone : IntentJournal.Gone s.journal k) :
    IntentJournal.Gone t.journal k := by
  cases hStep with
  | same => exact hGone
  | event hNext =>
      rcases journal_step hOrdered.sound hNext with hEq | hMove
      · rw [hEq]
        exact hGone
      · exact hMove.gone hOrdered.inv hGone
  | touched hRows =>
      rw [System.journal_touched hRows]
      exact hGone

end Steps

namespace Cached

variable [DecidableEq Vec]
variable [LE F] [LT F] [DecidableLE F] [DecidableLT F]
variable [LT D] [DecidableLT D]
variable {backend : Backend Vec F D}
variable {s t : Cached Vec F D}

/- A recall writes accesses and validations to the rows. -/
private theorem advance_rows
    {call : RecallCall Vec F D} :
    RowsStep backend.env backend.service s.sys
      (s.advance backend call).1.sys := by
  have hAdvance := advance_eq backend s call
  generalize (s.advance backend call).1 = s' at hAdvance ⊢
  generalize (s.advance backend call).2 = call' at hAdvance
  cases hAdvance with
  | flush _ =>
      exact .touched
        (Sqlite.touchedRows_updateLastAccessed _ _ _)
  | stamp _ =>
      exact .touched
        (Sqlite.touchedRows_updateLastValidated _ _ _)
  | _ => exact .same

theorem lifeNext_rows
    {e : LifeEvent F}
    (h : s.lifeNext backend e = some t) :
    RowsStep backend.env backend.service s.sys t.sys := by
  cases e with
  | crash config =>
      simp only [lifeNext, Option.map_eq_some_iff] at h
      rcases h with ⟨sys, hNext, rfl⟩
      exact .event hNext
  | recover =>
      simp only [lifeNext, Option.map_eq_some_iff] at h
      rcases h with ⟨sys, hNext, rfl⟩
      exact .event hNext
  | run e =>
      simp only [lifeNext] at h
      split at h
      · cases next_eq_some h with
        | sys e sys _ _ _ hNext => exact .event hNext
        | step i task sys _ _ hNext => exact .event hNext
        | advance j call _ => exact advance_rows
        | flushed ok =>
            cases ok with
            | true =>
                exact .touched
                  (Sqlite.touchedRows_updateLastAccessed _ _ _)
            | false => exact .same
        | _ => exact .same
      · cases h

/- What every step of the stores preserves holds in a run. -/
theorem lives_invariant
    {P : System Vec F → Prop} {es : List (LifeEvent F)}
    (hStep :
      ∀ s t, P s → RowsStep backend.env backend.service s t →
        P t)
    (hRun : (lives backend).Run s es t)
    (hs : P s.sys) :
    P t.sys :=
  hRun.invariant
    (I := fun s => P s.sys)
    (fun _ _ _ hOld hNext =>
      hStep _ _ hOld (lifeNext_rows hNext)) hs

end Cached

------------------------------------------------------------
-- Acknowledged Memories
------------------------------------------------------------

/-
  A row that holds what a request asks for: the columns that
  nothing rewrites.
-/
structure StoreRequest.StoredIn
    (env : Env Vec F)
    (service : MemoryService F)
    (req : StoreRequest)
    (r : MemoryRow) : Prop where
  «namespace» : r.namespace = service.requestNamespace req
  memoryType : r.memoryType = detectMemoryType req
  content : r.content = req.content
  subject :
    r.subject =
      req.subject.map (fun s => env.toLowercase (Text.trim s))
  predicate : r.predicate = req.predicate
  object : r.object = req.object
  confidence :
    r.confidence =
      (req.confidence.map (fun c => max 0 (min c 1))).getD 1
  source : r.source = req.source
  context : r.context = req.context

namespace StoreRequest.StoredIn

variable {req : StoreRequest} {r r' : MemoryRow}

theorem touched
    (h : req.StoredIn env service r)
    (hSame : Sqlite.Touched r r') :
    req.StoredIn env service r' := by
  rw [hSame]
  exact ⟨h.namespace, h.memoryType, h.content, h.subject,
    h.predicate, h.object, h.confidence, h.source, h.context⟩

theorem invalidated
    (h : req.StoredIn env service r)
    (now : DateTime) :
    req.StoredIn env service (Sqlite.invalidateRow now r) :=
  ⟨h.namespace, h.memoryType, h.content, h.subject,
    h.predicate, h.object, h.confidence, h.source, h.context⟩

/- The row of a commit is what its request asks for. -/
theorem of_context
    {ctx : StoreContext Vec F}
    (hOf : ctx.Of service req) :
    req.StoredIn env service (Write.row env ctx) := by
  rcases hOf with ⟨rfl, hNamespace, hType⟩
  refine ⟨hNamespace, hType, rfl, rfl, rfl, rfl, ?_, rfl, rfl⟩
  simp only [Write.row, Write.buildMemory]
  cases ctx.req.confidence <;> rfl

end StoreRequest.StoredIn

/- The rows that the answers of the store calls speak of. -/
structure Acknowledges
    (env : Env Vec F)
    (service : MemoryService F)
    (s : System Vec F) : Prop where
  ordered : Ordered env s
  fits : s.Fits service
  committed :
    ∀ i req resp, s.Answered i req resp →
      (service.requestNamespace req, resp.id) ∈ s.committed
  type :
    ∀ i req resp, s.Answered i req resp →
      resp.memoryType = (detectMemoryType req).asStr
  rows :
    ∀ i req resp, s.Answered i req resp →
      ∀ r ∈ s.world.db.memories, r.id = resp.id →
        req.StoredIn env service r

theorem Idle.acknowledges
    (hIdle : Idle env s) :
    Acknowledges env service s := by
  have hNone :
      ∀ i req resp, ¬ s.Answered i req resp := by
    rintro i req resp ⟨call, hCall, _⟩
    simp [hIdle.calls i] at hCall
  refine ⟨hIdle.ordered, ?_, ?_, ?_, ?_⟩
  · intro i call hCall
    simp [hIdle.calls i] at hCall
  · exact fun i req resp h => absurd h (hNone i req resp)
  · exact fun i req resp h => absurd h (hNone i req resp)
  · exact fun i req resp h => absurd h (hNone i req resp)

section Acknowledged

variable [LE F] [LT F] [DecidableLE F] [DecidableLT F]

/- The row of an answer once an event has changed the rows. -/
private theorem rows_next
    {e : Event F}
    {id : String} {req : StoreRequest}
    (hOrdered : Ordered env s)
    (hNext : s.next env service e = some t)
    (hKnown : s.Known id)
    (hRows :
      ∀ r ∈ s.world.db.memories, r.id = id →
        req.StoredIn env service r) :
    ∀ r ∈ t.world.db.memories, r.id = id →
      req.StoredIn env service r := by
  intro r hr hId
  cases System.rowChange hNext with
  | keep hSame => exact hRows r (hSame ▸ hr) hId
  | delete p hSame =>
      rw [hSame] at hr
      exact hRows r (List.mem_of_mem_filter hr) hId
  | @commit j req' ctx _ _ hLive _ hSame _ _ =>
      have hOld :
          ∀ r₀ ∈ s.world.db.memories ++ [Write.row env ctx],
            r₀.id = id → req.StoredIn env service r₀ := by
        intro r₀ hr₀ hId₀
        rcases List.mem_append.mp hr₀ with hMem | hNew
        · exact hRows r₀ hMem hId₀
        · rw [List.mem_singleton.mp hNew, Write.row_id] at hId₀
          exact absurd (hId₀ ▸ hKnown)
            (hOrdered.not_known hLive)
      rw [hSame] at hr
      rcases Write.mem_rows hr with
        ⟨_, _, r₀, hr₀, rfl⟩ | ⟨_, hMem⟩
      · exact (hOld r₀ hr₀ hId).invalidated ctx.now
      · exact hOld r hMem hId

omit [LE F] [LT F] [DecidableLE F] [DecidableLT F] in
/- The row of an answer that a commit has just given. -/
private theorem rows_commit
    {i : Nat} {req : StoreRequest}
    {ctx : StoreContext Vec F} {opId : String}
    {startedAt : DateTime}
    (hOrdered : Ordered env s)
    (hLive :
      s.live i =
        some (.store req (.commit ctx opId startedAt)))
    (hOf : ctx.Of service req)
    (hRows :
      t.world.db.memories =
        Write.rows env ctx s.world.db.memories) :
    ∀ r ∈ t.world.db.memories, r.id = ctx.id →
      req.StoredIn env service r := by
  have hNew :
      ∀ r ∈ s.world.db.memories ++ [Write.row env ctx],
        r.id = ctx.id → req.StoredIn env service r := by
    intro r hr hId
    rcases List.mem_append.mp hr with hMem | hRow
    · exact absurd
        ⟨_, hOrdered.sound.world.rows r hMem, hId⟩
        (hOrdered.not_known hLive)
    · rw [List.mem_singleton.mp hRow]
      exact .of_context hOf
  intro r hr hId
  rw [hRows] at hr
  rcases Write.mem_rows hr with
    ⟨_, _, r₀, hr₀, rfl⟩ | ⟨_, hMem⟩
  · exact (hNew r₀ hr₀ hId).invalidated ctx.now
  · exact hNew r hMem hId

private theorem Acknowledges.next
    {e : Event F}
    (h : Acknowledges env service s)
    (hNext : s.next env service e = some t) :
    Acknowledges env service t := by
  have hContext :
      ∀ {i req ctx opId startedAt},
        s.live i =
            some (.store req (.commit ctx opId startedAt)) →
          ctx.Of service req :=
    fun hLive =>
      (h.fits _ _ (System.live_eq_some hLive).2).2 _ rfl
  refine ⟨h.ordered.next hNext,
    System.tasks_next (taskInvariant_fits env service)
      hNext h.fits, ?_, ?_, ?_⟩
  · intro i req resp hAnswered
    rcases System.answered_next hNext hAnswered with
      hOld | ⟨ctx, _, _, _, hLive, rfl, _, hCommitted⟩
    · exact System.committed_subset hNext
        (h.committed i req resp hOld)
    · rw [hCommitted, ← (hContext hLive).namespace]
      exact List.mem_append_right _ (List.mem_singleton_self _)
  · intro i req resp hAnswered
    rcases System.answered_next hNext hAnswered with
      hOld | ⟨ctx, _, _, _, hLive, rfl, _, _⟩
    · exact h.type i req resp hOld
    · rw [← (hContext hLive).memoryType]
      rfl
  · intro i req resp hAnswered
    rcases System.answered_next hNext hAnswered with
      hOld | ⟨ctx, _, _, _, hLive, rfl, hRows, _⟩
    · exact rows_next h.ordered hNext
        ⟨_, h.committed i req resp hOld, rfl⟩
        (h.rows i req resp hOld)
    · exact rows_commit h.ordered hLive (hContext hLive) hRows

theorem RowsStep.acknowledges
    (hStep : RowsStep env service s t)
    (h : Acknowledges env service s) :
    Acknowledges env service t := by
  cases hStep with
  | same => exact h
  | event hNext => exact h.next hNext
  | touched hRows =>
      refine ⟨h.ordered.touched hRows, h.fits, h.committed,
        h.type, ?_⟩
      rcases hRows with ⟨g, hg, rfl⟩
      intro i req resp hAnswered r hr hId
      rcases List.mem_map.mp hr with ⟨r₀, hr₀, rfl⟩
      have hSame : (g r₀).id = r₀.id := by rw [hg r₀]
      exact (h.rows i req resp hAnswered r₀ hr₀
        (hSame ▸ hId)).touched (hg r₀)

theorem RowsStep.answered
    {i : Nat} {req : StoreRequest} {resp : StoreResponse}
    (hStep : RowsStep env service s t)
    (hAnswered : s.Answered i req resp) :
    t.Answered i req resp := by
  cases hStep with
  | event hNext => exact hAnswered.next hNext
  | _ => exact hAnswered

end Acknowledged

/- Still a row with what was asked for, or to be forgotten. -/
structure KeptIn
    (env : Env Vec F)
    (service : MemoryService F)
    (req : StoreRequest)
    (resp : StoreResponse)
    (s : System Vec F) : Prop where
  type : resp.memoryType = (detectMemoryType req).asStr
  kept :
    ¬ s.NamedByForget resp.id →
      ∃ r ∈ s.world.db.memories, r.id = resp.id ∧
        req.StoredIn env service r

theorem Acknowledges.keptIn
    {i : Nat} {req : StoreRequest} {resp : StoreResponse}
    (h : Acknowledges env service s)
    (hAnswered : s.Answered i req resp) :
    KeptIn env service req resp s where
  type := h.type i req resp hAnswered
  kept hUnnamed := by
    rcases (h.ordered.inv.kept _
      (h.committed i req resp hAnswered)).resolve_right
        hUnnamed with ⟨r, hr, hKey⟩
    have hId : r.id = resp.id := congrArg Prod.snd hKey
    exact ⟨r, hr, hId, h.rows i req resp hAnswered r hr hId⟩

section Kept

variable [DecidableEq Vec]
variable [LE F] [LT F] [DecidableLE F] [DecidableLT F]
variable [LT D] [DecidableLT D]
variable {backend : Backend Vec F D}

/-
  A memory that a store call has answered with is there for
  all lives to come, until a forget call is given its id.
-/
theorem acknowledged_kept
    {x y : Cached Vec F D} {es : List (Cached.LifeEvent F)}
    {i : Nat} {req : StoreRequest} {resp : StoreResponse}
    (hReach : (Cached.lives backend).Reachable x)
    (hAnswered : x.sys.Answered i req resp)
    (hLater : (Cached.lives backend).Run x es y) :
    KeptIn backend.env backend.service req resp y.sys := by
  rcases hReach with ⟨x₀, fs, ⟨sys, config, rfl, hIdle⟩, hRun⟩
  have hStart :
      Acknowledges backend.env backend.service x.sys :=
    Cached.lives_invariant
      (fun _ _ h hStep => hStep.acknowledges h) hRun
      hIdle.acknowledges
  have hBoth :
      Acknowledges backend.env backend.service y.sys ∧
        y.sys.Answered i req resp :=
    Cached.lives_invariant
      (P := fun s =>
        Acknowledges backend.env backend.service s ∧
          s.Answered i req resp)
      (fun _ _ h hStep =>
        ⟨hStep.acknowledges h.1, hStep.answered h.2⟩)
      hLater ⟨hStart, hAnswered⟩
  exact hBoth.1.keptIn hBoth.2

/- The events of a store call that comes to its answer. -/
private def storing : List (Cached.LifeEvent Rat) :=
  (.sys (.store 0 (.note "tea")) ::
    (List.replicate 9 (.sys (.step 0)) ++ [.bump 0])).map .run

private def answeredFirst (s : System String Rat) : Bool :=
  match s.calls 0 with
  | some ⟨.store _ (.done (.ok _)), _⟩ => true
  | _ => false

private theorem exists_answered
    {s : System String Rat}
    (h : answeredFirst s = true) :
    ∃ req resp, s.Answered 0 req resp := by
  unfold answeredFirst at h
  split at h
  · rename_i req resp lost hCall
    exact ⟨req, resp, _, hCall, rfl⟩
  · cases h

/- A store is answered, recalled, and there is a crash. -/
theorem acknowledged_kept_after_crash :
    ∃ (x y : Cached String Rat Rat) (req : StoreRequest)
        (resp : StoreResponse),
      x.sys.Answered 0 req resp ∧
        y.sys.mode.recovered = true ∧
          KeptIn Env.plain MemoryService.plain req resp
            y.sys := by
  rcases Cached.lives_of_any Backend.plain
    (Cached.start System.empty ⟨4, 4⟩) storing
    (fun x =>
      answeredFirst x.sys &&
        ((.run (.recall 0 (.text "tea")) ::
          (List.replicate 9 (.run (.advance 0)) ++
            .crash ⟨4, 4⟩ :: List.replicate 3 .recover)
          ).foldlM (Cached.lifeNext Backend.plain) x).any
          (fun y => y.sys.mode.recovered))
    (by decide +kernel) with ⟨x, hRun, hTest⟩
  rw [Bool.and_eq_true] at hTest
  rcases exists_answered hTest.1 with ⟨req, resp, hAnswered⟩
  rcases Cached.lives_of_any _ x _ _ hTest.2
    with ⟨y, hLater, hMode⟩
  have hReach : (Cached.lives Backend.plain).Reachable x :=
    ⟨_, _, ⟨_, _, rfl, (start_empty _).toIdle⟩, hRun⟩
  exact ⟨x, y, req, resp, hAnswered, hMode,
    acknowledged_kept hReach hAnswered hLater⟩

end Kept

------------------------------------------------------------
-- Forgotten Memories
------------------------------------------------------------

namespace ForgetStage

/- The ids that a call has deleted. -/
def deleted : ForgetStage F → List String
| .lookup p => p.deleted
| .insertOp p _ => p.deleted
| .delete p _ _ _ => p.deleted
| .mark p _ _ _ => p.deleted
| .deleteRow p _ _ _ => p.deleted
| .complete p _ _ _ => p.deleted
| .done (.ok resp) => resp.deleted
| .done (.error _) => []

/- The ids that a call has not found. -/
def notFound : ForgetStage F → List String
| .lookup p => p.notFound
| .insertOp p _ => p.notFound
| .delete p _ _ _ => p.notFound
| .mark p _ _ _ => p.notFound
| .deleteRow p _ _ _ => p.notFound
| .complete p _ _ _ => p.notFound
| .done (.ok resp) => resp.notFound
| .done (.error _) => []

/-
  Until a call fails, each id that it was given is deleted,
  not found, or still to be dealt with.
-/
def Accounts (ids : List String) (st : ForgetStage F) : Prop :=
  (∃ e, st = .done (.error e)) ∨
    (st.deleted ++ st.notFound ++
      st.remaining.map Prod.fst).Perm ids

theorem map_fst_parseUuids
    {ids : List String} {rest : List (String × String)}
    (h :
      parseUuids env ids =
        (.ok rest : Except (CoreError F) _)) :
    rest.map Prod.fst = ids := by
  induction ids generalizing rest with
  | nil =>
      cases h
      rfl
  | cons id ids ih =>
      unfold parseUuids at h
      split at h
      · cases h
      · split at h
        · cases h
        · rename_i rest' hRest
          cases h
          rw [List.map_cons, ih hRest]

theorem accounts_start (ids : List String) :
    Accounts ids (ForgetStage.start env ids : ForgetStage F) := by
  unfold ForgetStage.start
  split
  · exact .inl ⟨_, rfl⟩
  · rename_i rest hRest
    refine .inr ?_
    change (rest.map Prod.fst).Perm ids
    rw [map_fst_parseUuids hRest]

/-
  The first id that remains is moved to one of the two lists,
  or it is the one that is being deleted.
-/
theorem accounts_step
    {w : World Vec} {ids : List String} {st : ForgetStage F}
    (h : Accounts ids st) :
    Accounts ids (st.step env w).2 := by
  rcases h with ⟨e, rfl⟩ | h
  · exact .inl ⟨e, rfl⟩
  cases st with
  | lookup p =>
      rcases p with ⟨rest, deleted, notFound⟩
      cases rest with
      | nil =>
          refine .inr ?_
          simpa [step, ForgetStage.deleted,
            ForgetStage.notFound, remaining,
            ForgetProgress.response] using h
      | cons x rest =>
          simp only [step]
          split
          · refine .inr ?_
            simpa [ForgetStage.deleted, ForgetStage.notFound,
              remaining] using h
          · exact .inr h
  | insertOp p target =>
      simp only [step]
      split
      · exact .inl ⟨_, rfl⟩
      · exact .inr h
  | delete p target opId startedAt =>
      simp only [step]
      split
      · exact .inl ⟨_, rfl⟩
      · exact .inr h
  | mark p target opId startedAt => exact .inr h
  | deleteRow p target opId startedAt => exact .inr h
  | complete p target opId startedAt =>
      refine .inr (List.Perm.trans ?_ h)
      simp only [step, ForgetStage.deleted,
        ForgetStage.notFound, remaining, List.map_cons,
        List.append_assoc]
      refine List.Perm.append_left _ ?_
      simpa using List.perm_middle.symm
  | done result => exact .inr h

/- What a step adds to the deleted ids. -/
theorem deleted_step
    {w : World Vec} {st : ForgetStage F} {id : String}
    (h : id ∈ (st.step env w).2.deleted) :
    id ∈ st.deleted ∨
      ∃ p target opId startedAt,
        st = .complete p target opId startedAt ∧
          id = target.id := by
  cases st with
  | lookup p =>
      simp only [step] at h
      split at h
      · exact .inl h
      · split at h <;> exact .inl h
  | insertOp p target =>
      simp only [step] at h
      split at h
      · cases h
      · exact .inl h
  | delete p target opId startedAt =>
      simp only [step] at h
      split at h
      · cases h
      · exact .inl h
  | complete p target opId startedAt =>
      rcases List.mem_append.mp h with hOld | hNew
      · exact .inl hOld
      · exact .inr ⟨p, target, opId, startedAt, rfl,
          List.mem_singleton.mp hNew⟩
  | _ => exact .inl h

end ForgetStage

/- The forget calls, and what they have deleted so far. -/
structure Forgets
    (env : Env Vec F)
    (s : System Vec F) : Prop where
  ordered : Ordered env s
  accounts :
    ∀ i call ids st, s.calls i = some call →
      call.task = .forget ids st → st.Accounts ids
  gone :
    ∀ i call ids st, s.calls i = some call →
      call.task = .forget ids st →
        ∀ id ∈ st.deleted, ∃ ns,
          IntentJournal.Gone s.journal (ns, id)

theorem Idle.forgets
    (hIdle : Idle env s) :
    Forgets env s := by
  refine ⟨hIdle.ordered, ?_, ?_⟩
  · intro i call ids st hCall
    simp [hIdle.calls i] at hCall
  · intro i call ids st hCall
    simp [hIdle.calls i] at hCall

section Forgotten

variable [LE F] [LT F] [DecidableLE F] [DecidableLT F]

private theorem Forgets.next
    {e : Event F}
    (h : Forgets env s)
    (hNext : s.next env service e = some t) :
    Forgets env t := by
  have hGone :
      ∀ {k}, IntentJournal.Gone s.journal k →
        IntentJournal.Gone t.journal k :=
    fun hOld => (RowsStep.event hNext).gone h.ordered hOld
  refine ⟨h.ordered.next hNext, ?_, ?_⟩
  · intro i call ids st hCall hTask
    rcases System.calls_next hNext hCall with
      ⟨old, hOld, hSame⟩ | ⟨req, _, hStart⟩ |
        ⟨ids', _, hStart⟩ | ⟨task, _, hLive, hStep⟩ |
          ⟨task, err, _, hLive, hFail⟩
    · exact h.accounts i old ids st hOld (hSame ▸ hTask)
    · cases hTask.symm.trans hStart
    · cases hTask.symm.trans hStart
      exact ForgetStage.accounts_start ids
    · cases task with
      | store req st' => cases hTask.symm.trans hStep
      | forget ids' st' =>
          cases hTask.symm.trans hStep
          exact ForgetStage.accounts_step
            (h.accounts i _ ids st'
              (System.live_eq_some hLive).2 rfl)
    · cases task with
      | store req st' => cases hTask.symm.trans hFail
      | forget ids' st' =>
          cases hTask.symm.trans hFail
          exact .inl ⟨err, rfl⟩
  · intro i call ids st hCall hTask id hId
    rcases System.calls_next hNext hCall with
      ⟨old, hOld, hSame⟩ | ⟨req, _, hStart⟩ |
        ⟨ids', _, hStart⟩ | ⟨task, _, hLive, hStep⟩ |
          ⟨task, err, _, hLive, hFail⟩
    · rcases h.gone i old ids st hOld (hSame ▸ hTask) id hId
        with ⟨ns, hOldGone⟩
      exact ⟨ns, hGone hOldGone⟩
    · cases hTask.symm.trans hStart
    · cases hTask.symm.trans hStart
      unfold ForgetStage.start at hId
      split at hId <;> cases hId
    · cases task with
      | store req st' => cases hTask.symm.trans hStep
      | forget ids' st' =>
          cases hTask.symm.trans hStep
          rcases ForgetStage.deleted_step hId with
            hOld | ⟨p, target, opId, startedAt, rfl, rfl⟩
          · rcases h.gone i _ ids st'
              (System.live_eq_some hLive).2 rfl id hOld
              with ⟨ns, hOldGone⟩
            exact ⟨ns, hGone hOldGone⟩
          · -- the row and the point are gone by now
            refine ⟨target.namespace, hGone ?_⟩
            exact h.ordered.inv.gone_of_deleted (i := i)
              (System.journalWorkers_of_live hLive)
    · cases task with
      | store req st' => cases hTask.symm.trans hFail
      | forget ids' st' =>
          cases hTask.symm.trans hFail
          cases hId

theorem RowsStep.forgets
    (hStep : RowsStep env service s t)
    (h : Forgets env s) :
    Forgets env t := by
  cases hStep with
  | same => exact h
  | event hNext => exact h.next hNext
  | touched hRows =>
      refine ⟨h.ordered.touched hRows, h.accounts, ?_⟩
      rw [System.journal_touched hRows]
      exact h.gone

end Forgotten

/- What a forget call has answered is true, and stays so. -/
structure ForgottenIn
    (ids : List String)
    (resp : ForgetResponse)
    (s : System Vec F) : Prop where
  accounts : (resp.deleted ++ resp.notFound).Perm ids
  row :
    ∀ id ∈ resp.deleted,
      ∀ r ∈ s.world.db.memories, r.id ≠ id
  point :
    ∀ id ∈ resp.deleted, ∃ ns, (ns, id) ∈ s.committed ∧
      ¬ s.world.qdrant.HasMemoryPoint ns id

/- A key that is gone leaves no row with its id. -/
private theorem row_of_gone
    {k : MemoryKey}
    (hOrdered : Ordered env s)
    (hGone : IntentJournal.Gone s.journal k) :
    ∀ r ∈ s.world.db.memories, r.id ≠ k.2 := by
  intro r hr hId
  have hKey :=
    hOrdered.inv.committed_injective _
      (hOrdered.sound.world.rows r hr) k hGone.committed hId
  exact hGone.rows ⟨r, hr, hKey⟩

section Final

variable [DecidableEq Vec]
variable [LE F] [LT F] [DecidableLE F] [DecidableLT F]
variable [LT D] [DecidableLT D]
variable {backend : Backend Vec F D}

/-
  The memories that a forget call has answered are deleted
  are in neither store, and are not for all lives to come.
-/
theorem forgotten_gone
    {x y : Cached Vec F D} {es : List (Cached.LifeEvent F)}
    {i : Nat} {call : Call Vec F} {ids : List String}
    {resp : ForgetResponse}
    (hReach : (Cached.lives backend).Reachable x)
    (hCall : x.sys.calls i = some call)
    (hDone : call.task = .forget ids (.done (.ok resp)))
    (hLater : (Cached.lives backend).Run x es y) :
    ForgottenIn ids resp y.sys := by
  rcases hReach with ⟨x₀, fs, ⟨sys, config, rfl, hIdle⟩, hRun⟩
  have hForgets : Forgets backend.env x.sys :=
    Cached.lives_invariant
      (fun _ _ h hStep => hStep.forgets h) hRun
      hIdle.forgets
  have hGone :
      ∀ id ∈ resp.deleted, ∃ ns,
        IntentJournal.Gone x.sys.journal (ns, id) :=
    hForgets.gone i call ids _ hCall hDone
  have hLast :
      Ordered backend.env y.sys ∧
        ∀ k, IntentJournal.Gone x.sys.journal k →
          IntentJournal.Gone y.sys.journal k :=
    Cached.lives_invariant
      (P := fun s =>
        Ordered backend.env s ∧
          ∀ k, IntentJournal.Gone x.sys.journal k →
            IntentJournal.Gone s.journal k)
      (fun _ _ h hStep =>
        ⟨hStep.ordered h.1,
          fun k hOld => hStep.gone h.1 (h.2 k hOld)⟩)
      hLater ⟨hForgets.ordered, fun _ h => h⟩
  constructor
  case accounts =>
    rcases hForgets.accounts i call ids _ hCall hDone with
      ⟨e, hError⟩ | hPerm
    · cases hError
    · simpa [ForgetStage.deleted, ForgetStage.notFound,
        ForgetStage.remaining] using hPerm
  case row =>
    intro id hId
    rcases hGone id hId with ⟨ns, hOld⟩
    exact row_of_gone hLast.1 (hLast.2 _ hOld)
  case point =>
    intro id hId
    rcases hGone id hId with ⟨ns, hOld⟩
    have hNow := hLast.2 _ hOld
    exact ⟨ns, hNow.committed, hNow.points⟩

/- The events of a forget call with one id that is a row. -/
private def forgetting : List (Cached.LifeEvent Rat) :=
  (.sys (.forget 1 [Env.plainUuid 0, Env.plainUuid 7]) ::
    (List.replicate 6 (.sys (.step 1)) ++
      .bump 1 :: List.replicate 2 (.sys (.step 1)))).map .run

/- A crash, a recovery, and a store call after it. -/
private def restarting : List (Cached.LifeEvent Rat) :=
  .crash ⟨4, 4⟩ ::
    (List.replicate 4 .recover ++
      (Cached.Event.sys (.store 2 (.note "milk")) ::
        List.replicate 9 (.sys (.step 2))).map .run)

private def deletedOne (s : System String Rat) : Bool :=
  match s.calls 1 with
  | some ⟨.forget ids (.done (.ok resp)), _⟩ =>
      decide (ids = [Env.plainUuid 0, Env.plainUuid 7] ∧
        resp.deleted = [Env.plainUuid 0])
  | _ => false

/- A memory is forgotten, and another stored after a crash. -/
theorem forgotten_gone_after_crash :
    ∃ (y : Cached String Rat Rat) (resp : ForgetResponse),
      resp.deleted = [Env.plainUuid 0] ∧
        y.sys.world.db.memories.length = 1 ∧
          ForgottenIn
            [Env.plainUuid 0, Env.plainUuid 7] resp y.sys := by
  rcases Cached.lives_of_any Backend.plain
    (Cached.start System.empty ⟨4, 4⟩)
    (storing ++ forgetting)
    (fun x =>
      deletedOne x.sys &&
        (restarting.foldlM
          (Cached.lifeNext Backend.plain) x).any
            (fun (y : Cached String Rat Rat) =>
              decide (y.sys.world.db.memories.length = 1)))
    (by decide +kernel) with ⟨x, hRun, hTest⟩
  rw [Bool.and_eq_true] at hTest
  rcases Cached.lives_of_any _ x _ _ hTest.2
    with ⟨y, hLater, hRows⟩
  have hFirst := hTest.1
  unfold deletedOne at hFirst
  split at hFirst
  · rename_i ids resp lost hCall
    rcases of_decide_eq_true hFirst with ⟨rfl, hDeleted⟩
    have hReach : (Cached.lives Backend.plain).Reachable x :=
      ⟨_, _, ⟨_, _, rfl, (start_empty _).toIdle⟩, hRun⟩
    exact ⟨y, resp, hDeleted, of_decide_eq_true hRows,
      forgotten_gone hReach hCall rfl hLater⟩
  · cases hFirst

end Final

end Core

end Ferrex
