import Ferrex.Lib.Stamps
import Ferrex.Core.AccessTracker
import Ferrex.Core.Cache
import Ferrex.Core.Rows

/-
  The service with its recalls: store and forget calls as
  before, each with the bump of the cache's generation that
  it makes before it goes on, any number of recalls whose
  stages interleave with them, and the flush of accesses.

  Main declarations:
    * `RecallStage`, `RecallCall`
    * `Cached`, `Cached.next`, `Cached.machine`
    * `Cached.Fresh`, `Cached.Fresh.next`
    * `recall_fresh`
-/

------------------------------------------------------------
-- Recalls
------------------------------------------------------------

namespace Ferrex

namespace Core

open Store
open Stamps

/- A question: the request with all that is derived of it. -/
structure Query (Vec : Type) where
  req : RecallRequest
  «namespace» : String
  embedding : Vec
  generation : Nat

variable {Vec F D : Type}

def Query.key (q : Query Vec) : ResultCacheKeyInput Vec :=
  cacheKey q.namespace q.embedding q.req

/-
  The next step of a recall.  A validation has its time
  before it waits for the writer, in `stamp`.
-/
inductive RecallStage (Vec F D : Type) where
| embed (req : RecallRequest)
| generation (req : RecallRequest) (embedding : Vec)
| lookup (q : Query Vec)
| entry (q : Query Vec) (currentGen : Nat)
| search (q : Query Vec)
| rows (q : Query Vec) (found : List (String × F))
| rerank (q : Query Vec) (ordered : List Memory)
| flush
    (q : Query Vec)
    (results : List (RecallResult F D))
    (ids : List String)
| put (q : Query Vec) (results : List (RecallResult F D))
| validate
    (req : RecallRequest)
    (results : List (RecallResult F D))
| stamp
    (results : List (RecallResult F D))
    (ids : List String)
    (now : DateTime)
| done
    (result : Except (CoreError F) (List (RecallResult F D)))

/- Results, and as history when the reads for them began. -/
structure Answer (F D : Type) where
  results : List (RecallResult F D)
  readFrom : Nat

/-
  A recall with its history: when its lookup and its reads
  began, and the answer that it took from the cache.
-/
structure RecallCall (Vec F D : Type) where
  stage : RecallStage Vec F D
  lookupAt : Nat
  readFrom : Nat
  hit : Option (String × Answer F D)

/- What recalls are made with besides the two stores. -/
structure Backend (Vec F D : Type) where
  env : Env Vec F
  service : MemoryService F
  search : Search Vec F
  scoring : Scoring F D

def Backend.recallNamespace
    (backend : Backend Vec F D)
    (req : RecallRequest) : String :=
  req.namespace.getD backend.service.config.namespace

namespace Backend

/- The memory points nearest to an embedding, all alike. -/
def plainSearch : Search String Rat where
  search qdrant ns embedding _ limit _ :=
    .ok (Env.plainNearest
      ((qdrant.points ns).filter
        (fun p => decide p.payload.IsMemory))
      embedding limit)
  rerank _ documents _ :=
    .ok (documents.mapIdx (fun i _ => ⟨i, 1⟩))

/- Every memory is fresh, and its age does not count. -/
def plainScoring : Scoring Rat Rat where
  zero := 0
  recencyBoost _ _ := 1
  boosted score recency := score * recency
  stalenessScore _ _ := 0
  threshold _ := 1
  freshRatio threshold := threshold / 2

def plain : Backend String Rat Rat where
  env := Env.plain
  service := MemoryService.plain
  search := plainSearch
  scoring := plainScoring

end Backend

/- A request with nothing but its query. -/
def RecallRequest.text (query : String) : RecallRequest where
  query := query
  types := none
  entities := none
  «namespace» := none
  limit := none
  includeStale := none
  includeInvalidated := none
  timeRange := none
  asOf := none
  validateIds := none
  explain := false

------------------------------------------------------------
-- State
------------------------------------------------------------

/- A row that a call has deleted or invalidated. -/
structure Change where
  call : Nat
  «namespace» : String
  id : String
  deleted : Bool
  time : Nat
deriving DecidableEq

/-
  One life of the process.  `owed` is the namespace whose
  generation a call has to bump next; `time` counts the
  steps, and `bumps` and `changes` are history.
-/
structure Cached (Vec F D : Type) where
  sys : System Vec F
  cache : RecallCache Vec (Answer F D)
  tracker : AccessTracker
  background : List String
  recalls : Nat → Option (RecallCall Vec F D)
  owed : Nat → Option String
  time : Nat
  bumps : Log String
  changes : List Change

/- The generation that a step leaves a call to bump. -/
def Task.owes
    (task next : Task Vec F) : Option String :=
  match task, next with
  | .store _ (.commit ctx _ _), .store _ (.done (.ok _)) =>
      some ctx.namespace
  | .forget _ (.complete _ target _ _), _ =>
      some target.namespace
  | _, _ => none

/- The ids that a step of a call deletes or invalidates. -/
def Task.changedIds
    (task next : Task Vec F) : List String × Bool :=
  match task, next with
  | .store _ (.commit ctx _ _), .store _ (.done (.ok _)) =>
      (Write.invalidateIds ctx, false)
  | .forget _ (.deleteRow _ target _ _), _ =>
      ([target.id], true)
  | _, _ => ([], false)

/- The rows among them are what the step changes. -/
def Task.changes
    (i now : Nat)
    (rows : List MemoryRow)
    (task next : Task Vec F) : List Change :=
  let changed := task.changedIds next
  (rows.filter (fun r => r.id ∈ changed.1)).map
    (fun r => ⟨i, r.namespace, r.id, changed.2, now⟩)

namespace Cached

def setDb
    (s : Cached Vec F D)
    (db : Sqlite) : Cached Vec F D :=
  { s with
    sys := { s.sys with world := { s.sys.world with db := db } } }

def setRecall
    (s : Cached Vec F D)
    (j : Nat)
    (call : RecallCall Vec F D) : Cached Vec F D :=
  { s with
    recalls := Function.update s.recalls j (some call)
    time := s.time + 1 }

/- A call that has returned: it is done and owes nothing. -/
def Returned (s : Cached Vec F D) (i : Nat) : Prop :=
  s.owed i = none ∧
    (s.sys.live i).any Task.finished = true

instance (s : Cached Vec F D) (i : Nat) :
    Decidable (s.Returned i) :=
  inferInstanceAs (Decidable (_ ∧ _))

end Cached

------------------------------------------------------------
-- Steps of a Recall
------------------------------------------------------------

namespace RecallStage

/- The ids of results that a request wants validated. -/
def validIds
    (env : Env Vec F)
    (req : RecallRequest)
    (results : List (RecallResult F D)) : List String :=
  (req.validateIds.getD []).filter
    (fun id =>
      (env.parseUuid id).isSome &&
        results.any (fun r => r.memory.id = id))

/- The stages whose step can fail, and what becomes of it. -/
def fail
    (e : CoreError F) :
    RecallStage Vec F D → Option (RecallStage Vec F D)
| .embed _ => some (.done (.error e))
| .search _ => some (.done (.error e))
| .rows _ _ => some (.done (.error e))
| .rerank _ _ => some (.done (.error e))
| .flush q results _ => some (.put q results)
| .stamp _ _ _ => some (.done (.error e))
| _ => none

end RecallStage

variable [DecidableEq Vec]
variable [LE F] [LT F] [DecidableLE F] [DecidableLT F]
variable [LT D] [DecidableLT D]

namespace Cached

/- The next step of a recall that nothing fails. -/
def advance
    (backend : Backend Vec F D)
    (s : Cached Vec F D)
    (call : RecallCall Vec F D) :
    Cached Vec F D × RecallCall Vec F D :=
  match call.stage with
  | .embed req =>
      match s.cache.getEmbedding req.query with
      | some embedding =>
          (s, { call with stage := .generation req embedding })
      | none =>
          let embedding := backend.env.embed req.query
          ({ s with
              cache := s.cache.putEmbedding req.query embedding },
            { call with stage := .generation req embedding })
  | .generation req embedding =>
      let ns := backend.recallNamespace req
      (s, { call with
        stage :=
          .lookup ⟨req, ns, embedding, s.cache.generation ns⟩ })
  | .lookup q =>
      (s, { call with
        stage := .entry q (s.cache.generation q.namespace)
        lookupAt := s.time })
  | .entry q currentGen =>
      match s.cache.getResults q.key currentGen with
      | some answer =>
          (s, { call with
            stage := .validate q.req answer.results
            hit := some (q.namespace, answer) })
      | none => (s, { call with stage := .search q })
  | .search q =>
      let call := { call with readFrom := s.time }
      match backend.search.search s.sys.world.qdrant
          q.namespace q.embedding q.req.query
          (Recall.candidatePoolSize q.req)
          (buildQdrantFilter q.req) with
      | .error e =>
          (s, { call with stage := .done (.error (.store e)) })
      | .ok found =>
          if found.isEmpty then
            (s, { call with stage := .done (.ok []) })
          else
            (s, { call with stage := .rows q found })
  | .rows q found =>
      let ordered :=
        Recall.order q.req found
          (s.sys.world.db.getMemoriesByIds
            (found.map Prod.fst))
      if ordered.isEmpty then
        (s, { call with stage := .done (.ok []) })
      else
        (s, { call with stage := .rerank q ordered })
  | .rerank q ordered =>
      match backend.search.rerank q.req.query
          (ordered.map searchableText) ordered.length with
      | .error e =>
          (s, { call with stage := .done (.error (.embed e)) })
      | .ok reranked =>
          let results :=
            Recall.rank backend.scoring q.req
              s.sys.world.clock ordered reranked
          let tracker :=
            s.tracker.record
              (results.map (fun r => r.memory.id))
          match tracker.drainIfFull with
          | (some ids, tracker) =>
              ({ s with tracker := tracker },
                { call with stage := .flush q results ids })
          | (none, tracker) =>
              ({ s with tracker := tracker },
                { call with stage := .put q results })
  | .flush q results ids =>
      (s.setDb (s.sys.world.db.updateLastAccessed ids
          s.sys.world.clock),
        { call with stage := .put q results })
  | .put q results =>
      ({ s with
          cache :=
            s.cache.putResults q.key
              ⟨results, call.readFrom⟩ q.generation },
        { call with stage := .validate q.req results })
  | .validate req results =>
      let ids :=
        RecallStage.validIds backend.env req results
      if ids.isEmpty then
        (s, { call with stage := .done (.ok results) })
      else
        (s, { call with
          stage := .stamp results ids s.sys.world.clock })
  | .stamp results ids now =>
      (s.setDb (s.sys.world.db.updateLastValidated ids now),
        { call with stage := .done (.ok results) })
  | .done _ => (s, call)

------------------------------------------------------------
-- Steps of the Service
------------------------------------------------------------

inductive Event (F : Type) where
| sys (e : Core.Event F)
| bump (i : Nat)
| recall (j : Nat) (req : RecallRequest)
| advance (j : Nat)
| failRecall (j : Nat) (err : CoreError F)
| drain
| flushed (ok : Bool)

/- A step of the stores' calls and of the clock. -/
def sysNext
    (backend : Backend Vec F D)
    (s : Cached Vec F D)
    (e : Core.Event F) : Option (Cached Vec F D) :=
  (s.sys.next backend.env backend.service e).map
    (fun sys => { s with sys := sys, time := s.time + 1 })

/- A call goes on once it has made the bump that it owes. -/
def stepNext
    (backend : Backend Vec F D)
    (s : Cached Vec F D)
    (i : Nat) : Option (Cached Vec F D) :=
  match s.owed i, s.sys.live i with
  | none, some task =>
      let next :=
        (task.step backend.env backend.service
          s.sys.world).2
      (s.sysNext backend (.step i)).map
        (fun t =>
          { t with
            owed :=
              Function.update s.owed i (task.owes next)
            changes :=
              s.changes ++
                task.changes i s.time
                  s.sys.world.db.memories next })
  | _, _ => none

def next
    (backend : Backend Vec F D)
    (s : Cached Vec F D) :
    Event F → Option (Cached Vec F D)
| .sys e =>
    match e with
    | .crash => none
    | .recover => none
    | .step i => s.stepNext backend i
    | .fail i err =>
        match s.owed i with
        | none => s.sysNext backend (.fail i err)
        | some _ => none
    | e => s.sysNext backend e
| .bump i =>
    match s.owed i with
    | some ns =>
        some { s with
          cache := s.cache.bumpGeneration ns
          owed := Function.update s.owed i none
          time := s.time + 1
          bumps := s.bumps.bump ns s.time }
    | none => none
| .recall j req =>
    match s.recalls j with
    | none => some (s.setRecall j ⟨.embed req, 0, 0, none⟩)
    | some _ => none
| .advance j =>
    match s.recalls j with
    | some call =>
        let next := s.advance backend call
        some (next.1.setRecall j next.2)
    | none => none
| .failRecall j err =>
    match s.recalls j with
    | some call =>
        (call.stage.fail err).map
          (fun stage =>
            s.setRecall j { call with stage := stage })
    | none => none
| .drain =>
    match s.background with
    | [] =>
        some { s with
          tracker := s.tracker.drain.2
          background := s.tracker.drain.1
          time := s.time + 1 }
    | _ => none
| .flushed ok =>
    some { (if ok then
        s.setDb (s.sys.world.db.updateLastAccessed
          s.background s.sys.world.clock)
      else
        s) with
      background := []
      time := s.time + 1 }

/- A process that has just started, with an empty cache. -/
def start
    (sys : System Vec F)
    (config : CacheConfig) : Cached Vec F D where
  sys := sys
  cache := .new config
  tracker := .new
  background := []
  recalls _ := none
  owed _ := none
  time := 0
  bumps := []
  changes := []

/- One life of the process, from any state of the stores. -/
def machine
    (backend : Backend Vec F D) :
    Machine (Cached Vec F D) (Event F) :=
  .ofNext
    (fun s =>
      ∃ sys config, s = start sys config ∧
        sys.mode = .up ∧ ∀ i, sys.calls i = none)
    (next backend)

/- A computed run to a state that passes a test. -/
theorem run_of_any
    (backend : Backend Vec F D)
    (s : Cached Vec F D)
    (es : List (Event F))
    (test : Cached Vec F D → Bool)
    (h : (es.foldlM (next backend) s).any test = true) :
    ∃ t, (machine backend).Run s es t ∧ test t = true :=
  Machine.Run.of_any (machine backend).initial s es test h

------------------------------------------------------------
-- Moves
------------------------------------------------------------

variable {backend : Backend Vec F D}
variable {s t : Cached Vec F D}

/- The ways in which the service goes from state to state. -/
inductive Move
    (backend : Backend Vec F D)
    (s : Cached Vec F D) : Event F → Cached Vec F D → Prop
| sys (e : Core.Event F) (sys : System Vec F)
    (hStep : ∀ i, e ≠ .step i)
    (hUp : e ≠ .crash ∧ e ≠ .recover)
    (hOwed : ∀ i err, e = .fail i err → s.owed i = none)
    (hNext :
      s.sys.next backend.env backend.service e = some sys) :
    Move backend s (.sys e)
      { s with sys := sys, time := s.time + 1 }
| step (i : Nat) (task : Task Vec F) (sys : System Vec F)
    (hOwed : s.owed i = none)
    (hLive : s.sys.live i = some task)
    (hNext :
      s.sys.next backend.env backend.service (.step i) =
        some sys) :
    Move backend s (.sys (.step i)) { s with
      sys := sys
      owed :=
        Function.update s.owed i
          (task.owes
            (task.step backend.env backend.service
              s.sys.world).2)
      time := s.time + 1
      changes :=
        s.changes ++
          task.changes i s.time s.sys.world.db.memories
            (task.step backend.env backend.service
              s.sys.world).2 }
| bump (i : Nat) (ns : String)
    (hOwed : s.owed i = some ns) :
    Move backend s (.bump i) { s with
      cache := s.cache.bumpGeneration ns
      owed := Function.update s.owed i none
      time := s.time + 1
      bumps := s.bumps.bump ns s.time }
| recall (j : Nat) (req : RecallRequest)
    (hNone : s.recalls j = none) :
    Move backend s (.recall j req)
      (s.setRecall j ⟨.embed req, 0, 0, none⟩)
| advance (j : Nat) (call : RecallCall Vec F D)
    (hCall : s.recalls j = some call) :
    Move backend s (.advance j)
      ((s.advance backend call).1.setRecall j
        (s.advance backend call).2)
| failRecall (j : Nat) (err : CoreError F)
    (call : RecallCall Vec F D) (stage : RecallStage Vec F D)
    (hCall : s.recalls j = some call)
    (hFail : call.stage.fail err = some stage) :
    Move backend s (.failRecall j err)
      (s.setRecall j { call with stage := stage })
| drain
    (hIdle : s.background = []) :
    Move backend s .drain { s with
      tracker := s.tracker.drain.2
      background := s.tracker.drain.1
      time := s.time + 1 }
| flushed (ok : Bool) :
    Move backend s (.flushed ok)
      { (if ok then
          s.setDb (s.sys.world.db.updateLastAccessed
            s.background s.sys.world.clock)
        else
          s) with
        background := []
        time := s.time + 1 }

theorem next_eq_some
    {e : Event F}
    (h : s.next backend e = some t) :
    Move backend s e t := by
  cases e with
  | sys e =>
      cases e with
      | step i =>
          simp only [next, stepNext] at h
          split at h
          · rename_i task hOwed hLive
            simp only [sysNext, Option.map_map,
              Option.map_eq_some_iff] at h
            rcases h with ⟨sys, hNext, rfl⟩
            exact .step i task sys hOwed hLive hNext
          · cases h
      | fail i err =>
          simp only [next] at h
          split at h
          · rename_i hOwed
            rcases Option.map_eq_some_iff.mp h with
              ⟨sys, hNext, rfl⟩
            refine .sys _ sys (by simp) (by simp) ?_ hNext
            intro i' err' hEq
            cases hEq
            exact hOwed
          · cases h
      | crash => cases h
      | recover => cases h
      | _ =>
          simp only [next, sysNext,
            Option.map_eq_some_iff] at h
          rcases h with ⟨sys, hNext, rfl⟩
          exact .sys _ sys (by simp) (by simp) (by simp) hNext
  | bump i =>
      simp only [next] at h
      split at h <;> cases h
      exact .bump i _ ‹_›
  | «recall» j req =>
      simp only [next] at h
      split at h <;> cases h
      exact .recall j req ‹_›
  | advance j =>
      simp only [next] at h
      split at h <;> cases h
      exact .advance j _ ‹_›
  | failRecall j err =>
      simp only [next] at h
      split at h
      · rename_i call hCall
        rcases Option.map_eq_some_iff.mp h with
          ⟨stage, hFail, rfl⟩
        exact .failRecall j err call stage hCall hFail
      · cases h
  | drain =>
      simp only [next] at h
      split at h <;> cases h
      exact .drain ‹_›
  | flushed ok =>
      cases h
      exact .flushed ok

end Cached

------------------------------------------------------------
-- Freshness
------------------------------------------------------------

omit [LE F] [LT F] [DecidableLE F] [DecidableLT F]
  [LT D] [DecidableLT D] [DecidableEq Vec]

namespace RecallStage

/- The question, once its generation has been taken. -/
def query : RecallStage Vec F D → Option (Query Vec)
| .lookup q => some q
| .entry q _ => some q
| .search q => some q
| .rows q _ => some q
| .rerank q _ => some q
| .flush q _ _ => some q
| .put q _ => some q
| _ => none

/- The reads of the results have begun. -/
def reading : RecallStage Vec F D → Bool
| .rows _ _ => true
| .rerank _ _ => true
| .flush _ _ _ => true
| .put _ _ => true
| _ => false

/- The recall has its results or its error. -/
def answered : RecallStage Vec F D → Bool
| .validate _ _ => true
| .stamp _ _ _ => true
| .done _ => true
| _ => false

end RecallStage

/-
  The generation of a recall covers its reads, which are
  still to begin or have begun.  While it looks up its entry,
  and for what it has found, the lookup's generation counts.
-/
structure RecallCall.Fresh
    (log : Log String)
    (now : Nat)
    (call : RecallCall Vec F D) : Prop where
  covers :
    ∀ q, call.stage.query = some q →
      log.Covers q.namespace q.generation
        (if call.stage.reading then call.readFrom else now)
  sees :
    ∀ q currentGen, call.stage = .entry q currentGen →
      log.Sees q.namespace currentGen call.lookupAt ∧
        call.lookupAt ≤ now
  hit :
    ∀ ns answer, call.hit = some (ns, answer) →
      call.lookupAt ≤ now ∧
        ∀ b ∈ log, b.scope = ns →
          b.time < call.lookupAt → b.time < answer.readFrom
  unanswered :
    call.stage.answered = false → call.hit = none

namespace RecallCall

variable {log : Log String} {now : Nat}
variable {call : RecallCall Vec F D}

theorem Fresh.wait
    (hFresh : call.Fresh log now) :
    call.Fresh log (now + 1) where
  covers q hq := by
    have hCovers := hFresh.covers q hq
    split at hCovers
    · rename_i hReading
      rw [if_pos hReading]
      exact hCovers
    · rename_i hReading
      rw [if_neg hReading]
      exact hCovers.mono (Nat.le_succ now)
  sees q currentGen hStage :=
    ⟨(hFresh.sees q currentGen hStage).1,
      Nat.le_succ_of_le (hFresh.sees q currentGen hStage).2⟩
  hit ns answer hHit :=
    ⟨Nat.le_succ_of_le (hFresh.hit ns answer hHit).1,
      (hFresh.hit ns answer hHit).2⟩
  unanswered := hFresh.unanswered

theorem Fresh.bump
    (hFresh : call.Fresh log now)
    (ns : String) :
    call.Fresh (log.bump ns now) now where
  covers q hq := (hFresh.covers q hq).bump ns now
  sees q currentGen hStage :=
    ⟨(hFresh.sees q currentGen hStage).1.bump
      (hFresh.sees q currentGen hStage).2 ns,
      (hFresh.sees q currentGen hStage).2⟩
  hit ns' answer hHit := by
    rcases hFresh.hit ns' answer hHit with ⟨hPast, hBefore⟩
    refine ⟨hPast, fun b hb hScope hTime => ?_⟩
    rcases List.mem_append.mp hb with hOld | hNew
    · exact hBefore b hOld hScope hTime
    · -- this bump comes after the lookup
      rw [List.mem_singleton.mp hNew] at hTime
      exact absurd hTime (Nat.not_lt.mpr hPast)
  unanswered := hFresh.unanswered

/- A step with which the recall has its results. -/
theorem Fresh.answer
    {stage : RecallStage Vec F D} {readFrom : Nat}
    (hFresh : call.Fresh log now)
    (hAnswered : stage.answered = true) :
    RecallCall.Fresh log now
      { call with stage := stage, readFrom := readFrom } where
  covers q hq := by
    cases stage <;> cases hAnswered <;> cases hq
  sees q currentGen hStage := by
    cases hStage
    cases hAnswered
  hit := hFresh.hit
  unanswered h := by
    rw [hAnswered] at h
    cases h

/- A step of a recall that has no results yet. -/
theorem Fresh.ask
    {stage : RecallStage Vec F D} {lookupAt readFrom : Nat}
    (hFresh : call.Fresh log now)
    (hOpen : call.stage.answered = false)
    (hCovers :
      ∀ q, stage.query = some q →
        log.Covers q.namespace q.generation
          (if stage.reading then readFrom else now))
    (hSees :
      ∀ q currentGen, stage = .entry q currentGen →
        log.Sees q.namespace currentGen lookupAt ∧
          lookupAt ≤ now) :
    RecallCall.Fresh log now
      { call with
        stage := stage
        lookupAt := lookupAt
        readFrom := readFrom } where
  covers := hCovers
  sees := hSees
  hit ns answer hHit := by
    rw [hFresh.unanswered hOpen] at hHit
    cases hHit
  unanswered _ := hFresh.unanswered hOpen

/- A step that goes on with the question and its reads. -/
theorem Fresh.keep
    {stage : RecallStage Vec F D} {q : Query Vec}
    (hFresh : call.Fresh log now)
    (hOpen : call.stage.answered = false)
    (hOld : call.stage.query = some q)
    (hNew : stage.query = some q)
    (hReading : stage.reading = call.stage.reading)
    (hStage : ∀ q currentGen, stage ≠ .entry q currentGen) :
    RecallCall.Fresh log now { call with stage := stage } := by
  refine hFresh.ask hOpen (fun q' hq => ?_)
    (fun q currentGen h => absurd h (hStage q currentGen))
  have hCovers := hFresh.covers q hOld
  rw [hNew] at hq
  cases hq
  rw [hReading]
  exact hCovers

end RecallCall

namespace Cached

variable [DecidableEq Vec]
variable {backend : Backend Vec F D}
variable {s t : Cached Vec F D}

/-
  The generations of the cache are the bumps there were, and
  what was kept or is being read has a stamp that covers it.
-/
structure Fresh (s : Cached Vec F D) : Prop where
  valid : s.bumps.Valid s.time
  generation :
    ∀ ns, s.cache.generation ns = s.bumps.count ns
  entries :
    ∀ key e, s.cache.results.peek key = some e →
      s.bumps.Covers key.namespace e.generation
        e.results.readFrom
  recalls :
    ∀ j call, s.recalls j = some call →
      call.Fresh s.bumps s.time

theorem Fresh.start
    (sys : System Vec F)
    (config : CacheConfig) :
    (start sys config : Cached Vec F D).Fresh where
  valid := .nil
  generation _ := rfl
  entries key e h := by
    change (Lru.empty _).peek key = some e at h
    rw [Lru.peek_empty] at h
    cases h
  recalls j call h := by cases h

/- A step that the cache and the recalls take no part in. -/
theorem Fresh.wait
    (hFresh : s.Fresh)
    (hCache : t.cache = s.cache)
    (hRecalls : t.recalls = s.recalls)
    (hBumps : t.bumps = s.bumps)
    (hTime : t.time = s.time + 1) :
    t.Fresh where
  valid := by
    rw [hBumps, hTime]
    exact hFresh.valid.wait
  generation := by
    rw [hCache, hBumps]
    exact hFresh.generation
  entries := by
    rw [hCache, hBumps]
    exact hFresh.entries
  recalls j call hCall := by
    rw [hBumps, hTime]
    rw [hRecalls] at hCall
    exact (hFresh.recalls j call hCall).wait

/- A step of a recall, which may put results in the cache. -/
theorem Fresh.setRecall
    {j : Nat} {call : RecallCall Vec F D}
    (hFresh : s.Fresh)
    (hRecalls : t.recalls = s.recalls)
    (hBumps : t.bumps = s.bumps)
    (hTime : t.time = s.time)
    (hGeneration :
      ∀ ns, t.cache.generation ns = s.cache.generation ns)
    (hEntries :
      ∀ key e, t.cache.results.peek key = some e →
        s.bumps.Covers key.namespace e.generation
          e.results.readFrom)
    (hCall : call.Fresh s.bumps s.time) :
    (t.setRecall j call).Fresh where
  valid := by
    change t.bumps.Valid (t.time + 1)
    rw [hBumps, hTime]
    exact hFresh.valid.wait
  generation ns := by
    change t.cache.generation ns = t.bumps.count ns
    rw [hGeneration, hBumps]
    exact hFresh.generation ns
  entries key e h := by
    change t.bumps.Covers _ _ _
    rw [hBumps]
    exact hEntries key e h
  recalls i call' hCall' := by
    change call'.Fresh t.bumps (t.time + 1)
    rw [hBumps, hTime]
    change Function.update t.recalls j (some call) i = _
      at hCall'
    rw [hRecalls, Function.update_apply] at hCall'
    split at hCall'
    · cases hCall'
      exact hCall.wait
    · exact (hFresh.recalls i call' hCall').wait

variable [LE F] [LT F] [DecidableLE F] [DecidableLT F]
variable [LT D] [DecidableLT D]

/- What a step of a recall does. -/
inductive Advance
    (backend : Backend Vec F D)
    (s : Cached Vec F D)
    (call : RecallCall Vec F D) :
    Cached Vec F D → RecallCall Vec F D → Prop
| embed
    {req : RecallRequest} {embedding : Vec}
    {embeddings : Lru String Vec}
    (hStage : call.stage = .embed req) :
    Advance backend s call
      { s with
        cache := { s.cache with embeddings := embeddings } }
      { call with stage := .generation req embedding }
| generation
    {req : RecallRequest} {embedding : Vec} {ns : String}
    (hStage : call.stage = .generation req embedding) :
    Advance backend s call s
      { call with
        stage :=
          .lookup
            ⟨req, ns, embedding, s.cache.generation ns⟩ }
| lookup
    {q : Query Vec}
    (hStage : call.stage = .lookup q) :
    Advance backend s call s
      { call with
        stage := .entry q (s.cache.generation q.namespace)
        lookupAt := s.time }
| hit
    {q : Query Vec} {currentGen : Nat} {answer : Answer F D}
    (hStage : call.stage = .entry q currentGen)
    (hGet :
      s.cache.getResults q.key currentGen = some answer) :
    Advance backend s call s
      { call with
        stage := .validate q.req answer.results
        hit := some (q.namespace, answer) }
| miss
    {q : Query Vec} {currentGen : Nat}
    (hStage : call.stage = .entry q currentGen) :
    Advance backend s call s
      { call with stage := .search q }
| search
    {q : Query Vec} {found : List (String × F)}
    (hStage : call.stage = .search q) :
    Advance backend s call s
      { call with
        stage := .rows q found
        readFrom := s.time }
| rows
    {q : Query Vec} {found : List (String × F)}
    (hStage : call.stage = .rows q found) :
    Advance backend s call s
      { call with
        stage :=
          .rerank q
            (Recall.order q.req found
              (s.sys.world.db.getMemoriesByIds
                (found.map Prod.fst))) }
| rank
    {q : Query Vec} {ordered : List Memory}
    {reranked : List (RerankResult F)}
    {tracker : AccessTracker}
    {stage : RecallStage Vec F D}
    (hStage : call.stage = .rerank q ordered)
    (hNext :
      stage = .put q
          (Recall.rank backend.scoring q.req
            s.sys.world.clock ordered reranked) ∨
        ∃ ids, stage = .flush q
          (Recall.rank backend.scoring q.req
            s.sys.world.clock ordered reranked) ids) :
    Advance backend s call { s with tracker := tracker }
      { call with stage := stage }
| flush
    {q : Query Vec} {results : List (RecallResult F D)}
    {ids : List String}
    (hStage : call.stage = .flush q results ids) :
    Advance backend s call
      (s.setDb (s.sys.world.db.updateLastAccessed ids
        s.sys.world.clock))
      { call with stage := .put q results }
| put
    {q : Query Vec} {results : List (RecallResult F D)}
    (hStage : call.stage = .put q results) :
    Advance backend s call
      { s with
        cache :=
          s.cache.putResults q.key
            ⟨results, call.readFrom⟩ q.generation }
      { call with stage := .validate q.req results }
| validate
    {req : RecallRequest}
    {results : List (RecallResult F D)}
    (hStage : call.stage = .validate req results) :
    Advance backend s call s
      { call with
        stage :=
          .stamp results
            (RecallStage.validIds backend.env req results)
            s.sys.world.clock }
| stamp
    {results : List (RecallResult F D)}
    {ids : List String} {now : DateTime}
    (hStage : call.stage = .stamp results ids now) :
    Advance backend s call
      (s.setDb (s.sys.world.db.updateLastValidated ids now))
      { call with stage := .done (.ok results) }
| finish
    {result : Except (CoreError F) (List (RecallResult F D))}
    {readFrom : Nat}
    (hRead :
      readFrom = call.readFrom ∨ ∃ q, call.stage = .search q) :
    Advance backend s call s
      { call with
        stage := .done result
        readFrom := readFrom }

omit [LT F] [DecidableLT F] in
theorem advance_eq
    (backend : Backend Vec F D)
    (s : Cached Vec F D)
    (call : RecallCall Vec F D) :
    Advance backend s call (s.advance backend call).1
      (s.advance backend call).2 := by
  cases hStage : call.stage with
  | embed req =>
      simp only [advance, hStage]
      split
      · exact .embed hStage
      · exact .embed hStage
  | generation req embedding =>
      simp only [advance, hStage]
      exact .generation hStage
  | lookup q =>
      simp only [advance, hStage]
      exact .lookup hStage
  | entry q currentGen =>
      simp only [advance, hStage]
      split
      · exact .hit hStage ‹_›
      · exact .miss hStage
  | search q =>
      simp only [advance, hStage]
      split
      · exact .finish (Or.inr ⟨q, hStage⟩)
      · split
        · exact .finish (Or.inr ⟨q, hStage⟩)
        · exact .search hStage
  | rows q found =>
      simp only [advance, hStage]
      split
      · exact .finish (Or.inl rfl)
      · exact .rows hStage
  | rerank q ordered =>
      simp only [advance, hStage]
      split
      · exact .finish (Or.inl rfl)
      · split
        · exact .rank hStage (Or.inr ⟨_, rfl⟩)
        · exact .rank hStage (Or.inl rfl)
  | flush q results ids =>
      simp only [advance, hStage]
      exact .flush hStage
  | put q results =>
      simp only [advance, hStage]
      exact .put hStage
  | validate req results =>
      simp only [advance, hStage]
      split
      · exact .finish (Or.inl rfl)
      · exact .validate hStage
  | stamp results ids now =>
      simp only [advance, hStage]
      exact .stamp hStage
  | done result =>
      simp only [advance, hStage]
      have hSame :
          call = { call with
            stage := .done result
            readFrom := call.readFrom } := by
        rw [← hStage]
      rw [hSame]
      exact .finish (Or.inl rfl)

omit [LT F] [DecidableLT F] in
/- A step of a recall leaves calls and bumps alone. -/
theorem Advance.same
    {s' : Cached Vec F D} {call call' : RecallCall Vec F D}
    (hAdvance : Advance backend s call s' call') :
    s'.sys.committed = s.sys.committed ∧
      s'.time = s.time ∧ s'.changes = s.changes ∧
        s'.recalls = s.recalls ∧ s'.bumps = s.bumps := by
  cases hAdvance <;> exact ⟨rfl, rfl, rfl, rfl, rfl⟩

omit [LT F] [DecidableLT F] in
/- A step of a recall is as fresh as what it starts from. -/
theorem Fresh.advance
    {s' : Cached Vec F D} {j : Nat}
    {call call' : RecallCall Vec F D}
    (hFresh : s.Fresh)
    (hCall : s.recalls j = some call)
    (hAdvance : Advance backend s call s' call') :
    (s'.setRecall j call').Fresh := by
  have hOld := hFresh.recalls j call hCall
  cases hAdvance with
  | embed hStage =>
      refine hFresh.setRecall rfl rfl rfl (fun _ => rfl)
        hFresh.entries (hOld.ask (by rw [hStage]; rfl) ?_ ?_)
      · intro q hq
        cases hq
      · intro q currentGen h
        cases h
  | generation hStage =>
      refine hFresh.setRecall rfl rfl rfl (fun _ => rfl)
        hFresh.entries (hOld.ask (by rw [hStage]; rfl) ?_ ?_)
      · intro q hq
        cases hq
        rw [hFresh.generation]
        exact .of_count hFresh.valid (Nat.le_refl _)
      · intro q currentGen h
        cases h
  | lookup hStage =>
      refine hFresh.setRecall rfl rfl rfl (fun _ => rfl)
        hFresh.entries (hOld.ask (by rw [hStage]; rfl) ?_ ?_)
      · intro q hq
        cases hq
        have hCovers := hOld.covers _ (by rw [hStage]; rfl)
        rw [hStage] at hCovers
        exact hCovers
      · intro q currentGen h
        cases h
        rw [hFresh.generation]
        exact ⟨.of_count hFresh.valid, Nat.le_refl _⟩
  | @hit q currentGen answer hStage hGet =>
      refine hFresh.setRecall rfl rfl rfl (fun _ => rfl)
        hFresh.entries ?_
      have hSees := hOld.sees q currentGen hStage
      have hCovers :
          s.bumps.Covers q.namespace currentGen
            answer.readFrom := by
        unfold RecallCache.getResults at hGet
        split at hGet
        · rename_i entry hPeek
          split at hGet
          · rename_i hGen
            cases hGet
            rw [← hGen]
            exact hFresh.entries _ _ hPeek
          · cases hGet
        · cases hGet
      refine ⟨fun q hq => ?_, fun q currentGen h => ?_,
        fun ns answer' hHit => ?_, fun h => ?_⟩
      · cases hq
      · cases h
      · cases hHit
        exact ⟨hSees.2, Log.fresh hCovers hSees.1⟩
      · cases h
  | miss hStage =>
      exact hFresh.setRecall rfl rfl rfl (fun _ => rfl)
        hFresh.entries
        (hOld.keep (by rw [hStage]; rfl) (by rw [hStage]; rfl)
          rfl (by rw [hStage]; rfl) (by simp))
  | search hStage =>
      refine hFresh.setRecall rfl rfl rfl (fun _ => rfl)
        hFresh.entries (hOld.ask (by rw [hStage]; rfl) ?_ ?_)
      · intro q hq
        cases hq
        -- the reads begin now
        have hCovers := hOld.covers _ (by rw [hStage]; rfl)
        rw [hStage] at hCovers
        exact hCovers
      · intro q currentGen h
        cases h
  | rows hStage =>
      exact hFresh.setRecall rfl rfl rfl (fun _ => rfl)
        hFresh.entries
        (hOld.keep (by rw [hStage]; rfl) (by rw [hStage]; rfl)
          rfl (by rw [hStage]; rfl) (by simp))
  | rank hStage hNext =>
      refine hFresh.setRecall rfl rfl rfl (fun _ => rfl)
        hFresh.entries ?_
      rcases hNext with rfl | ⟨ids, rfl⟩
      · exact hOld.keep (by rw [hStage]; rfl)
          (by rw [hStage]; rfl) rfl (by rw [hStage]; rfl)
          (by simp)
      · exact hOld.keep (by rw [hStage]; rfl)
          (by rw [hStage]; rfl) rfl (by rw [hStage]; rfl)
          (by simp)
  | flush hStage =>
      exact hFresh.setRecall rfl rfl rfl (fun _ => rfl)
        hFresh.entries
        (hOld.keep (by rw [hStage]; rfl) (by rw [hStage]; rfl)
          rfl (by rw [hStage]; rfl) (by simp))
  | put hStage =>
      refine hFresh.setRecall rfl rfl rfl (fun _ => rfl)
        (fun key e h => ?_) (hOld.answer rfl)
      rcases Lru.peek_put h with ⟨rfl, rfl⟩ | ⟨_, hBefore⟩
      · have hCovers := hOld.covers _ (by rw [hStage]; rfl)
        rw [hStage] at hCovers
        exact hCovers
      · exact hFresh.entries key e hBefore
  | validate hStage =>
      exact hFresh.setRecall rfl rfl rfl (fun _ => rfl)
        hFresh.entries (hOld.answer rfl)
  | stamp hStage =>
      exact hFresh.setRecall rfl rfl rfl (fun _ => rfl)
        hFresh.entries (hOld.answer rfl)
  | finish hRead =>
      exact hFresh.setRecall rfl rfl rfl (fun _ => rfl)
        hFresh.entries (hOld.answer rfl)

omit [LE F] [LT F] [DecidableLE F] [DecidableLT F]
  [LT D] [DecidableLT D] in
/- A recall that fails, or that goes on without a flush. -/
private theorem Fresh.fail
    {j : Nat} {err : CoreError F}
    {call : RecallCall Vec F D} {stage : RecallStage Vec F D}
    (hFresh : s.Fresh)
    (hCall : s.recalls j = some call)
    (hFail : call.stage.fail err = some stage) :
    (s.setRecall j { call with stage := stage }).Fresh := by
  have hOld := hFresh.recalls j call hCall
  refine hFresh.setRecall rfl rfl rfl (fun _ => rfl)
    hFresh.entries ?_
  cases hStage : call.stage with
  | flush q results ids =>
      rw [hStage] at hFail
      cases hFail
      exact hOld.keep (by rw [hStage]; rfl)
        (by rw [hStage]; rfl) rfl (by rw [hStage]; rfl)
        (by simp)
  | _ =>
      rw [hStage] at hFail
      cases hFail <;> exact hOld.answer rfl

theorem Fresh.next
    {e : Event F}
    (hFresh : s.Fresh)
    (hNext : s.next backend e = some t) :
    t.Fresh := by
  cases next_eq_some hNext with
  | sys e sys _ _ _ _ =>
      exact hFresh.wait rfl rfl rfl rfl
  | step i task sys _ _ _ =>
      exact hFresh.wait rfl rfl rfl rfl
  | bump i ns hOwed =>
      refine ⟨hFresh.valid.bump ns, fun ns' => ?_,
        fun key e h => ?_, fun j call hCall => ?_⟩
      · change (s.cache.bumpGeneration ns).generation ns' = _
        rw [RecallCache.generation_bumpGeneration,
          Log.count_bump, hFresh.generation]
      · exact (hFresh.entries key e h).bump ns s.time
      · exact ((hFresh.recalls j call hCall).bump ns).wait
  | «recall» j req hNone =>
      refine hFresh.setRecall rfl rfl rfl (fun _ => rfl)
        hFresh.entries ⟨fun q hq => ?_, fun q c h => ?_,
          fun ns answer hHit => ?_, fun _ => rfl⟩
      · cases hq
      · cases h
      · cases hHit
  | advance j call hCall =>
      exact hFresh.advance hCall (advance_eq backend s call)
  | failRecall j err call stage hCall hFail =>
      exact hFresh.fail hCall hFail
  | drain _ => exact hFresh.wait rfl rfl rfl rfl
  | flushed ok =>
      cases ok <;> exact hFresh.wait rfl rfl rfl rfl

/-
  What a recall has taken from the cache was read after all
  bumps of its namespace from before its lookup.
-/
theorem recall_fresh
    {j : Nat}
    {call : RecallCall Vec F D} {ns : String}
    {answer : Answer F D}
    (hReach : (Cached.machine backend).Reachable s)
    (hCall : s.recalls j = some call)
    (hHit : call.hit = some (ns, answer)) :
    ∀ b ∈ s.bumps, b.scope = ns →
      b.time < call.lookupAt → b.time < answer.readFrom := by
  rcases hReach with
    ⟨s₀, es, ⟨sys, config, rfl, _⟩, hRun⟩
  have hFresh : s.Fresh :=
    hRun.invariant (fun _ _ _ hFresh hStep => hFresh.next hStep)
      (.start sys config)
  exact ((hFresh.recalls j call hCall).hit ns answer hHit).2

/- A memory is stored and recalled twice. -/
theorem recall_fresh_second_recall :
    ∃ (s : Cached String Rat Rat)
        (call : RecallCall String Rat Rat) (ns : String)
        (answer : Answer Rat Rat),
      s.recalls 1 = some call ∧
        call.hit = some (ns, answer) ∧
        ∃ b ∈ s.bumps, b.scope = ns ∧
          b.time < call.lookupAt ∧
            b.time < answer.readFrom := by
  rcases run_of_any Backend.plain
    (start System.empty ⟨4, 4⟩)
    (.sys (.store 0 (.note "tea")) ::
      (List.replicate 9 (.sys (.step 0)) ++
        .bump 0 :: .recall 0 (.text "tea") ::
          (List.replicate 8 (.advance 0) ++
            .recall 1 (.text "tea") ::
              List.replicate 4 (.advance 1))))
    (fun s => (s.recalls 1).any (fun call =>
      call.hit.any (fun hit => s.bumps.any (fun b =>
        decide (b.scope = hit.1 ∧ b.time < call.lookupAt)))))
    (by decide +kernel) with ⟨s, hRun, hTest⟩
  rcases (Option.any_eq_true _ _).mp hTest with
    ⟨call, hCall, hHitTest⟩
  rcases (Option.any_eq_true _ _).mp hHitTest with
    ⟨⟨ns, answer⟩, hHit, hBumps⟩
  rcases List.any_eq_true.mp hBumps with ⟨b, hb, hBoth⟩
  rcases of_decide_eq_true hBoth with ⟨hScope, hTime⟩
  refine ⟨s, call, ns, answer, hCall, hHit, b, hb, hScope,
    hTime, ?_⟩
  exact recall_fresh
    ⟨_, _, ⟨System.empty, ⟨4, 4⟩, rfl, rfl, fun _ => rfl⟩,
      hRun⟩ hCall hHit b hb hScope hTime

end Cached

end Core

end Ferrex
