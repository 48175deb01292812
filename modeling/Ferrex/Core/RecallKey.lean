import Ferrex.Core.Cached

/-
  The key of the result cache against the question that it
  stands for.  The key has the embedding of the query in
  place of its text, and instants only as far as 64 bits of
  nanoseconds go; two requests with one key have one answer
  if they also agree on the text, the instant and the range,
  and only then do all searches and databases give them one.

  Main declarations:
    * `Recall.uncached_congr`
    * `SameQuestion`
    * `KeyDetermines`, `keyDetermines_iff`
    * `Cached.advance_answer`
-/

------------------------------------------------------------
-- One Question
------------------------------------------------------------

namespace Ferrex

namespace Core

open Store

variable {Vec F D : Type}

/- What the key has of a request only in part. -/
structure SameQuestion (req req' : RecallRequest) : Prop where
  query : req.query = req'.query
  asOf : req.asOf = req'.asOf
  timeRange : req.timeRange = req'.timeRange

theorem MemoryType.asStr_injective :
    Function.Injective MemoryType.asStr := by
  intro t t' h
  cases t <;> cases t' <;> simp_all [MemoryType.asStr]

theorem timestamp_injective :
    Function.Injective timestamp := by
  intro t t' h
  have hSeconds := congrArg Timestamp.seconds h
  have hNanos := congrArg Timestamp.nanos h
  simp only [timestamp] at hSeconds hNanos
  rw [← Int.mul_ediv_add_emod t 1000000000, hSeconds, hNanos,
    Int.mul_ediv_add_emod]

/- The fields of a key, whatever stands for the text. -/
structure SameFields (req req' : RecallRequest) : Prop where
  types : req.types = req'.types
  entities : req.entities = req'.entities
  limit : Recall.limit req = Recall.limit req'
  includeStale : req.includeStale = req'.includeStale
  includeInvalidated :
    req.includeInvalidated = req'.includeInvalidated
  timeRange :
    req.timeRange.map
        (fun range =>
          (range.start.map timestampNanosOpt,
            range.end.map timestampNanosOpt)) =
      req'.timeRange.map
        (fun range =>
          (range.start.map timestampNanosOpt,
            range.end.map timestampNanosOpt))
  asOf :
    req.asOf.bind timestampNanosOpt =
      req'.asOf.bind timestampNanosOpt
  explain : req.explain = req'.explain

theorem cacheKey_eq_iff
    {ns : String} {embedding embedding' : Vec}
    {req req' : RecallRequest} :
    cacheKey ns embedding req = cacheKey ns embedding' req' ↔
      embedding = embedding' ∧ SameFields req req' := by
  simp only [cacheKey, ResultCacheKeyInput.mk.injEq]
  constructor
  · rintro ⟨hEmbedding, hTypes, hEntities, -, hLimit, hStale,
      hInvalidated, hRange, hAsOf, hExplain⟩
    exact ⟨hEmbedding,
      Option.map_injective
        (List.map_injective_iff.mpr MemoryType.asStr_injective)
        hTypes,
      hEntities, hLimit, hStale, hInvalidated, hRange, hAsOf,
      hExplain⟩
  · rintro ⟨hEmbedding, hFields⟩
    exact ⟨hEmbedding, by rw [hFields.types],
      hFields.entities, trivial, hFields.limit,
      hFields.includeStale, hFields.includeInvalidated,
      hFields.timeRange, hFields.asOf, hFields.explain⟩

------------------------------------------------------------
-- Equal Answers
------------------------------------------------------------

namespace Recall

variable {req req' : RecallRequest}

theorem candidatePoolSize_congr
    (hFields : SameFields req req')
    (hSame : SameQuestion req req') :
    candidatePoolSize req = candidatePoolSize req' := by
  simp only [candidatePoolSize, hFields.limit,
    hFields.includeStale, hSame.asOf]

theorem buildQdrantFilter_congr
    (hFields : SameFields req req')
    (hSame : SameQuestion req req') :
    buildQdrantFilter req = buildQdrantFilter req' := by
  simp only [buildQdrantFilter, hFields.types,
    hFields.entities, hSame.timeRange]

theorem order_congr
    (hFields : SameFields req req')
    (hSame : SameQuestion req req')
    (found : List (String × F))
    (memories : List Memory) :
    order req found memories = order req' found memories := by
  simp only [order, hFields.includeInvalidated, hSame.asOf]

variable [LT D] [DecidableLT D]
variable [LE F] [DecidableLE F]

theorem rank_congr
    (hFields : SameFields req req')
    (scoring : Scoring F D)
    (now : DateTime)
    (ordered : List Memory)
    (reranked : List (RerankResult F)) :
    rank scoring req now ordered reranked =
      rank scoring req' now ordered reranked := by
  have hScored :
      scored scoring req now ordered reranked =
        scored scoring req' now ordered reranked := by
    simp only [scored, result, hFields.explain]
  simp only [rank, retainFresh, hScored, hFields.includeStale,
    hFields.limit, hFields.explain]

/- The answer depends on nothing else of the request. -/
theorem uncached_congr
    (hFields : SameFields req req')
    (hSame : SameQuestion req req')
    (search : Search Vec F)
    (scoring : Scoring F D)
    (db : Sqlite)
    (qdrant : Qdrant Vec)
    (now : DateTime)
    (ns : String)
    (embedding : Vec) :
    uncached search scoring db qdrant now ns embedding req =
      uncached search scoring db qdrant now ns embedding
        req' := by
  simp only [uncached, hSame.query,
    candidatePoolSize_congr hFields hSame,
    buildQdrantFilter_congr hFields hSame,
    order_congr hFields hSame, rank_congr hFields]

------------------------------------------------------------
-- Different Answers
------------------------------------------------------------

/- A search that fails for some questions, and finds nothing. -/
def refusing
    (refuses : String → Filter → Bool) : Search Vec F where
  search _ _ _ query _ filter :=
    if refuses query filter then
      .error (.qdrant "refused")
    else
      .ok []
  rerank _ _ _ := .ok []

theorem uncached_refusing
    (refuses : String → Filter → Bool)
    (scoring : Scoring F D)
    (db : Sqlite)
    (qdrant : Qdrant Vec)
    (now : DateTime)
    (ns : String)
    (embedding : Vec)
    (req : RecallRequest) :
    uncached (refusing refuses) scoring db qdrant now ns
        embedding req =
      if refuses req.query (buildQdrantFilter req) then
        .error (.store (.qdrant "refused"))
      else
        .ok [] := by
  cases hRefuses :
      refuses req.query (buildQdrantFilter req) with
  | true => simp only [uncached, refusing, hRefuses, if_pos]
  | false => simp [uncached, refusing, hRefuses]

/- A search that finds one id, which cannot be ranked. -/
def finding
    (score : F)
    (id : String) : Search Vec F where
  search _ _ _ _ _ _ := .ok [(id, score)]
  rerank _ _ _ := .error "refused"

/- A database with one row. -/
def single (row : MemoryRow) : Sqlite where
  memories := [row]
  entities := []
  entityAliases := []
  memoryEntities := []
  pendingOps := []
  completedOps := []

theorem getMemoriesByIds_single (row : MemoryRow) :
    (single row).getMemoriesByIds [row.id] =
      [⟨row, []⟩] := by
  have hBatches : Sqlite.inClauseBatches [row.id] = [[row.id]] :=
    rfl
  simp [Sqlite.getMemoriesByIds, hBatches, single,
    Sqlite.getEntityNamesForMemory, Sqlite.splitAggregated]

theorem uncached_finding
    (score : F)
    (row : MemoryRow)
    (scoring : Scoring F D)
    (qdrant : Qdrant Vec)
    (now : DateTime)
    (ns : String)
    (embedding : Vec)
    (req : RecallRequest) :
    uncached (finding score row.id) scoring (single row)
        qdrant now ns embedding req =
      if admits req.asOf (req.includeInvalidated.getD false)
          row then
        .error (.embed "refused")
      else
        .ok [] := by
  cases hAdmits :
      admits req.asOf (req.includeInvalidated.getD false)
        row with
  | true =>
      simp [uncached, finding, getMemoriesByIds_single, order,
        hAdmits]
  | false =>
      simp [uncached, finding, getMemoriesByIds_single, order,
        hAdmits]

/- A memory that was valid from a time on. -/
def since (t : DateTime) : MemoryRow where
  id := "memory"
  «namespace» := "default"
  memoryType := .episodic
  content := none
  subject := none
  predicate := none
  object := none
  confidence := 1
  source := none
  context := none
  createdAt := t
  updatedAt := t
  tValid := none
  tInvalid := none
  lastAccessed := t
  lastValidated := none
  accessCount := 0
  normalizedPredicate := none

theorem admits_since_iff
    (asOf : Option DateTime)
    (includeInvalidated : Bool)
    (t : DateTime) :
    admits asOf includeInvalidated (since t) = true ↔
      ∀ at' ∈ asOf, t ≤ at' := by
  cases asOf with
  | none => simp [admits, since]
  | some at' =>
      simp only [admits, since, Option.getD_none,
        Option.mem_some_iff, forall_eq']
      cases includeInvalidated <;> simp

/- Filters of one type list tell the time ranges apart. -/
theorem timeRange_of_filter
    {req req' : RecallRequest}
    (hFields : SameFields req req')
    (hFilter :
      buildQdrantFilter req = buildQdrantFilter req') :
    req.timeRange = req'.timeRange := by
  have hMust := congrArg Filter.must hFilter
  have hRange := hFields.timeRange
  simp only [buildQdrantFilter, hFields.types,
    List.append_cancel_left_eq] at hMust
  cases hOld : req.timeRange with
  | none =>
      cases hNew : req'.timeRange with
      | none => rfl
      | some range' => simp [hOld, hNew] at hRange
  | some range =>
      cases hNew : req'.timeRange with
      | none => simp [hOld, hNew] at hRange
      | some range' =>
          rw [hOld, hNew] at hMust hRange
          rcases range with ⟨start, «end»⟩
          rcases range' with ⟨start', end'⟩
          simp only [Option.map_some, Option.some.injEq,
            Prod.mk.injEq] at hRange
          rcases hRange with ⟨hStart, hEnd⟩
          cases start <;> cases start' <;>
            cases «end» <;> cases end' <;>
              simp_all [timeRangeConditions,
                timestamp_injective.eq_iff]

/- Some row is valid as of only one of two instants. -/
theorem exists_admitted_by_one
    {asOf asOf' : Option DateTime}
    (hNe : asOf ≠ asOf') :
    ∃ t, ¬ ((∀ at' ∈ asOf, t ≤ at') ↔
      ∀ at' ∈ asOf', t ≤ at') := by
  cases asOf with
  | none =>
      cases asOf' with
      | none => exact absurd rfl hNe
      | some t =>
          refine ⟨t + 1, fun h => ?_⟩
          exact absurd (h.mp (fun _ h => by cases h) t rfl)
            (not_le.mpr (Int.lt_succ t))
  | some t =>
      cases asOf' with
      | none =>
          refine ⟨t + 1, fun h => ?_⟩
          exact absurd (h.mpr (fun _ h => by cases h) t rfl)
            (not_le.mpr (Int.lt_succ t))
      | some t' =>
          rcases lt_or_gt_of_ne
            (fun h : t = t' => hNe (congrArg some h)) with
            hLt | hGt
          · refine ⟨t', fun h => ?_⟩
            exact absurd (h.mpr (by simp) t rfl)
              (not_le.mpr hLt)
          · refine ⟨t, fun h => ?_⟩
            exact absurd (h.mp (by simp) t' rfl)
              (not_le.mpr hGt)

end Recall

------------------------------------------------------------
-- What a Key Determines
------------------------------------------------------------

variable [LT D] [DecidableLT D]
variable [LE F] [DecidableLE F]

/-
  If the keys of two requests in a namespace are equal, so
  are their answers, with any search, databases and time.
-/
def KeyDetermines
    (embed : String → Vec)
    (scoring : Scoring F D)
    (ns : String)
    (req req' : RecallRequest) : Prop :=
  ∀ (search : Search Vec F) (db : Sqlite)
    (qdrant : Qdrant Vec) (now : DateTime),
    cacheKey ns (embed req.query) req =
        cacheKey ns (embed req'.query) req' →
      Recall.uncached search scoring db qdrant now ns
          (embed req.query) req =
        Recall.uncached search scoring db qdrant now ns
          (embed req'.query) req'

section KeyDetermines

variable {embed : String → Vec}
variable {scoring : Scoring F D} {ns : String}
variable {req req' : RecallRequest}

/- The answers of two requests with one key. -/
private theorem KeyDetermines.uncached
    (hDetermines : KeyDetermines embed scoring ns req req')
    (hEmbedding : embed req.query = embed req'.query)
    (hFields : SameFields req req')
    (search : Search Vec F)
    (db : Sqlite) :
    Recall.uncached search scoring db ⟨fun _ => []⟩ 0 ns
        (embed req.query) req =
      Recall.uncached search scoring db ⟨fun _ => []⟩ 0 ns
        (embed req'.query) req' :=
  hDetermines search db ⟨fun _ => []⟩ 0
    (cacheKey_eq_iff.mpr ⟨hEmbedding, hFields⟩)

private theorem KeyDetermines.refuses
    (hDetermines : KeyDetermines embed scoring ns req req')
    (hEmbedding : embed req.query = embed req'.query)
    (hFields : SameFields req req')
    (refuses : String → Filter → Bool) :
    refuses req.query (buildQdrantFilter req) =
      refuses req'.query (buildQdrantFilter req') := by
  have hSame :=
    hDetermines.uncached hEmbedding hFields
      (Recall.refusing refuses) (Recall.single (Recall.since 0))
  rw [Recall.uncached_refusing, Recall.uncached_refusing]
    at hSame
  cases hOld : refuses req.query (buildQdrantFilter req) <;>
    cases hNew :
      refuses req'.query (buildQdrantFilter req') <;>
        simp_all

/-
  With any embedder, the key determines the answer of exactly
  those requests that ask the same whenever their texts have
  one embedding and the other fields of their keys agree.
-/
theorem keyDetermines_iff
    [Inhabited F] :
    KeyDetermines embed scoring ns req req' ↔
      (embed req.query = embed req'.query →
        SameFields req req' → SameQuestion req req') := by
  constructor
  · intro hDetermines hEmbedding hFields
    have hRefuses := hDetermines.refuses hEmbedding hFields
    constructor
    case query =>
      have hQuery :=
        hRefuses (fun query _ => decide (query = req.query))
      simpa [eq_comm] using hQuery
    case timeRange =>
      have hFilter :=
        hRefuses
          (fun _ filter =>
            decide (filter = buildQdrantFilter req))
      exact Recall.timeRange_of_filter hFields
        (by simpa [eq_comm] using hFilter)
    case asOf =>
      by_contra hNe
      rcases Recall.exists_admitted_by_one hNe with ⟨t, hOne⟩
      have hSame :=
        hDetermines.uncached hEmbedding hFields
          (Recall.finding default (Recall.since t).id)
          (Recall.single (Recall.since t))
      rw [Recall.uncached_finding, Recall.uncached_finding,
        hFields.includeInvalidated] at hSame
      apply hOne
      rw [← Recall.admits_since_iff req.asOf
          (req'.includeInvalidated.getD false),
        ← Recall.admits_since_iff req'.asOf
          (req'.includeInvalidated.getD false)]
      split at hSame <;> split at hSame <;> simp_all
  · intro hSame search db qdrant now hKey
    rcases cacheKey_eq_iff.mp hKey with ⟨hEmbedding, hFields⟩
    have hQuestion := hSame hEmbedding hFields
    rw [Recall.uncached_congr hFields hQuestion,
      hQuestion.query]

end KeyDetermines

/- A request about the memories that were valid at a time. -/
def RecallRequest.textAsOf
    (query : String)
    (asOf : DateTime) : RecallRequest :=
  { RecallRequest.text query with asOf := some asOf }

/-
  64 bits of nanoseconds hold neither the year 1600 nor the
  year 2300: as of the one no memory was valid yet, as of the
  other all of them are, and both requests have one key.
-/
theorem distant_years_share_key :
    ¬ ∀ (embed : String → String) (ns : String)
        (req req' : RecallRequest),
        KeyDetermines embed Backend.plainScoring ns
          req req' := by
  intro hClaim
  let world : World String :=
    (store Env.plain MemoryService.plain
      (System.empty : System String Rat).world
      (.note "tea")).1
  let found (req : RecallRequest) : Option Nat :=
    (Recall.uncached Backend.plainSearch Backend.plainScoring
      world.db world.qdrant world.clock "default" "tea"
      req).toOption.map List.length
  have hBefore :
      found (.textAsOf "tea" (-11676096000000000000)) =
        some 0 := by
    decide +kernel
  have hAfter :
      found (.textAsOf "tea" 10413792000000000000) =
        some 1 := by
    decide +kernel
  have hSame :=
    hClaim id "default"
      (.textAsOf "tea" (-11676096000000000000))
      (.textAsOf "tea" 10413792000000000000)
      Backend.plainSearch world.db world.qdrant world.clock
      (by decide +kernel)
  have hFound :=
    congrArg (fun r => r.toOption.map List.length) hSame
  have hEqual : some 0 = some 1 :=
    hBefore.symm.trans (hFound.trans hAfter)
  cases hEqual

------------------------------------------------------------
-- Recalls in Their Steps
------------------------------------------------------------

/- The answer from the rows that were found. -/
def Query.ranked
    (backend : Backend Vec F D)
    (w : World Vec)
    (q : Query Vec)
    (ordered : List Memory) :
    Except (CoreError F) (List (RecallResult F D)) :=
  match backend.search.rerank q.req.query
      (ordered.map searchableText) ordered.length with
  | .error e => .error (.embed e)
  | .ok reranked =>
      .ok (Recall.rank backend.scoring q.req w.clock ordered
        reranked)

namespace RecallStage

/- What a recall that has missed the cache will come to. -/
def answer
    (backend : Backend Vec F D)
    (w : World Vec) :
    RecallStage Vec F D →
      Option (Except (CoreError F) (List (RecallResult F D)))
| .search q =>
    some (Recall.uncached backend.search backend.scoring w.db
      w.qdrant w.clock q.namespace q.embedding q.req)
| .rows q found =>
    let ordered :=
      Recall.order q.req found
        (w.db.getMemoriesByIds (found.map Prod.fst))
    some (if ordered.isEmpty then
      .ok []
    else
      q.ranked backend w ordered)
| .rerank q ordered => some (q.ranked backend w ordered)
| .flush _ results _ => some (.ok results)
| .put _ results => some (.ok results)
| .done result => some result
| _ => none

/- The stages between the miss and the results. -/
def computing : RecallStage Vec F D → Bool
| .search _ => true
| .rows _ _ => true
| .rerank _ _ => true
| _ => false

end RecallStage

variable [DecidableEq Vec]

/-
  The search, the rows and the reranker come, step by step,
  to the uncached answer, and leave both stores alone.
-/
theorem Cached.advance_answer
    {backend : Backend Vec F D}
    {s : Cached Vec F D} {call : RecallCall Vec F D}
    (hComputing : call.stage.computing = true) :
    (s.advance backend call).2.stage.answer backend
        (s.advance backend call).1.sys.world =
      call.stage.answer backend s.sys.world := by
  cases hStage : call.stage with
  | search q =>
      simp only [advance, hStage]
      split
      · rename_i hFound
        simp [RecallStage.answer, Recall.uncached, hFound]
      · rename_i found hFound
        split
        · rename_i hEmpty
          simp [RecallStage.answer, Recall.uncached, hFound,
            hEmpty]
        · rename_i hEmpty
          simp only [RecallStage.answer, Recall.uncached,
            hFound, if_neg hEmpty]
          rfl
  | rows q found =>
      simp only [advance, hStage]
      split
      · rename_i hEmpty
        simp [RecallStage.answer, hEmpty]
      · rename_i hEmpty
        simp only [RecallStage.answer, if_neg hEmpty]
  | rerank q ordered =>
      simp only [advance, hStage]
      split
      · rename_i hReranked
        simp only [RecallStage.answer, Query.ranked,
          hReranked]
      · rename_i reranked hReranked
        split
        · simp only [RecallStage.answer, Query.ranked,
            hReranked]
        · simp only [RecallStage.answer, Query.ranked,
            hReranked]
  | _ =>
      rw [hStage] at hComputing
      cases hComputing

end Core

end Ferrex
