import Ferrex.Core.Pipeline

/-
  Recall without its cache: the search with its filter, the
  filter on the rows that are fetched, and the ranking of
  what is left.  Search, reranker and the arithmetic of the
  scores are parameters.

  Main declarations:
    * `RecallRequest`, `RecallResult`
    * `Search`, `Scoring`
    * `buildQdrantFilter`
    * `Recall.admits`, `Recall.order`, `Recall.rank`
    * `Recall.uncached`
-/

------------------------------------------------------------
-- Requests and Results
------------------------------------------------------------

namespace Ferrex

namespace Core

open Store

/-
  An interval of creation times, open where nothing is
  given.
-/
structure TimeRange where
  start : Option DateTime
  «end» : Option DateTime
deriving DecidableEq

/- The request of the recall tool, with all its options. -/
structure RecallRequest where
  query : String
  types : Option (List MemoryType)
  entities : Option (List String)
  «namespace» : Option String
  limit : Option Nat
  includeStale : Option Bool
  includeInvalidated : Option Bool
  timeRange : Option TimeRange
  asOf : Option DateTime
  validateIds : Option (List String)
  explain : Bool
deriving DecidableEq

/- How a result is labelled for its age. -/
inductive FreshnessLabel where
| fresh
| aging
| stale
deriving DecidableEq

/- How a result came by its place. -/
structure ScoringBreakdown (F D : Type) where
  rrfRank : Nat
  rrfScore : F
  rerankScore : F
  recencyBoost : D
  boostedScore : F
  staleness : D
  stalenessLabel : FreshnessLabel
  finalRank : Nat
deriving DecidableEq

/- One answer of a recall. -/
structure RecallResult (F D : Type) where
  memory : Memory
  relevanceScore : F
  stalenessScore : D
  freshnessLabel : FreshnessLabel
  scoring : Option (ScoringBreakdown F D)
deriving DecidableEq

------------------------------------------------------------
-- Filters
------------------------------------------------------------

/- An instant as Qdrant takes it. -/
structure Timestamp where
  seconds : Int
  nanos : Int
deriving DecidableEq

/- A condition on the payload of a point. -/
inductive Condition where
| «matches» (field : String) (values : List String)
| createdAt (gte lte : Option Timestamp)
deriving DecidableEq

/-
  All of the first list, and one of the second if there are
  any.
-/
structure Filter where
  must : List Condition
  should : List Condition
deriving DecidableEq

/- An instant as seconds and nanoseconds. -/
def timestamp (t : DateTime) : Timestamp where
  seconds := t / 1000000000
  nanos := t % 1000000000

/- The interval as a condition, if it has a bound. -/
def timeRangeConditions (range : TimeRange) : List Condition :=
  (match range.start with
    | some start => [.createdAt (some (timestamp start)) none]
    | none => []) ++
  (match range.end with
    | some «end» => [.createdAt none (some (timestamp «end»))]
    | none => [])

/- The conditions that Qdrant itself checks. -/
def buildQdrantFilter (req : RecallRequest) : Filter where
  must :=
    [.matches "point_type" ["memory"]] ++
      (match req.types with
        | some types =>
            [.matches "memory_type"
              (types.map MemoryType.asStr)]
        | none => []) ++
      (match req.timeRange with
        | some range => timeRangeConditions range
        | none => [])
  should :=
    match req.entities with
    | some entities =>
        entities.map (fun e => .matches "entities" [e])
    | none => []

------------------------------------------------------------
-- Search and Scores
------------------------------------------------------------

/-
  The reranker's answer: which document, and how good it is.
-/
structure RerankResult (F : Type) where
  index : Nat
  score : F

/-
  The hybrid search over the collections and the reranker,
  as functions of what they are called with.
-/
structure Search (Vec F : Type) where
  search :
    Qdrant Vec → String → Vec → String → Nat → Filter →
      Except StoreError (List (String × F))
  rerank :
    String → List String → Nat →
      Except String (List (RerankResult F))

/-
  The arithmetic of the scores, in 32-bit floats `F` and
  64-bit floats `D`.  An age is in whole seconds.
-/
structure Scoring (F D : Type) where
  zero : F
  recencyBoost : MemoryType → Int → D
  boosted : F → D → F
  stalenessScore : Memory → DateTime → D
  threshold : MemoryType → D
  freshRatio : D → D

/-
  Stale from the threshold on, and aging from half of it.
-/
def freshnessLabel
    {F D : Type} [LT D] [DecidableLT D]
    (scoring : Scoring F D)
    (score threshold : D) : FreshnessLabel :=
  if score < scoring.freshRatio threshold then
    .fresh
  else if score < threshold then
    .aging
  else
    .stale

/- What the reranker reads of a memory. -/
def searchableText (m : Memory) : String :=
  match m.memoryType with
  | .semantic =>
      String.intercalate " "
        ([m.subject, m.predicate, m.object].filterMap id)
  | _ => m.content.getD ""

------------------------------------------------------------
-- The Uncached Path
------------------------------------------------------------

namespace Recall

/- How many results are given if none are asked for. -/
def defaultRecallLimit : Nat := 10

/- How many are given at most. -/
def maxRecallLimit : Nat := 200

/- How many candidates the reranker is given at least. -/
def minRerankPoolSize : Nat := 20

/- The limit of a request, within these bounds. -/
def limit (req : RecallRequest) : Nat :=
  min (req.limit.getD defaultRecallLimit) maxRecallLimit

/- Twice the pool where filters will drop fetched rows. -/
def candidatePoolSize (req : RecallRequest) : Nat :=
  let size := max (limit req) minRerankPoolSize
  if req.includeStale = some false ∨ req.asOf.isSome then
    size * 2
  else
    size

/-
  Whether a row may be returned: a valid one, or with
  `as_of` one that was valid at that time.
-/
def admits
    (asOf : Option DateTime)
    (includeInvalidated : Bool)
    (m : MemoryRow) : Bool :=
  match asOf with
  | none => includeInvalidated || m.tInvalid.isNone
  | some asOf =>
      let effectiveStart := m.tValid.getD m.createdAt
      if asOf < effectiveStart then
        false
      else if includeInvalidated then
        true
      else
        match m.tInvalid with
        | none => true
        | some tInvalid => decide (asOf < tInvalid)

variable {Vec F D : Type}

/- The rows found, in the order of the search. -/
def order
    (req : RecallRequest)
    (found : List (String × F))
    (memories : List Memory) : List Memory :=
  let admitted :=
    memories.filter
      (fun m =>
        admits req.asOf (req.includeInvalidated.getD false)
          m.toMemoryRow)
  found.filterMap
    (fun r => admitted.find? (fun m => m.id = r.1))

variable [LT D] [DecidableLT D]

/- A result, labelled at the time of the recall. -/
def result
    (scoring : Scoring F D)
    (req : RecallRequest)
    (now : DateTime)
    (memory : Memory)
    (score : F) : RecallResult F D :=
  let age := Int.tdiv (now - memory.createdAt) 1000000000
  let recency := scoring.recencyBoost memory.memoryType age
  let relevanceScore := scoring.boosted score recency
  let sScore := scoring.stalenessScore memory now
  let label :=
    freshnessLabel scoring sScore
      (scoring.threshold memory.memoryType)
  { memory := memory
    relevanceScore := relevanceScore
    stalenessScore := sScore
    freshnessLabel := label
    scoring :=
      if req.explain then
        some
          { rrfRank := 0
            rrfScore := scoring.zero
            rerankScore := score
            recencyBoost := recency
            boostedScore := relevanceScore
            staleness := sScore
            stalenessLabel := label
            finalRank := 0 }
      else
        none }

/- The final ranks, for a request that asks for them. -/
def setFinalRanks
    (results : List (RecallResult F D)) :
    List (RecallResult F D) :=
  results.mapIdx
    (fun i r =>
      { r with
        scoring :=
          r.scoring.map
            (fun s => { s with finalRank := i + 1 }) })

/- The ranked rows with their scores. -/
def scored
    (scoring : Scoring F D)
    (req : RecallRequest)
    (now : DateTime)
    (ordered : List Memory)
    (reranked : List (RerankResult F)) :
    List (RecallResult F D) :=
  reranked.filterMap
    (fun r =>
      ordered[r.index]?.map
        (fun m => result scoring req now m r.score))

/-
  Stale results are dropped last, if the request says so.
-/
def retainFresh
    (req : RecallRequest)
    (results : List (RecallResult F D)) :
    List (RecallResult F D) :=
  if req.includeStale = some false then
    results.filter (fun r => r.freshnessLabel ≠ .stale)
  else
    results

variable [LE F] [DecidableLE F]

/- Scores, the stale filter, the order and the limit. -/
def rank
    (scoring : Scoring F D)
    (req : RecallRequest)
    (now : DateTime)
    (ordered : List Memory)
    (reranked : List (RerankResult F)) :
    List (RecallResult F D) :=
  let kept :=
    retainFresh req
      (scored scoring req now ordered reranked)
  let results :=
    (kept.insertionSort
      (fun a b => b.relevanceScore ≤ a.relevanceScore)).take
        (limit req)
  if req.explain then setFinalRanks results else results

/-
  The results for a request in one state of both stores, at
  one time.  What it does to the rows comes after them.
-/
def uncached
    (search : Search Vec F)
    (scoring : Scoring F D)
    (db : Sqlite)
    (qdrant : Qdrant Vec)
    (now : DateTime)
    (ns : String)
    (embedding : Vec)
    (req : RecallRequest) :
    Except (CoreError F) (List (RecallResult F D)) :=
  match search.search qdrant ns embedding req.query
      (candidatePoolSize req) (buildQdrantFilter req) with
  | .error e => .error (.store e)
  | .ok found =>
      if found.isEmpty then
        .ok []
      else
        let ordered :=
          order req found
            (db.getMemoriesByIds (found.map Prod.fst))
        if ordered.isEmpty then
          .ok []
        else
          match search.rerank req.query
              (ordered.map searchableText) ordered.length with
          | .error e => .error (.embed e)
          | .ok reranked =>
              .ok (rank scoring req now ordered reranked)

------------------------------------------------------------
-- Where Results Come From
------------------------------------------------------------

omit [LT D] [DecidableLT D] [LE F] [DecidableLE F] in
/- The ordered rows are among those that were fetched. -/
theorem mem_of_mem_order
    {req : RecallRequest} {found : List (String × F)}
    {memories : List Memory} {m : Memory}
    (h : m ∈ order req found memories) :
    m ∈ memories := by
  rcases List.mem_filterMap.mp h with ⟨r, _, hFind⟩
  exact List.mem_of_mem_filter
    (List.mem_of_find?_eq_some hFind)

/- What holds of each scored row holds of the results. -/
theorem of_mem_rank
    {scoring : Scoring F D} {req : RecallRequest}
    {now : DateTime} {ordered : List Memory}
    {reranked : List (RerankResult F)}
    {P : RecallResult F D → Prop}
    {r : RecallResult F D}
    (hResult :
      ∀ m ∈ ordered, ∀ score,
        P (result scoring req now m score))
    (hScoring :
      ∀ r : RecallResult F D, P r →
        ∀ s, P { r with scoring := s })
    (h : r ∈ rank scoring req now ordered reranked) :
    P r := by
  have hScored :
      ∀ r ∈ scored scoring req now ordered reranked, P r := by
    intro r hr
    rcases List.mem_filterMap.mp hr with ⟨x, _, hx⟩
    rcases Option.map_eq_some_iff.mp hx with ⟨m, hm, rfl⟩
    exact hResult m (List.mem_of_getElem? hm) x.score
  have hKept :
      ∀ r ∈ retainFresh req
          (scored scoring req now ordered reranked), P r := by
    intro r hr
    unfold retainFresh at hr
    split at hr
    · exact hScored r (List.mem_of_mem_filter hr)
    · exact hScored r hr
  have hTaken :
      ∀ r ∈ ((retainFresh req
          (scored scoring req now ordered
            reranked)).insertionSort
          (fun a b =>
            b.relevanceScore ≤ a.relevanceScore)).take
          (limit req), P r := by
    intro r hr
    have hSorted := List.mem_of_mem_take hr
    rw [List.mem_insertionSort] at hSorted
    exact hKept r hSorted
  simp only [rank] at h
  split at h
  · rcases List.mem_mapIdx.mp h with ⟨i, hi, rfl⟩
    exact hScoring _ (hTaken _ (List.getElem_mem hi)) _
  · exact hTaken r h

/- Every result is about one of the ranked rows. -/
theorem memory_of_mem_rank
    {scoring : Scoring F D} {req : RecallRequest}
    {now : DateTime} {ordered : List Memory}
    {reranked : List (RerankResult F)}
    {r : RecallResult F D}
    (h : r ∈ rank scoring req now ordered reranked) :
    r.memory ∈ ordered :=
  of_mem_rank (P := fun r => r.memory ∈ ordered)
    (fun _ hm _ => hm) (fun _ hr _ => hr) h

end Recall

end Core

end Ferrex
