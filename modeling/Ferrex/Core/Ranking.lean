import Ferrex.Lib.Best
import Ferrex.Core.Recall

/-
  What recall makes of the candidates of its search: the
  rows that pass its filters, the best ones first, and as
  many as the request asks for.

  Main declarations:
    * `Sqlite.fetched`
    * `Recall.Valid`, `Recall.Fresh`
    * `Recall.PostProcessed`
    * `Recall.recall_postprocessed`
    * `Recall.recall_fills_limit_iff`
-/

------------------------------------------------------------
-- Rows of the Candidates
------------------------------------------------------------

namespace Ferrex

namespace Store

namespace Sqlite

variable {db : Sqlite} {ids : List String}

/- The memory that is fetched for an id, if there is one. -/
def fetched (db : Sqlite) (id : String) : Option Memory :=
  (db.memories.find? (fun r => r.id = id)).map
    (fun r =>
      ⟨r, splitAggregated
        (db.getEntityNamesForMemory r.id)⟩)

theorem fetched_eq_some_iff
    {id : String} {m : Memory}
    (hRows : Table.KeyUnique MemoryRow.id db.memories) :
    db.fetched id = some m ↔
      m.id = id ∧ m.toMemoryRow ∈ db.memories ∧
        m.entities =
          splitAggregated (db.getEntityNamesForMemory m.id) := by
  unfold fetched
  constructor
  · intro h
    rcases Option.map_eq_some_iff.mp h with ⟨r, hFind, rfl⟩
    exact ⟨by simpa using List.find?_some hFind,
      List.mem_of_find?_eq_some hFind, rfl⟩
  · rintro ⟨hId, hMem, hEntities⟩
    rcases m with ⟨row, entities⟩
    have hFind :
        db.memories.find? (fun r => r.id = id) = some row := by
      cases hFound :
          db.memories.find? (fun r => r.id = id) with
      | none =>
          have hNone := List.find?_eq_none.mp hFound row hMem
          exact absurd (by simpa using hId) hNone
      | some r =>
          have hSame : r.id = id := by
            simpa using List.find?_some hFound
          rw [hRows.eq_of_key_eq
            (List.mem_of_find?_eq_some hFound) hMem
            (hSame.trans hId.symm)]
    rw [hFind]
    exact congrArg (fun es => some (Memory.mk row es))
      hEntities.symm

/- Fetching many rows is fetching each of them. -/
theorem mem_getMemoriesByIds_iff
    {m : Memory}
    (hRows : Table.KeyUnique MemoryRow.id db.memories) :
    m ∈ db.getMemoriesByIds ids ↔
      m.id ∈ ids ∧ db.fetched m.id = some m := by
  rw [fetched_eq_some_iff hRows]
  constructor
  · intro h
    have hBoth := mem_getMemoriesByIds h
    refine ⟨hBoth.2, rfl, hBoth.1, ?_⟩
    rcases List.mem_flatMap.mp h with ⟨batch, _, hMem⟩
    rcases List.mem_map.mp hMem with ⟨row, _, rfl⟩
    rfl
  · rintro ⟨hId, _, hMem, hEntities⟩
    rw [← inClauseBatches_flatten ids] at hId
    rcases List.mem_flatten.mp hId with ⟨batch, hBatch, hIn⟩
    refine List.mem_flatMap.mpr ⟨batch, hBatch, ?_⟩
    refine List.mem_map.mpr ⟨m.toMemoryRow, ?_, ?_⟩
    · exact List.mem_filter.mpr ⟨hMem, by simpa using hIn⟩
    · rcases m with ⟨row, entities⟩
      exact congrArg (Memory.mk row) hEntities.symm

/- Rows that are fetched by distinct ids are distinct. -/
theorem nodup_getMemoriesByIds
    (hRows : Table.KeyUnique MemoryRow.id db.memories)
    (hIds : ids.Nodup) :
    (db.getMemoriesByIds ids).Nodup := by
  rw [← inClauseBatches_flatten ids, List.nodup_flatten] at hIds
  unfold getMemoriesByIds
  rw [List.nodup_flatMap]
  constructor
  · intro batch _
    refine List.Nodup.map ?_ (hRows.of_map.filter _)
    exact fun _ _ hEq => congrArg Memory.toMemoryRow hEq
  · refine hIds.2.imp ?_
    -- a row in two batches has its id in both
    intro batch batch' hDisjoint m hm hm'
    rcases List.mem_map.mp hm with ⟨r, hr, rfl⟩
    rcases List.mem_map.mp hm' with ⟨r', hr', hEq⟩
    obtain rfl : r' = r := congrArg Memory.toMemoryRow hEq
    exact hDisjoint (by simpa using (List.mem_filter.mp hr).2)
      (by simpa using (List.mem_filter.mp hr').2)

end Sqlite

end Store

------------------------------------------------------------
-- Ordered Rows
------------------------------------------------------------

namespace Core

open Store

namespace Recall

variable {Vec F D : Type}

section Order

variable {req : RecallRequest} {db : Sqlite}
variable {found : List (String × F)}

/- The rows that were fetched for the candidates. -/
def rowsOf
    (db : Sqlite)
    (found : List (String × F)) : List Memory :=
  db.getMemoriesByIds (found.map Prod.fst)

/- The validity filter of a request. -/
def valid (req : RecallRequest) (m : Memory) : Bool :=
  admits req.asOf (req.includeInvalidated.getD false)
    m.toMemoryRow

/-
  What the filter is for: with a time, the row was valid
  from then or before, and it is not invalidated, or only
  later than that time, unless the request takes such rows.
-/
structure Valid (req : RecallRequest) (m : Memory) : Prop where
  started :
    ∀ t, req.asOf = some t → m.tValid.getD m.createdAt ≤ t
  lasting :
    req.includeInvalidated = some true ∨
      ∀ tInvalid, m.tInvalid = some tInvalid →
        ∃ t, req.asOf = some t ∧ t < tInvalid

theorem valid_iff {m : Memory} :
    valid req m = true ↔ Valid req m := by
  have hGetD :
      req.includeInvalidated.getD false = true ↔
        req.includeInvalidated = some true := by
    cases req.includeInvalidated <;> simp
  unfold valid admits
  constructor
  · intro h
    cases hAsOf : req.asOf with
    | none =>
        rw [hAsOf] at h
        refine ⟨by simp [hAsOf], ?_⟩
        rcases Bool.or_eq_true_iff.mp h with hAll | hNone
        · exact .inl (hGetD.mp hAll)
        · exact .inr (by simp [Option.isNone_iff_eq_none.mp hNone])
    | some t =>
        simp only [hAsOf] at h
        by_cases hStart : t < m.tValid.getD m.createdAt
        · simp [hStart] at h
        · rw [if_neg hStart] at h
          refine ⟨?_, ?_⟩
          · intro t' hEq
            rw [hAsOf] at hEq
            exact Option.some.inj hEq ▸ not_lt.mp hStart
          · by_cases hAll :
                req.includeInvalidated.getD false = true
            · exact .inl (hGetD.mp hAll)
            · rw [if_neg hAll] at h
              refine .inr (fun tInvalid hInvalid => ?_)
              rw [hInvalid] at h
              exact ⟨t, hAsOf, of_decide_eq_true h⟩
  · rintro ⟨hStarted, hLasting⟩
    cases hAsOf : req.asOf with
    | none =>
        rcases hLasting with hAll | hNever
        · simp [hGetD.mpr hAll]
        · cases hInvalid : m.tInvalid with
          | none => simp
          | some tInvalid =>
              rcases hNever tInvalid hInvalid with ⟨t, hEq, _⟩
              rw [hAsOf] at hEq
              cases hEq
    | some t =>
        have hStart := not_lt.mpr (hStarted t hAsOf)
        simp only [if_neg hStart]
        rcases hLasting with hAll | hLater
        · rw [if_pos (hGetD.mpr hAll)]
        · split
          · rfl
          · cases hInvalid : m.tInvalid with
            | none => rfl
            | some tInvalid =>
                rcases hLater tInvalid hInvalid with
                  ⟨t', hEq, hLt⟩
                rw [hAsOf] at hEq
                exact decide_eq_true (Option.some.inj hEq ▸ hLt)

/- What is ranked are the valid rows of the candidates. -/
theorem order_eq
    (hRows : Table.KeyUnique MemoryRow.id db.memories) :
    order req found (rowsOf db found) =
      found.filterMap
        (fun r => (db.fetched r.1).filter (valid req)) := by
  unfold order
  apply List.filterMap_congr
  intro r hr
  have hMem : r.1 ∈ found.map Prod.fst :=
    List.mem_map_of_mem hr
  cases hFind :
      ((rowsOf db found).filter
        (fun m => admits req.asOf
          (req.includeInvalidated.getD false)
            m.toMemoryRow)).find?
        (fun m => m.id = r.1) with
  | some m =>
      have hIn := List.mem_of_find?_eq_some hFind
      rw [List.mem_filter] at hIn
      have hId : m.id = r.1 := by
        simpa using List.find?_some hFind
      have hFetched :=
        ((Sqlite.mem_getMemoriesByIds_iff hRows).mp hIn.1).2
      rw [hId] at hFetched
      rw [hFetched]
      have hValid : valid req m = true := hIn.2
      exact (Option.filter_some_pos hValid).symm
  | none =>
      cases hFetched : db.fetched r.1 with
      | none => rfl
      | some m =>
          have hId :=
            ((Sqlite.fetched_eq_some_iff hRows).mp
              hFetched).1
          have hIn : m ∈ rowsOf db found :=
            (Sqlite.mem_getMemoriesByIds_iff hRows).mpr
              ⟨hId ▸ hMem, hId ▸ hFetched⟩
          have hOut : valid req m = false := by
            by_contra hValid
            have hNone :=
              List.find?_eq_none.mp hFind m
                (List.mem_filter.mpr
                  ⟨hIn, eq_true_of_ne_false hValid⟩)
            exact hNone (by simpa using hId)
          exact (Option.filter_some_neg (by simp [hOut])).symm

theorem mem_order_iff
    {m : Memory}
    (hRows : Table.KeyUnique MemoryRow.id db.memories) :
    m ∈ order req found (rowsOf db found) ↔
      m ∈ rowsOf db found ∧ Valid req m := by
  rw [order_eq hRows, List.mem_filterMap, ← valid_iff, rowsOf,
    Sqlite.mem_getMemoriesByIds_iff hRows]
  constructor
  · rintro ⟨r, hr, hFilter⟩
    rcases Option.filter_eq_some_iff.mp hFilter with
      ⟨hFetched, hValid⟩
    have hId : m.id = r.1 :=
      ((Sqlite.fetched_eq_some_iff hRows).mp hFetched).1
    exact ⟨⟨hId ▸ List.mem_map_of_mem hr, hId ▸ hFetched⟩,
      hValid⟩
  · rintro ⟨⟨hIn, hFetched⟩, hValid⟩
    rcases List.mem_map.mp hIn with ⟨r, hr, hId⟩
    refine ⟨r, hr, ?_⟩
    rw [hId, hFetched]
    exact Option.filter_some_pos hValid

/- A row is ranked once, as its id is found once. -/
theorem nodup_order
    {rows : List Memory}
    (hDistinct : (found.map Prod.fst).Nodup) :
    ((order req found rows).map (fun m => m.id)).Nodup := by
  have hSublist :
      List.Sublist ((order req found rows).map (fun m => m.id))
        (found.map Prod.fst) := by
    unfold order
    clear hDistinct
    induction found with
    | nil => exact List.Sublist.refl _
    | cons r found ih =>
        rw [List.filterMap_cons]
        split
        · exact ih.cons _
        · rename_i m hFind
          have hId : m.id = r.1 := by
            simpa using List.find?_some hFind
          rw [List.map_cons, List.map_cons, hId]
          exact ih.cons_cons _
  exact hDistinct.sublist hSublist

end Order

------------------------------------------------------------
-- Ranked Rows
------------------------------------------------------------

section Ranked

variable [LT D] [DecidableLT D]
variable {scoring : Scoring F D} {req : RecallRequest}
variable {now : DateTime} {ordered : List Memory}
variable {reranked : List (RerankResult F)}

/- The label of a memory, as of a time. -/
def label
    (scoring : Scoring F D)
    (now : DateTime)
    (m : Memory) : FreshnessLabel :=
  freshnessLabel scoring (scoring.stalenessScore m now)
    (scoring.threshold m.memoryType)

/- The stale filter of a request. -/
def keeps
    (scoring : Scoring F D)
    (req : RecallRequest)
    (now : DateTime)
    (m : Memory) : Bool :=
  decide (req.includeStale = some false →
    label scoring now m ≠ .stale)

/- The relevance of a memory with a score of the reranker. -/
def relevance
    (scoring : Scoring F D)
    (now : DateTime)
    (m : Memory)
    (score : F) : F :=
  scoring.boosted score
    (scoring.recencyBoost m.memoryType
      (Int.tdiv (now - m.createdAt) 1000000000))

private theorem filterMap_range
    (ms : List Memory) :
    (List.range ms.length).filterMap (fun i => ms[i]?) =
      ms := by
  induction ms with
  | nil => rfl
  | cons m ms ih =>
      rw [List.length_cons, List.range_succ_eq_map,
        List.filterMap_cons_some (by rfl),
        List.filterMap_map]
      exact congrArg (m :: ·) ih

/- Every ranked row has one result. -/
theorem memory_scored_perm
    (scoring : Scoring F D)
    (req : RecallRequest)
    (now : DateTime)
    (hOnce :
      (reranked.map RerankResult.index).Perm
        (List.range ordered.length)) :
    ((scored scoring req now ordered reranked).map
      RecallResult.memory).Perm ordered := by
  have hMemories :
      (scored scoring req now ordered reranked).map
          RecallResult.memory =
        (reranked.map RerankResult.index).filterMap
          (fun i => ordered[i]?) := by
    unfold scored
    rw [List.map_filterMap, List.filterMap_map]
    apply List.filterMap_congr
    intro r _
    rw [Option.map_map]
    exact Option.map_id'
  rw [hMemories]
  refine (hOnce.filterMap _).trans ?_
  rw [filterMap_range]

theorem mem_scored_iff
    {r : RecallResult F D} :
    r ∈ scored scoring req now ordered reranked ↔
      ∃ x ∈ reranked, ∃ m, ordered[x.index]? = some m ∧
        r = result scoring req now m x.score := by
  unfold scored
  rw [List.mem_filterMap]
  constructor
  · rintro ⟨x, hx, hMap⟩
    rcases Option.map_eq_some_iff.mp hMap with ⟨m, hm, rfl⟩
    exact ⟨x, hx, m, hm, rfl⟩
  · rintro ⟨x, hx, m, hm, rfl⟩
    exact ⟨x, hx, by rw [hm]; rfl⟩

/- The stale filter looks at the label of the memory. -/
theorem retainFresh_scored :
    retainFresh req (scored scoring req now ordered reranked) =
      (scored scoring req now ordered reranked).filter
        (fun r => keeps scoring req now r.memory) := by
  unfold retainFresh
  split
  · rename_i hStale
    apply List.filter_congr
    intro r hr
    rcases mem_scored_iff.mp hr with ⟨x, _, m, _, rfl⟩
    rw [Bool.eq_iff_iff]
    simp only [keeps, hStale, result, label, forall_const]
    exact Iff.rfl
  · rename_i hStale
    rw [List.filter_eq_self.mpr]
    intro r _
    simp [keeps, hStale]

/- The rows that pass both filters, and the best of them. -/
def kept
    (scoring : Scoring F D)
    (req : RecallRequest)
    (now : DateTime)
    (ordered : List Memory)
    (reranked : List (RerankResult F)) :
    List (RecallResult F D) :=
  (scored scoring req now ordered reranked).filter
    (fun r => keeps scoring req now r.memory)

/- The final ranks touch nothing but themselves. -/
structure Ranks (r r' : RecallResult F D) : Prop where
  memory : r'.memory = r.memory
  relevance : r'.relevanceScore = r.relevanceScore

variable [LinearOrder F]

theorem rank_eq
    (scoring : Scoring F D)
    (req : RecallRequest)
    (now : DateTime)
    (ordered : List Memory)
    (reranked : List (RerankResult F)) :
    ∃ f : Nat → RecallResult F D → RecallResult F D,
      (∀ i r, Ranks r (f i r)) ∧
        rank scoring req now ordered reranked =
          (Best.best RecallResult.relevanceScore (limit req)
            (kept scoring req now ordered reranked)).mapIdx
              f := by
  have hKept :
      rank scoring req now ordered reranked =
        if req.explain then
          setFinalRanks
            (Best.best RecallResult.relevanceScore (limit req)
              (kept scoring req now ordered reranked))
        else
          Best.best RecallResult.relevanceScore (limit req)
            (kept scoring req now ordered reranked) := by
    unfold rank kept
    rw [retainFresh_scored]
    rfl
  rw [hKept]
  split
  · refine ⟨fun i r =>
      { r with
        scoring :=
          r.scoring.map
            (fun s => { s with finalRank := i + 1 }) }, ?_, rfl⟩
    intro _ _
    exact ⟨rfl, rfl⟩
  · refine ⟨fun _ r => r, fun _ _ => ⟨rfl, rfl⟩, ?_⟩
    refine List.ext_getElem (by rw [List.length_mapIdx]) ?_
    intro i _ _
    rw [List.getElem_mapIdx]

theorem length_rank :
    (rank scoring req now ordered reranked).length =
      min (limit req)
        (kept scoring req now ordered reranked).length := by
  rcases rank_eq scoring req now ordered reranked with
    ⟨f, _, hRank⟩
  rw [hRank, List.length_mapIdx, Best.length_best]

omit [LT D] [DecidableLT D] [LinearOrder F] in
private theorem map_mapIdx_of_ranks
    {β : Type} {g : RecallResult F D → β}
    {f : Nat → RecallResult F D → RecallResult F D}
    {results : List (RecallResult F D)}
    (hSame : ∀ i r, g (f i r) = g r) :
    (results.mapIdx f).map g = results.map g := by
  refine List.ext_getElem (by simp) ?_
  intro i _ _
  simp [hSame]

/- The ids of the results are those of the best ones. -/
theorem map_id_rank :
    (rank scoring req now ordered reranked).map
        (fun r => r.memory.id) =
      (Best.best RecallResult.relevanceScore (limit req)
        (kept scoring req now ordered reranked)).map
          (fun r => r.memory.id) := by
  rcases rank_eq scoring req now ordered reranked with
    ⟨f, hRanks, hRank⟩
  rw [hRank]
  exact map_mapIdx_of_ranks
    (fun i r => congrArg (fun m => m.id) (hRanks i r).memory)

/- The scores of the results are those of the best ones. -/
theorem map_relevance_rank :
    (rank scoring req now ordered reranked).map
        RecallResult.relevanceScore =
      (Best.best RecallResult.relevanceScore (limit req)
        (kept scoring req now ordered reranked)).map
          RecallResult.relevanceScore := by
  rcases rank_eq scoring req now ordered reranked with
    ⟨f, hRanks, hRank⟩
  rw [hRank]
  exact map_mapIdx_of_ranks (fun i r => (hRanks i r).relevance)

/- A result is one of the best, with its final rank. -/
theorem exists_best_of_mem_rank
    {r : RecallResult F D}
    (hr : r ∈ rank scoring req now ordered reranked) :
    ∃ r₀ ∈ Best.best RecallResult.relevanceScore (limit req)
        (kept scoring req now ordered reranked),
      Ranks r₀ r := by
  rcases rank_eq scoring req now ordered reranked with
    ⟨f, hRanks, hRank⟩
  rw [hRank] at hr
  rcases List.mem_mapIdx.mp hr with ⟨i, hi, rfl⟩
  exact ⟨_, List.getElem_mem hi, hRanks i _⟩

------------------------------------------------------------
-- The Results of a Recall
------------------------------------------------------------

/- The stale filter of a request, as a condition. -/
def Fresh
    (scoring : Scoring F D)
    (req : RecallRequest)
    (now : DateTime)
    (m : Memory) : Prop :=
  req.includeStale = some false → label scoring now m ≠ .stale

/- A fetched row that passes both filters. -/
def passing
    (scoring : Scoring F D)
    (req : RecallRequest)
    (now : DateTime)
    (m : Memory) : Bool :=
  valid req m && keeps scoring req now m

/-
  The results that a request gets from the rows fetched for
  its candidates, with the ranking of those in order.  There
  are as many as rows that pass, up to the limit.
-/
structure PostProcessed
    (scoring : Scoring F D)
    (req : RecallRequest)
    (now : DateTime)
    (rows ordered : List Memory)
    (reranked : List (RerankResult F))
    (results : List (RecallResult F D)) : Prop where
  limited : results.length ≤ limit req
  length :
    results.length =
      min (limit req) (rows.countP (passing scoring req now))
  distinct : (results.map (fun r => r.memory.id)).Nodup
  descending :
    results.Pairwise
      (fun a b => b.relevanceScore ≤ a.relevanceScore)
  row : ∀ r ∈ results, r.memory ∈ rows
  valid : ∀ r ∈ results, Valid req r.memory
  fresh : ∀ r ∈ results, Fresh scoring req now r.memory
  scored :
    ∀ r ∈ results, ∃ x ∈ reranked,
      ordered[x.index]? = some r.memory ∧
        r.relevanceScore =
          relevance scoring now r.memory x.score
  best :
    ∀ m ∈ rows, Valid req m → Fresh scoring req now m →
      m.id ∉ results.map (fun r => r.memory.id) →
        ∃ x ∈ reranked, ordered[x.index]? = some m ∧
          ∀ r ∈ results,
            relevance scoring now m x.score ≤ r.relevanceScore

omit [LinearOrder F] in
theorem mem_kept_iff
    {r : RecallResult F D} :
    r ∈ kept scoring req now ordered reranked ↔
      r ∈ scored scoring req now ordered reranked ∧
        Fresh scoring req now r.memory := by
  rw [kept, List.mem_filter, keeps, decide_eq_true_iff]
  exact Iff.rfl

/- A result is fresh, and scored for its own document. -/
theorem scored_of_mem_rank
    {r : RecallResult F D}
    (hr : r ∈ rank scoring req now ordered reranked) :
    Fresh scoring req now r.memory ∧
      ∃ x ∈ reranked, ordered[x.index]? = some r.memory ∧
        r.relevanceScore =
          relevance scoring now r.memory x.score := by
  rcases exists_best_of_mem_rank hr with ⟨r₀, hr₀, hSame⟩
  rcases mem_kept_iff.mp (Best.mem_of_mem_best hr₀) with
    ⟨hIn, hFresh⟩
  rcases mem_scored_iff.mp hIn with ⟨x, hx, m, hm, rfl⟩
  have hMemory : r.memory = m := hSame.memory
  exact ⟨hMemory ▸ hFresh, x, hx, hMemory ▸ hm,
    hMemory ▸ hSame.relevance⟩

omit [LinearOrder F] in
/- Each ranked row that is not stale is kept once. -/
theorem length_kept_ordered
    (hOnce :
      (reranked.map RerankResult.index).Perm
        (List.range ordered.length)) :
    (kept scoring req now ordered reranked).length =
      ordered.countP (keeps scoring req now) := by
  have hPerm := memory_scored_perm scoring req now hOnce
  rw [← hPerm.countP_eq, List.countP_map, kept,
    ← List.countP_eq_length_filter]
  rfl

omit [LinearOrder F] in
/- Those that are kept are the rows that pass. -/
theorem length_kept_rows
    {rows : List Memory}
    (hRows : rows.Nodup)
    (hMem : ∀ m, m ∈ ordered ↔ m ∈ rows ∧ Valid req m)
    (hDistinct : (ordered.map (fun m => m.id)).Nodup)
    (hOnce :
      (reranked.map RerankResult.index).Perm
        (List.range ordered.length)) :
    (kept scoring req now ordered reranked).length =
      rows.countP (passing scoring req now) := by
  have hOrdered : ordered.Perm (rows.filter (valid req)) := by
    refine (List.perm_ext_iff_of_nodup hDistinct.of_map
      (hRows.filter _)).mpr ?_
    intro m
    rw [hMem, List.mem_filter, valid_iff]
  rw [length_kept_ordered hOnce, hOrdered.countP_eq,
    List.countP_filter]
  apply List.countP_congr
  intro m _
  rw [passing, Bool.and_comm]

/- Ranking a list of valid rows gives such results. -/
theorem rank_postProcessed
    {rows : List Memory}
    (hRows : rows.Nodup)
    (hMem : ∀ m, m ∈ ordered ↔ m ∈ rows ∧ Valid req m)
    (hDistinct : (ordered.map (fun m => m.id)).Nodup)
    (hOnce :
      (reranked.map RerankResult.index).Perm
        (List.range ordered.length)) :
    PostProcessed scoring req now rows ordered reranked
      (rank scoring req now ordered reranked) := by
  have hRow :
      ∀ r ∈ rank scoring req now ordered reranked,
        r.memory ∈ rows ∧ Valid req r.memory := by
    intro r hr
    rcases scored_of_mem_rank hr with ⟨_, x, _, hm, _⟩
    exact (hMem r.memory).mp (List.mem_of_getElem? hm)
  have hPerm := memory_scored_perm scoring req now hOnce
  refine
    { limited := ?_
      length := ?_
      distinct := ?_
      descending := ?_
      row := fun r hr => (hRow r hr).1
      valid := fun r hr => (hRow r hr).2
      fresh := fun r hr => (scored_of_mem_rank hr).1
      scored := fun r hr => (scored_of_mem_rank hr).2
      best := ?_ }
  · rw [length_rank]
    exact Nat.min_le_left _ _
  · rw [length_rank,
      length_kept_rows hRows hMem hDistinct hOnce]
  · rw [map_id_rank]
    apply Best.nodup_map_best
    have hAll :
        ((scored scoring req now ordered reranked).map
          (fun r => r.memory.id)).Nodup := by
      have hMapped := (hPerm.map (fun m => m.id)).nodup_iff.mpr
        hDistinct
      rwa [List.map_map] at hMapped
    exact hAll.sublist (List.filter_sublist.map _)
  · have hBest :
        (Best.best RecallResult.relevanceScore (limit req)
          (kept scoring req now ordered reranked)).Pairwise
            (fun a b => b.relevanceScore ≤ a.relevanceScore) :=
      Best.pairwise_best
    rw [← List.pairwise_map (f := RecallResult.relevanceScore)
      (R := fun a b => b ≤ a)] at hBest ⊢
    rw [map_relevance_rank]
    exact hBest
  · intro m hm hValid hFresh hOut
    -- The row has a result of its own among those kept.
    have hIn : m ∈ ordered := (hMem m).mpr ⟨hm, hValid⟩
    rcases List.mem_map.mp (hPerm.mem_iff.mpr hIn) with
      ⟨r₀, hr₀, rfl⟩
    rcases mem_scored_iff.mp hr₀ with ⟨x, hx, m, hx', rfl⟩
    have hKept := mem_kept_iff.mpr ⟨hr₀, hFresh⟩
    refine ⟨x, hx, hx', ?_⟩
    intro r hr
    rcases exists_best_of_mem_rank hr with ⟨r₁, hr₁, hSame⟩
    rw [hSame.relevance]
    refine Best.le_of_not_mem_best hKept ?_ hr₁
    intro hBest
    refine hOut ?_
    rw [map_id_rank]
    exact List.mem_map_of_mem hBest

------------------------------------------------------------
-- Recalls
------------------------------------------------------------

section Recalls

variable {Vec : Type} {search : Search Vec F}
variable {db : Sqlite} {qdrant : Qdrant Vec}
variable {ns : String} {embedding : Vec}
variable {found : List (String × F)}

private theorem rank_nil :
    rank scoring req now [] reranked = [] := by
  have hNone : scored scoring req now [] reranked = [] := by
    unfold scored
    rw [List.filterMap_eq_nil_iff]
    intro r _
    rfl
  apply List.eq_nil_of_length_eq_zero
  rw [length_rank, kept, hNone]
  exact Nat.min_zero _

/- A row with an id, and the time when it was invalidated. -/
private def rowUntil
    (id : String)
    (tInvalid : Option DateTime) : MemoryRow where
  id := id
  «namespace» := "main"
  memoryType := .episodic
  content := some "tea"
  subject := none
  predicate := none
  object := none
  confidence := 1
  source := none
  context := none
  createdAt := 0
  updatedAt := 0
  tValid := none
  tInvalid := tInvalid
  lastAccessed := 0
  lastValidated := none
  accessCount := 0
  normalizedPredicate := none

private def holding (rows : List MemoryRow) : Sqlite where
  memories := rows
  entities := []
  entityAliases := []
  memoryEntities := []
  pendingOps := []
  completedOps := []

private def inOrder (n : Nat) : List (RerankResult Nat) :=
  (List.range n).map (fun i => ⟨i, n - i⟩)

/- A fixed ranking of the points, which the reranker keeps. -/
private def rankedSearch
    (ranking : List (String × Nat)) : Search Unit Nat where
  search _ _ _ _ k _ := .ok (ranking.take k)
  rerank _ docs _ := .ok (inOrder docs.length)

private def agelessScoring : Scoring Nat Nat where
  zero := 0
  recencyBoost _ _ := 1
  boosted score recency := score * recency
  stalenessScore _ _ := 0
  threshold _ := 1
  freshRatio threshold := threshold

private def askingFor (limit : Nat) : RecallRequest where
  query := "tea"
  types := none
  entities := none
  «namespace» := none
  limit := some limit
  includeStale := none
  includeInvalidated := none
  timeRange := none
  asOf := none
  validateIds := none
  explain := true

/- Recall ranks the rows in order, also if there are none. -/
theorem uncached_eq_rank
    (hSearch :
      search.search qdrant ns embedding req.query
        (candidatePoolSize req) (buildQdrantFilter req) =
          .ok found)
    (hRerank :
      order req found (rowsOf db found) ≠ [] →
        search.rerank req.query
          ((order req found (rowsOf db found)).map
            searchableText)
          (order req found (rowsOf db found)).length =
            .ok reranked) :
    uncached search scoring db qdrant now ns embedding req =
      .ok (rank scoring req now
        (order req found (rowsOf db found)) reranked) := by
  unfold uncached
  rw [hSearch]
  dsimp only
  by_cases hFound : found.isEmpty
  · rw [if_pos hFound, List.isEmpty_iff.mp hFound]
    exact congrArg Except.ok rank_nil.symm
  · rw [if_neg hFound]
    by_cases hOrder :
        order req found (rowsOf db found) = []
    · have hEmpty :
          (order req found
            (db.getMemoriesByIds
              (found.map Prod.fst))).isEmpty :=
        List.isEmpty_iff.mpr hOrder
      rw [if_pos hEmpty, hOrder]
      exact congrArg Except.ok rank_nil.symm
    · have hSome :
          ¬ (order req found
            (db.getMemoriesByIds
              (found.map Prod.fst))).isEmpty :=
        fun h => hOrder (List.isEmpty_iff.mp h)
      rw [if_neg hSome]
      have hCall := hRerank hOrder
      unfold rowsOf at hCall
      rw [hCall]
      rfl

/-
  Recall returns the best of the valid and fresh rows that
  were fetched for its candidates.
-/
theorem recall_postprocessed
    (hSearch :
      search.search qdrant ns embedding req.query
        (candidatePoolSize req) (buildQdrantFilter req) =
          .ok found)
    (hDistinct : (found.map Prod.fst).Nodup)
    (hRows : Table.KeyUnique MemoryRow.id db.memories)
    (hRerank :
      order req found (rowsOf db found) ≠ [] →
        search.rerank req.query
          ((order req found (rowsOf db found)).map
            searchableText)
          (order req found (rowsOf db found)).length =
            .ok reranked)
    (hOnce :
      (reranked.map RerankResult.index).Perm
        (List.range
          (order req found (rowsOf db found)).length)) :
    ∃ results,
      uncached search scoring db qdrant now ns embedding req =
        .ok results ∧
      PostProcessed scoring req now (rowsOf db found)
        (order req found (rowsOf db found)) reranked
          results := by
  refine ⟨_, uncached_eq_rank hSearch hRerank, ?_⟩
  exact rank_postProcessed
    (Sqlite.nodup_getMemoriesByIds hRows hDistinct)
    (fun _ => mem_order_iff hRows) (nodup_order hDistinct)
      hOnce

/- Five candidates: one is invalidated, one has no row. -/
private def fiveFound : List (String × Nat) :=
  [("gone", 5), ("old", 4), ("a", 3), ("b", 2), ("c", 1)]

private def fourRows : Sqlite :=
  holding
    [rowUntil "c" none, rowUntil "b" none, rowUntil "a" none,
      rowUntil "old" (some 5)]

/- Of the three rows that pass, the best two are returned. -/
theorem recall_postprocessed_five_candidates :
    ∃ results,
      uncached (rankedSearch fiveFound) agelessScoring fourRows
          ⟨fun _ => []⟩ 7 "main" () (askingFor 2) =
        .ok results ∧
      PostProcessed agelessScoring (askingFor 2) 7
        (rowsOf fourRows fiveFound)
        (order (askingFor 2) fiveFound
          (rowsOf fourRows fiveFound))
        (inOrder 3) results ∧
      results.map (fun r => r.memory.id) = ["a", "b"] ∧
      (rowsOf fourRows fiveFound).countP
        (passing agelessScoring (askingFor 2) 7) = 3 := by
  have hIds :
      (uncached (rankedSearch fiveFound) agelessScoring
        fourRows ⟨fun _ => []⟩ 7 "main" ()
          (askingFor 2)).toOption.map
            (fun results =>
              results.map (fun r => r.memory.id)) =
        some ["a", "b"] := by decide +kernel
  have hPost :
      ∃ results,
        uncached (rankedSearch fiveFound) agelessScoring
            fourRows ⟨fun _ => []⟩ 7 "main" () (askingFor 2) =
          .ok results ∧
        PostProcessed agelessScoring (askingFor 2) 7
          (rowsOf fourRows fiveFound)
          (order (askingFor 2) fiveFound
            (rowsOf fourRows fiveFound))
          (inOrder 3) results :=
    recall_postprocessed rfl
      (by decide +kernel : (fiveFound.map Prod.fst).Nodup)
      (by decide +kernel :
        (fourRows.memories.map MemoryRow.id).Nodup)
      (fun _ =>
        congrArg (fun n => Except.ok (inOrder n))
          (by decide +kernel :
            ((order (askingFor 2) fiveFound
              (rowsOf fourRows fiveFound)).map
                searchableText).length = 3))
      (by decide +kernel :
        ((inOrder 3).map RerankResult.index).Perm
          (List.range (order (askingFor 2) fiveFound
            (rowsOf fourRows fiveFound)).length))
  rcases hPost with ⟨results, hOk, hProcessed⟩
  refine ⟨results, hOk, hProcessed, ?_, by decide +kernel⟩
  rw [hOk] at hIds
  exact Option.some.inj hIds

------------------------------------------------------------
-- Number of Results
------------------------------------------------------------

/- A candidate whose row passes both filters. -/
def passes
    (scoring : Scoring F D)
    (req : RecallRequest)
    (now : DateTime)
    (db : Sqlite)
    (candidate : String × F) : Bool :=
  (db.fetched candidate.1).any
    (passing scoring req now)

omit [LinearOrder F] in
theorem length_kept
    (hRows : Table.KeyUnique MemoryRow.id db.memories)
    (hOnce :
      (reranked.map RerankResult.index).Perm
        (List.range
          (order req found (rowsOf db found)).length)) :
    (kept scoring req now
      (order req found (rowsOf db found)) reranked).length =
        found.countP (passes scoring req now db) := by
  rw [length_kept_ordered hOnce, order_eq hRows,
    List.countP_filterMap]
  apply List.countP_congr
  intro r _
  unfold passes
  cases db.fetched r.1 with
  | none => simp
  | some m =>
      rw [Option.filter_some]
      cases hValid : valid req m <;> simp [passing, hValid]

/-
  With enough rows that pass, recall returns as many as the
  limit exactly if the filters drop few enough of the first
  ones, those that the search is asked for.
-/
theorem recall_fills_limit_iff
    {ranking : List (String × F)}
    (hSearch :
      ∀ k, search.search qdrant ns embedding req.query k
        (buildQdrantFilter req) = .ok (ranking.take k))
    (hRows : Table.KeyUnique MemoryRow.id db.memories)
    (hRerank :
      ∀ docs : List String, ∃ reranked,
        search.rerank req.query docs docs.length =
          .ok reranked ∧
        (reranked.map RerankResult.index).Perm
          (List.range docs.length))
    (hEnough :
      limit req ≤
        ranking.countP (passes scoring req now db)) :
    ∃ results,
      uncached search scoring db qdrant now ns embedding req =
        .ok results ∧
      (results.length = limit req ↔
        ranking.length ≤ candidatePoolSize req ∨
          (ranking.take (candidatePoolSize req)).countP
              (fun r => ¬ passes scoring req now db r) ≤
            candidatePoolSize req - limit req) := by
  rcases hRerank
    ((order req (ranking.take (candidatePoolSize req))
      (rowsOf db
        (ranking.take (candidatePoolSize req)))).map
          searchableText) with ⟨reranked, hCall, hOnce⟩
  rw [List.length_map] at hCall hOnce
  refine ⟨_,
    uncached_eq_rank (hSearch _) (fun _ => hCall), ?_⟩
  rw [length_rank, length_kept hRows hOnce]
  have hPool : limit req ≤ candidatePoolSize req := by
    unfold candidatePoolSize
    dsimp only
    split <;> omega
  have hSplit :=
    List.length_eq_countP_add_countP
      (passes scoring req now db)
      (l := ranking.take (candidatePoolSize req))
  rw [List.length_take] at hSplit
  by_cases hAll : ranking.length ≤ candidatePoolSize req
  · rw [List.take_of_length_le hAll]
    exact ⟨fun _ => .inl hAll, fun _ => by omega⟩
  · constructor
    · intro hFull
      refine .inr ?_
      omega
    · intro hFew
      have hDropped := hFew.resolve_left hAll
      omega

/- Twenty invalidated notes that rank above a valid one. -/
private def outranked : List (String × Nat) :=
  (List.range 21).map (fun i => (String.ofList
    (List.replicate i 'x'), 21 - i))

private def outrankedRows : Sqlite :=
  holding
    (outranked.map
      (fun r =>
        rowUntil r.1 (if r.2 = 1 then none else some 5)))

/-
  A search for one valid note returns none: the filter on
  the rows drops all those that it asked for.
-/
theorem recall_underfills_limit :
    (∀ k, (rankedSearch outranked).search ⟨fun _ => []⟩ "main"
        () "tea" k (buildQdrantFilter (askingFor 1)) =
          .ok (outranked.take k)) ∧
      limit (askingFor 1) = 1 ∧
      1 ≤ outranked.countP
        (passes agelessScoring (askingFor 1) 7
          outrankedRows) ∧
      (uncached (rankedSearch outranked) agelessScoring
          outrankedRows ⟨fun _ => []⟩ 7 "main" ()
            (askingFor 1)).toOption = some [] := by
  refine ⟨fun _ => rfl, rfl, ?_, ?_⟩
  · decide +kernel
  · decide +kernel

/- Two rows are enough for two results. -/
private def threeRanked : List (String × Nat) :=
  [("a", 3), ("b", 2), ("c", 1)]

private def threeRows : Sqlite :=
  holding
    [rowUntil "a" none, rowUntil "b" (some 5), rowUntil "c" none]

theorem recall_fills_limit_two_rows :
    ∃ results,
      uncached (rankedSearch threeRanked) agelessScoring
          threeRows ⟨fun _ => []⟩ 7 "main" () (askingFor 2) =
        .ok results ∧
      (results.length = limit (askingFor 2) ↔
        threeRanked.length ≤ candidatePoolSize (askingFor 2) ∨
          (threeRanked.take
            (candidatePoolSize (askingFor 2))).countP
              (fun r => ¬ passes agelessScoring (askingFor 2) 7
                threeRows r) ≤
            candidatePoolSize (askingFor 2) -
              limit (askingFor 2)) := by
  refine recall_fills_limit_iff (fun _ => rfl)
    (by decide +kernel :
      (threeRows.memories.map MemoryRow.id).Nodup)
    (fun docs => ⟨_, rfl, ?_⟩)
      (by decide +kernel)
  rw [inOrder, List.map_map]
  exact List.Perm.of_eq (List.map_id' _)

end Recalls

end Ranked

end Recall

end Core

end Ferrex
