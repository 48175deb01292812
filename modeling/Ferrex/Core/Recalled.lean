import Mathlib.Data.List.Dedup
import Ferrex.Core.EntityFilter
import Ferrex.Core.Labels
import Ferrex.Core.Ranking
import Ferrex.Core.RecallKey

/-
  What a recall answers with, in all lives: memories that
  clients stored in its namespace, of the types it asks for
  and valid as it asks, whether the answer is computed or
  comes out of the cache.

  Main declarations:
    * `Search.Keeps`
    * `Recalled`
    * `RecallStage.About`, `Answering`
    * `recall_answers`
-/

------------------------------------------------------------
-- Searches
------------------------------------------------------------

namespace Ferrex

namespace Core

open Store

variable {Vec F D : Type}

/-
  A search finds points of its collection, each once, that
  meet the keyword conditions of the filter, and a reranker
  ranks each document once.
-/
structure Search.Keeps (search : Search Vec F) : Prop where
  found :
    ∀ qdrant ns embedding query limit filter found,
      search.search qdrant ns embedding query limit filter =
          .ok found →
        ∀ x ∈ found, ∃ p ∈ qdrant.points ns, p.id = x.1 ∧
          ∀ field values,
            Condition.matches field values ∈ filter.must →
              (Condition.matches field values).admitsKeywords
                p.payload = true
  distinct :
    ∀ qdrant ns embedding query limit filter found,
      search.search qdrant ns embedding query limit filter =
          .ok found →
        (found.map Prod.fst).Nodup
  ranked :
    ∀ query documents reranked,
      search.rerank query documents documents.length =
          .ok reranked →
        (reranked.map RerankResult.index).Perm
          (List.range documents.length)

/- A label that a request asks for. -/
structure Backend.Asks
    (backend : Backend Vec F D)
    (req : RecallRequest)
    (label : MemoryLabel) : Prop where
  «namespace» : label.namespace = backend.recallNamespace req
  type :
    ∀ types, req.types = some types →
      label.memoryType ∈ types

/- The filter lets memories of the types through alone. -/
theorem label_of_filter
    {req : RecallRequest} {payload : Payload}
    (hFilter :
      ∀ field values,
        Condition.matches field values ∈
            (buildQdrantFilter req).must →
          (Condition.matches field values).admitsKeywords
            payload = true) :
    ∃ label, payload.label = some label ∧
      ∀ types, req.types = some types →
        label.memoryType ∈ types := by
  cases payload with
  | entity id name ns =>
      have hType :=
        hFilter "point_type" ["memory"]
          (by simp [buildQdrantFilter])
      simp [Condition.admitsKeywords, keywords] at hType
  | memory id memoryType ns text entities createdAt =>
      refine ⟨⟨ns, memoryType⟩, rfl, ?_⟩
      intro types hTypes
      have hType :=
        hFilter "memory_type" (types.map MemoryType.asStr)
          (by simp [buildQdrantFilter, hTypes])
      simp only [Condition.admitsKeywords, keywords,
        List.any_eq_true, List.mem_map, List.mem_singleton,
        decide_eq_true_eq] at hType
      rcases hType with ⟨_, ⟨type, hMem, rfl⟩, hSame⟩
      rw [← MemoryType.asStr_injective hSame]
      exact hMem

------------------------------------------------------------
-- Requests with One Key
------------------------------------------------------------

/- A time that 64 bits of nanoseconds can hold, if any. -/
def RecallRequest.InRange (req : RecallRequest) : Prop :=
  ∀ t, req.asOf = some t → -2 ^ 63 ≤ t ∧ t < 2 ^ 63

instance (req : RecallRequest) : Decidable req.InRange := by
  unfold RecallRequest.InRange
  cases req.asOf with
  | none => exact isTrue (by simp)
  | some t =>
      exact decidable_of_iff (-2 ^ 63 ≤ t ∧ t < 2 ^ 63)
        (by simp)

theorem RecallRequest.InRange.asOf_eq
    {req req' : RecallRequest}
    (hRange : req.InRange)
    (hRange' : req'.InRange)
    (hSame :
      req.asOf.bind timestampNanosOpt =
        req'.asOf.bind timestampNanosOpt) :
    req.asOf = req'.asOf := by
  have hBind :
      ∀ {req : RecallRequest}, req.InRange →
        req.asOf.bind timestampNanosOpt = req.asOf := by
    intro req hRange
    cases hAsOf : req.asOf with
    | none => rfl
    | some t => exact if_pos (hRange t hAsOf)
  rw [hBind hRange, hBind hRange'] at hSame
  exact hSame

------------------------------------------------------------
-- Answers
------------------------------------------------------------

/- A memory that a request can be answered with. -/
structure Backend.Finds
    (backend : Backend Vec F D)
    (first : List MemoryRow)
    (s : System Vec F)
    (req : RecallRequest)
    (m : Memory) : Prop where
  asked : backend.Asks req m.label
  valid : Recall.Valid req m
  origin :
    Origin backend.env backend.service first s m.toMemoryRow

variable [LinearOrder F]
variable {backend : Backend Vec F D}
variable {first : List MemoryRow} {s t : System Vec F}
variable {req req' : RecallRequest}

theorem RowsStep.clock_le
    {env : Env Vec F} {service : MemoryService F}
    (hStep : RowsStep env service s t) :
    s.world.clock ≤ t.world.clock := by
  cases hStep with
  | event hNext => exact System.clock_le hNext
  | _ => exact le_rfl

theorem Backend.Finds.later
    {m : Memory}
    (h : backend.Finds first s req m)
    (hStep : RowsStep backend.env backend.service s t) :
    backend.Finds first t req m :=
  ⟨h.asked, h.valid, hStep.origin h.origin⟩

variable [LT D] [DecidableLT D]

/-
  The best ones first, each once, not more than asked for,
  and none that was stale when they were ranked.
-/
structure Recalled
    (backend : Backend Vec F D)
    (first : List MemoryRow)
    (s : System Vec F)
    (req : RecallRequest)
    (results : List (RecallResult F D)) : Prop where
  limited : results.length ≤ Recall.limit req
  distinct : (results.map (fun r => r.memory.id)).Nodup
  descending :
    results.Pairwise
      (fun a b => b.relevanceScore ≤ a.relevanceScore)
  fresh :
    ∃ now ≤ s.world.clock, ∀ r ∈ results,
      Recall.Fresh backend.scoring req now r.memory
  found : ∀ r ∈ results, backend.Finds first s req r.memory

variable {results : List (RecallResult F D)}

theorem Recalled.later
    (h : Recalled backend first s req results)
    (hStep : RowsStep backend.env backend.service s t) :
    Recalled backend first t req results where
  limited := h.limited
  distinct := h.distinct
  descending := h.descending
  fresh := by
    rcases h.fresh with ⟨now, hNow, hFresh⟩
    exact ⟨now, hNow.trans hStep.clock_le, hFresh⟩
  found r hr := (h.found r hr).later hStep

theorem Recalled.nil
    (backend : Backend Vec F D)
    (first : List MemoryRow)
    (s : System Vec F)
    (req : RecallRequest) :
    Recalled backend first s req [] where
  limited := Nat.zero_le _
  distinct := List.nodup_nil
  descending := List.Pairwise.nil
  fresh := ⟨s.world.clock, le_rfl, by simp⟩
  found := by simp

/- Ranking rows that a request asks for gives an answer. -/
theorem Recalled.of_rank
    {ordered : List Memory} {reranked : List (RerankResult F)}
    (hDistinct : (ordered.map (fun m => m.id)).Nodup)
    (hFinds : ∀ m ∈ ordered, backend.Finds first s req m)
    (hOnce :
      (reranked.map RerankResult.index).Perm
        (List.range ordered.length)) :
    Recalled backend first s req
      (Recall.rank backend.scoring req s.world.clock ordered
        reranked) := by
  have hProcessed :
      Recall.PostProcessed backend.scoring req s.world.clock
        ordered ordered reranked
        (Recall.rank backend.scoring req s.world.clock ordered
          reranked) :=
    Recall.rank_postProcessed hDistinct.of_map
      (fun m => ⟨fun hm => ⟨hm, (hFinds m hm).valid⟩,
        And.left⟩) hDistinct hOnce
  exact
    { limited := hProcessed.limited
      distinct := hProcessed.distinct
      descending := hProcessed.descending
      fresh := ⟨s.world.clock, le_rfl, hProcessed.fresh⟩
      found := fun r hr =>
        hFinds r.memory (hProcessed.row r hr) }

/- Two requests with one key have their answers in common. -/
theorem Recalled.shared
    {ns ns' : String} {embedding embedding' : Vec}
    (h : Recalled backend first s req results)
    (hNs : ns = backend.recallNamespace req)
    (hNs' : ns' = backend.recallNamespace req')
    (hRange : req.InRange)
    (hRange' : req'.InRange)
    (hKey :
      cacheKey ns embedding req =
        cacheKey ns' embedding' req') :
    Recalled backend first s req' results := by
  obtain rfl : ns = ns' :=
    congrArg ResultCacheKeyInput.namespace hKey
  have hFields := (cacheKey_eq_iff.mp hKey).2
  have hAsOf := hRange.asOf_eq hRange' hFields.asOf
  refine ⟨hFields.limit ▸ h.limited, h.distinct,
    h.descending, ?_, ?_⟩
  · rcases h.fresh with ⟨now, hNow, hFresh⟩
    refine ⟨now, hNow, ?_⟩
    intro r hr hStale
    exact hFresh r hr (hFields.includeStale.trans hStale)
  · intro r hr
    have hFound := h.found r hr
    refine ⟨⟨?_, ?_⟩, ⟨?_, ?_⟩, hFound.origin⟩
    · rw [hFound.asked.namespace, ← hNs, hNs']
    · rw [← hFields.types]
      exact hFound.asked.type
    · rw [← hAsOf]
      exact hFound.valid.started
    · rw [← hAsOf, ← hFields.includeInvalidated]
      exact hFound.valid.lasting

------------------------------------------------------------
-- Stages
------------------------------------------------------------

omit [LinearOrder F] [LT D] [DecidableLT D] in
/- A question that has been derived of a request. -/
structure Query.Of
    (backend : Backend Vec F D)
    (req : RecallRequest)
    (q : Query Vec) : Prop where
  request : q.req = req
  «namespace» : q.namespace = backend.recallNamespace req

/-
  A stage of the recall for a request: what was found is
  promised to be asked for, the rows are found, and the
  results are an answer.
-/
def RecallStage.About
    (backend : Backend Vec F D)
    (first : List MemoryRow)
    (s : System Vec F)
    (req : RecallRequest) : RecallStage Vec F D → Prop
| .embed req' => req' = req
| .generation req' _ => req' = req
| .lookup q => q.Of backend req
| .entry q _ => q.Of backend req
| .search q => q.Of backend req
| .rows q found =>
    q.Of backend req ∧ (found.map Prod.fst).Nodup ∧
      ∀ x ∈ found, ∃ label, backend.Asks req label ∧
        Promised backend.env s x.1 label
| .rerank q ordered =>
    q.Of backend req ∧
      (ordered.map (fun m => m.id)).Nodup ∧
        ∀ m ∈ ordered, backend.Finds first s req m
| .flush q results _ =>
    q.Of backend req ∧ Recalled backend first s req results
| .put q results =>
    q.Of backend req ∧ Recalled backend first s req results
| .validate req' results =>
    req' = req ∧ Recalled backend first s req results
| .stamp results _ _ => Recalled backend first s req results
| .done (.ok results) => Recalled backend first s req results
| .done (.error _) => True

theorem RecallStage.About.later
    {stage : RecallStage Vec F D}
    (h : stage.About backend first s req)
    (hStep : RowsStep backend.env backend.service s t)
    (hOrdered : Ordered backend.env s) :
    stage.About backend first t req := by
  cases stage with
  | rows q found =>
      refine ⟨h.1, h.2.1, ?_⟩
      intro x hx
      rcases h.2.2 x hx with ⟨label, hAsks, hPromised⟩
      exact ⟨label, hAsks,
        hStep.promised hOrdered hPromised⟩
  | rerank q ordered =>
      exact ⟨h.1, h.2.1,
        fun m hm => (h.2.2 m hm).later hStep⟩
  | flush q results ids => exact ⟨h.1, h.2.later hStep⟩
  | put q results => exact ⟨h.1, h.2.later hStep⟩
  | validate req' results => exact ⟨h.1, h.2.later hStep⟩
  | stamp results ids now => exact Recalled.later h hStep
  | done result =>
      cases result with
      | ok results => exact Recalled.later h hStep
      | error err => trivial
  | _ => exact h

/- A failure leaves no answer, or the one that there was. -/
theorem RecallStage.About.fail
    {stage stage' : RecallStage Vec F D} {err : CoreError F}
    (h : stage.About backend first s req)
    (hFail : stage.fail err = some stage') :
    stage'.About backend first s req := by
  cases stage with
  | flush q results ids =>
      cases hFail
      exact h
  | embed | search | rows | rerank | stamp =>
      cases hFail
      trivial
  | _ => cases hFail

------------------------------------------------------------
-- Steps of a Recall
------------------------------------------------------------

namespace Cached

variable [DecidableEq Vec]
variable {s t : Cached Vec F D}

/- Results that answer some request with the key. -/
def Holds
    (backend : Backend Vec F D)
    (first : List MemoryRow)
    (s : System Vec F)
    (key : ResultCacheKeyInput Vec)
    (results : List (RecallResult F D)) : Prop :=
  ∃ req embedding, req.InRange ∧
    key = cacheKey (backend.recallNamespace req) embedding req ∧
      Recalled backend first s req results

/-
  The stores are in order, the cache has answers, and every
  recall is on its way to one.
-/
structure Answering
    (backend : Backend Vec F D)
    (first : List MemoryRow)
    (s : Cached Vec F D) : Prop where
  filed : Filed backend.env backend.service first s.sys
  entries :
    ∀ key e, s.cache.results.peek key = some e →
      Holds backend first s.sys key e.results.results
  recalls :
    ∀ j call, s.recalls j = some call →
      ∃ req, req.InRange ∧
        call.stage.About backend first s.sys req

/- What the cache has for a question answers its request. -/
theorem Answering.hit
    {q : Query Vec} {currentGen : Nat} {answer : Answer F D}
    (h : Answering backend first s)
    (hRange : req.InRange)
    (hOf : q.Of backend req)
    (hGet :
      s.cache.getResults q.key currentGen = some answer) :
    Recalled backend first s.sys req answer.results := by
  unfold RecallCache.getResults at hGet
  split at hGet
  · rename_i e hPeek
    split at hGet
    · cases hGet
      rcases h.entries _ e hPeek with
        ⟨req', embedding, hRange', hKey, hRecalled⟩
      have hSame :
          cacheKey (backend.recallNamespace req') embedding
              req' =
            cacheKey q.namespace q.embedding req := by
        rw [← hKey, Query.key, hOf.request]
      exact hRecalled.shared rfl hOf.namespace hRange' hRange
        hSame
    · cases hGet
  · cases hGet

/- What a search finds is promised to be asked for. -/
theorem Answering.found
    {q : Query Vec} {limit : Nat}
    {found : List (String × F)}
    (h : Answering backend first s)
    (hSearch : backend.search.Keeps)
    (hOf : q.Of backend req)
    (hFound :
      backend.search.search s.sys.world.qdrant q.namespace
          q.embedding q.req.query limit
          (buildQdrantFilter q.req) = .ok found) :
    ∀ x ∈ found, ∃ label, backend.Asks req label ∧
      Promised backend.env s.sys x.1 label := by
  intro x hx
  rcases hSearch.found _ _ _ _ _ _ _ hFound x hx with
    ⟨p, hp, hId, hFilter⟩
  rcases label_of_filter hFilter with ⟨label, hLabel, hTypes⟩
  rcases h.filed.labelled q.namespace p hp label hLabel with
    ⟨hNs, hPromised⟩
  rw [hOf.request] at hTypes
  exact ⟨label, ⟨hNs.trans hOf.namespace, hTypes⟩,
    hId ▸ hPromised⟩

/- The rows that are ranked are asked for, and valid. -/
theorem Answering.ordered
    {found : List (String × F)}
    (h : Answering backend first s)
    (hFound :
      ∀ x ∈ found, ∃ label, backend.Asks req label ∧
        Promised backend.env s.sys x.1 label) :
    ∀ m ∈ Recall.order req found
        (Recall.rowsOf s.sys.world.db found),
      backend.Finds first s.sys req m := by
  intro m hm
  have hUnique := h.filed.ordered.sound.world.rows_unique
  rcases (Recall.mem_order_iff hUnique).mp hm with
    ⟨hRow, hValid⟩
  rcases Sqlite.mem_getMemoriesByIds hRow with ⟨hMem, hId⟩
  rcases List.mem_map.mp hId with ⟨x, hx, hSame⟩
  rcases hFound x hx with ⟨label, hAsks, hPromised⟩
  have hLabel : m.label = label :=
    hPromised.rows m.toMemoryRow hMem hSame.symm
  exact ⟨hLabel ▸ hAsks, hValid, h.filed.origin _ hMem⟩

theorem Answering.about_advance
    {call : RecallCall Vec F D}
    (h : Answering backend first s)
    (hSearch : backend.search.Keeps)
    (hRange : req.InRange)
    (hAbout : call.stage.About backend first s.sys req) :
    (s.advance backend call).2.stage.About backend first
      s.sys req := by
  cases hStage : call.stage with
  | embed req' =>
      rw [hStage] at hAbout
      simp only [advance, hStage]
      split <;> exact hAbout
  | generation req' embedding =>
      rw [hStage] at hAbout
      simp only [advance, hStage]
      exact ⟨hAbout, congrArg backend.recallNamespace hAbout⟩
  | lookup q =>
      rw [hStage] at hAbout
      simp only [advance, hStage]
      exact hAbout
  | entry q currentGen =>
      rw [hStage] at hAbout
      simp only [advance, hStage]
      split
      · rename_i answer hGet
        exact ⟨Query.Of.request hAbout,
          h.hit hRange hAbout hGet⟩
      · exact hAbout
  | search q =>
      rw [hStage] at hAbout
      simp only [advance, hStage]
      split
      · trivial
      · rename_i found hFound
        split
        · exact .nil backend first s.sys req
        · exact ⟨hAbout,
            hSearch.distinct _ _ _ _ _ _ _ hFound,
            h.found hSearch hAbout hFound⟩
  | rows q found =>
      rw [hStage] at hAbout
      rcases hAbout with ⟨hOf, hDistinct, hFound⟩
      simp only [advance, hStage]
      split
      · exact .nil backend first s.sys req
      · refine ⟨hOf, Recall.nodup_order hDistinct, ?_⟩
        rw [hOf.request]
        exact h.ordered hFound
  | rerank q ordered =>
      rw [hStage] at hAbout
      rcases hAbout with ⟨hOf, hDistinct, hFinds⟩
      simp only [advance, hStage]
      split
      · trivial
      · rename_i reranked hReranked
        have hOnce :=
          hSearch.ranked q.req.query
            (ordered.map searchableText) reranked
            (by rw [List.length_map]; exact hReranked)
        rw [List.length_map] at hOnce
        have hRecalled :
            Recalled backend first s.sys req
              (Recall.rank backend.scoring q.req
                s.sys.world.clock ordered reranked) := by
          rw [hOf.request]
          exact .of_rank hDistinct hFinds hOnce
        split
        · exact ⟨hOf, hRecalled⟩
        · exact ⟨hOf, hRecalled⟩
  | flush q results ids =>
      rw [hStage] at hAbout
      simp only [advance, hStage]
      exact hAbout
  | put q results =>
      rw [hStage] at hAbout
      simp only [advance, hStage]
      exact ⟨hAbout.1.request, hAbout.2⟩
  | validate req' results =>
      rw [hStage] at hAbout
      simp only [advance, hStage]
      split <;> exact hAbout.2
  | stamp results ids now =>
      rw [hStage] at hAbout
      simp only [advance, hStage]
      exact hAbout
  | done result =>
      rw [hStage] at hAbout
      simp only [advance, hStage]
      exact hAbout

/- What a recall puts in the cache answers its request. -/
theorem Answering.entries_advance
    {call : RecallCall Vec F D}
    {key : ResultCacheKeyInput Vec}
    {e : CachedResults (Answer F D)}
    (h : Answering backend first s)
    (hRange : req.InRange)
    (hAbout : call.stage.About backend first s.sys req)
    (hPeek :
      (s.advance backend call).1.cache.results.peek key =
        some e) :
    Holds backend first s.sys key e.results.results := by
  have hAdvance := advance_eq backend s call
  generalize (s.advance backend call).1 = s' at hAdvance hPeek
  generalize (s.advance backend call).2 = call' at hAdvance
  cases hAdvance with
  | @put q results hStage =>
      rw [hStage] at hAbout
      rcases hAbout with ⟨hOf, hRecalled⟩
      rcases Lru.peek_put hPeek with ⟨rfl, rfl⟩ | ⟨_, hOld⟩
      · refine ⟨req, q.embedding, hRange, ?_, hRecalled⟩
        rw [Query.key, hOf.request, hOf.namespace]
      · exact h.entries key e hOld
  | _ => exact h.entries key e hPeek

------------------------------------------------------------
-- Lives
------------------------------------------------------------

/-
  What an event is to a recall: nothing, the end of its life,
  its beginning, a step of it, or a failure.
-/
theorem recalls_next
    {e : LifeEvent F}
    (hNext : s.lifeNext backend e = some t)
    (j : Nat) :
    t.recalls j = s.recalls j ∨
      (t.recalls j = none ∧ ∃ config, e = .crash config) ∨
      (∃ req, e = .run (.recall j req) ∧
        s.recalls j = none ∧
          t.recalls j = some ⟨.embed req, 0, 0, none⟩) ∨
      (∃ call, s.recalls j = some call ∧
        t.recalls j = some (s.advance backend call).2) ∨
      ∃ call err stage, s.recalls j = some call ∧
        call.stage.fail err = some stage ∧
          t.recalls j = some { call with stage := stage } := by
  have hSet :
      ∀ {u : Cached Vec F D} {i : Nat}
        {call : RecallCall Vec F D},
        u.recalls = s.recalls →
          (u.setRecall i call).recalls j =
            if j = i then some call else s.recalls j := by
    intro u i call hSame
    change Function.update u.recalls i (some call) j = _
    rw [hSame, Function.update_apply]
  cases e with
  | crash config =>
      simp only [lifeNext, Option.map_eq_some_iff] at hNext
      rcases hNext with ⟨sys, _, rfl⟩
      exact Or.inr (Or.inl ⟨rfl, config, rfl⟩)
  | recover =>
      simp only [lifeNext, Option.map_eq_some_iff] at hNext
      rcases hNext with ⟨sys, _, rfl⟩
      exact Or.inl rfl
  | run e =>
      simp only [lifeNext] at hNext
      split at hNext
      · cases next_eq_some hNext with
        | «recall» i req hNone =>
            rw [hSet rfl]
            split
            · rename_i hEq
              subst hEq
              exact Or.inr (Or.inr (Or.inl
                ⟨req, rfl, hNone, rfl⟩))
            · exact Or.inl rfl
        | advance i call hCall =>
            rw [hSet (advance_eq backend s call).same.2.2.2.1]
            split
            · rename_i hEq
              subst hEq
              exact Or.inr (Or.inr (Or.inr (Or.inl
                ⟨call, hCall, rfl⟩)))
            · exact Or.inl rfl
        | failRecall i err call stage hCall hFail =>
            rw [hSet rfl]
            split
            · rename_i hEq
              subst hEq
              exact Or.inr (Or.inr (Or.inr (Or.inr
                ⟨call, err, stage, hCall, hFail, rfl⟩)))
            · exact Or.inl rfl
        | flushed ok => cases ok <;> exact Or.inl rfl
        | _ => exact Or.inl rfl
      · cases hNext

/- An entry of the next state was there, or a recall put it. -/
theorem entries_next
    {e : LifeEvent F} {key : ResultCacheKeyInput Vec}
    {entry : CachedResults (Answer F D)}
    (hNext : s.lifeNext backend e = some t)
    (hPeek : t.cache.results.peek key = some entry) :
    s.cache.results.peek key = some entry ∨
      ∃ j call, s.recalls j = some call ∧
        (s.advance backend call).1.cache.results.peek key =
          some entry := by
  cases e with
  | crash config =>
      simp only [lifeNext, Option.map_eq_some_iff] at hNext
      rcases hNext with ⟨sys, _, rfl⟩
      change (Lru.empty _).peek key = some entry at hPeek
      rw [Lru.peek_empty] at hPeek
      cases hPeek
  | recover =>
      simp only [lifeNext, Option.map_eq_some_iff] at hNext
      rcases hNext with ⟨sys, _, rfl⟩
      exact Or.inl hPeek
  | run e =>
      simp only [lifeNext] at hNext
      split at hNext
      · cases next_eq_some hNext with
        | advance j call hCall =>
            exact Or.inr ⟨j, call, hCall, hPeek⟩
        | flushed ok => cases ok <;> exact Or.inl hPeek
        | _ => exact Or.inl hPeek
      · cases hNext

theorem Answering.next
    {e : LifeEvent F}
    (hSearch : backend.search.Keeps)
    (h : Answering backend first s)
    (hRange :
      ∀ j req, e = .run (.recall j req) → req.InRange)
    (hNext : s.lifeNext backend e = some t) :
    Answering backend first t := by
  have hStep := lifeNext_rows hNext
  refine ⟨hStep.filed h.filed, ?_, ?_⟩
  · intro key entry hPeek
    have hHolds :
        Holds backend first s.sys key entry.results.results := by
      rcases entries_next hNext hPeek with
        hOld | ⟨j, call, hCall, hPut⟩
      · exact h.entries key entry hOld
      · rcases h.recalls j call hCall with
          ⟨req, hReq, hAbout⟩
        exact h.entries_advance hReq hAbout hPut
    rcases hHolds with ⟨req, embedding, hReq, hKey, hRecalled⟩
    exact ⟨req, embedding, hReq, hKey, hRecalled.later hStep⟩
  · intro j call' hCall'
    suffices hBefore :
        ∃ req, req.InRange ∧
          call'.stage.About backend first s.sys req by
      rcases hBefore with ⟨req, hReq, hAbout⟩
      exact ⟨req, hReq, hAbout.later hStep h.filed.ordered⟩
    rcases recalls_next hNext j with
      hSame | ⟨hNone, _⟩ | ⟨req, hAsk, _, hStart⟩ |
        ⟨call, hCall, hMoved⟩ |
          ⟨call, err, stage, hCall, hFail, hEnd⟩
    · exact h.recalls j call' (hSame ▸ hCall')
    · cases hNone.symm.trans hCall'
    · cases hStart.symm.trans hCall'
      exact ⟨req, hRange j req hAsk, rfl⟩
    · cases hMoved.symm.trans hCall'
      rcases h.recalls j call hCall with ⟨req, hReq, hAbout⟩
      exact ⟨req, hReq,
        h.about_advance hSearch hReq hAbout⟩
    · cases hEnd.symm.trans hCall'
      rcases h.recalls j call hCall with ⟨req, hReq, hAbout⟩
      exact ⟨req, hReq, hAbout.fail hFail⟩

end Cached

end Core

end Ferrex
