import Ferrex.Lib.Lru
import Ferrex.Core.Recall

/-
  The cache of recall: embeddings by text, results by the
  question they answer, and for each namespace a generation
  that every write bumps.  The hashes of the keys are taken
  not to collide, so a key stands for what is hashed.

  Main declarations:
    * `ResultCacheKeyInput`, `cacheKey`
    * `RecallCache`
    * `RecallCache.getResults`, `putResults`
    * `RecallCache.bumpGeneration`
-/

------------------------------------------------------------
-- Keys
------------------------------------------------------------

namespace Ferrex

namespace Core

open Store

/- Nanoseconds, for instants that 64 bits can hold. -/
def timestampNanosOpt (t : DateTime) : Option Int :=
  if -2 ^ 63 ≤ t ∧ t < 2 ^ 63 then some t else none

/-
  What results are kept by. Times are the raw numbers that
  the filter is made of.
-/
structure ResultCacheKeyInput (Vec : Type) where
  embedding : Vec
  types : Option (List String)
  entities : Option (List String)
  «namespace» : String
  limit : Nat
  includeStale : Option Bool
  includeInvalidated : Option Bool
  timeRangeHash :
    Option (Option (Option Int) × Option (Option Int))
  asOfNanos : Option Int
  explain : Bool
deriving DecidableEq

variable {Vec V : Type}

/-
  The key of a question, with the limit that recall takes.
-/
def cacheKey
    (ns : String)
    (embedding : Vec)
    (req : RecallRequest) : ResultCacheKeyInput Vec where
  embedding := embedding
  types := req.types.map (·.map MemoryType.asStr)
  entities := req.entities
  «namespace» := ns
  limit := Recall.limit req
  includeStale := req.includeStale
  includeInvalidated := req.includeInvalidated
  timeRangeHash :=
    req.timeRange.map
      (fun range =>
        (range.start.map timestampNanosOpt,
          range.end.map timestampNanosOpt))
  asOfNanos := req.asOf.bind timestampNanosOpt
  explain := req.explain

------------------------------------------------------------
-- The Cache
------------------------------------------------------------

/- How many entries each of the two caches holds. -/
structure CacheConfig where
  embeddingCapacity : Nat
  resultCapacity : Nat

/-
  Results, and the generation that they were put in with.
-/
structure CachedResults (V : Type) where
  generation : Nat
  results : V

/-
  The embeddings, the results, and the counter of each
  namespace.
-/
structure RecallCache (Vec V : Type) where
  embeddings : Lru String Vec
  results : Lru (ResultCacheKeyInput Vec) (CachedResults V)
  generations : List (String × Nat)

namespace RecallCache

def new (config : CacheConfig) : RecallCache Vec V where
  embeddings := .empty config.embeddingCapacity
  results := .empty config.resultCapacity
  generations := []

/- A query that was embedded before. -/
def getEmbedding
    (cache : RecallCache Vec V)
    (query : String) : Option Vec :=
  cache.embeddings.peek query

/- An embedding is kept by the text of its query. -/
def putEmbedding
    (cache : RecallCache Vec V)
    (query : String)
    (embedding : Vec) : RecallCache Vec V :=
  { cache with
    embeddings := cache.embeddings.put query embedding }

/- A namespace that was never bumped is at zero. -/
def generation
    (cache : RecallCache Vec V)
    (ns : String) : Nat :=
  (cache.generations.lookup ns).getD 0

/-
  All results of the namespace are out of date from now on.
-/
def bumpGeneration
    (cache : RecallCache Vec V)
    (ns : String) : RecallCache Vec V :=
  { cache with
    generations :=
      (ns, cache.generation ns + 1) ::
        cache.generations.filter (fun g => g.1 ≠ ns) }

/- The counter of one namespace is found past the others. -/
private theorem lookup_filter
    {generations : List (String × Nat)} {ns ns' : String}
    (hNe : ns ≠ ns') :
    (generations.filter (fun g => g.1 ≠ ns')).lookup ns =
      generations.lookup ns := by
  induction generations with
  | nil => rfl
  | cons g generations ih =>
      by_cases hEq : g.1 = ns'
      · have hNot : (ns == g.1) = false := by
          simpa [hEq] using hNe
        rw [List.filter_cons_of_neg (by simpa using hEq), ih,
          List.lookup_cons, hNot]
      · rw [List.filter_cons_of_pos (by simpa using hEq),
          List.lookup_cons, List.lookup_cons, ih]

/- A bump counts for its own namespace alone. -/
theorem generation_bumpGeneration
    (cache : RecallCache Vec V)
    (ns ns' : String) :
    (cache.bumpGeneration ns').generation ns =
      if ns = ns' then
        cache.generation ns + 1
      else
        cache.generation ns := by
  simp only [generation, bumpGeneration, List.lookup_cons]
  by_cases hEq : ns = ns'
  · simp [hEq]
  · have hNot : (ns == ns') = false := by simpa using hEq
    rw [hNot, if_neg hEq, lookup_filter hEq]

variable [DecidableEq Vec]

/- What is found counts if it is of the current generation. -/
def getResults
    (cache : RecallCache Vec V)
    (key : ResultCacheKeyInput Vec)
    (currentGen : Nat) : Option V :=
  match cache.results.peek key with
  | some e =>
      if e.generation = currentGen then
        some e.results
      else
        none
  | none => none

/- Results go in with the generation of their question. -/
def putResults
    (cache : RecallCache Vec V)
    (key : ResultCacheKeyInput Vec)
    (results : V)
    (generation : Nat) : RecallCache Vec V :=
  { cache with
    results := cache.results.put key ⟨generation, results⟩ }

end RecallCache

end Core

end Ferrex
