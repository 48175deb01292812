import Ferrex.Lib.Cover
import Ferrex.Lib.Groups
import Ferrex.Core.Stats

/-
  The audit of a namespace: its stale memories, and pairs of
  valid facts that contradict each other.  Facts are compared
  within their subject and predicate, then within their
  subject, then across the subjects that aliases link.

  Main declarations:
    * `buildEntityAliasMap`
    * `findPairsWithDifferentObjects`
    * `findAliasContradictions`
    * `detectContradictions`
    * `reflect`
-/

------------------------------------------------------------
-- Contradictions
------------------------------------------------------------

namespace Ferrex

namespace Core

open Store

namespace Reflect

variable {Vec F : Type}

/- 0.75 -/
def fuzzyPredicateThreshold : Rat := 3 / 4

/-
  How many stale memories are listed if no limit is given.
-/
def defaultReflectLimit : Nat := 20

/-
  How the two memories of a pair are found to be about one
  thing.
-/
inductive ContradictionMatchType where
| exactPredicate
| fuzzyPredicate
| similarSubject
deriving DecidableEq

/- Two memories that contradict each other. -/
structure ContradictionPair where
  a : Memory
  b : Memory
  matchType : ContradictionMatchType
  similarity : Rat
deriving DecidableEq

/-
  The normal form, or what was stated; none for another
  type.
-/
def effectivePredicate (mem : Memory) : String :=
  (mem.normalizedPredicate.or mem.predicate).getD ""

/- The object, or nothing. -/
def effectiveObject (mem : Memory) : String :=
  mem.object.getD ""

/- The key of `by_subject`. -/
def subjectKey
    (env : Env Vec F)
    (mem : Memory) : Option String :=
  mem.subject.map env.toLowercase

/-
  The key of `grouped`: a normalized predicate counts as it
  is, any other in lowercase.
-/
def exactKey
    (env : Env Vec F)
    (mem : Memory) : Option (String × String) :=
  match mem.subject with
  | some subj =>
      match mem.normalizedPredicate with
      | some p => some (env.toLowercase subj, p)
      | none =>
          mem.predicate.map
            (fun p => (env.toLowercase subj, env.toLowercase p))
  | none => none

/- What the loops over the groups fill. -/
structure Detection where
  contradictions : List ContradictionPair
  matchedIds : Finset String

/- What a pair of a group is, unless it is no contradiction. -/
abbrev Classify :=
  Memory → Memory → Option (ContradictionMatchType × Rat)

/- The body of the loop over the pairs of a group. -/
def comparePair
    (classify : Classify)
    (d : Detection)
    (a b : Memory) : Detection :=
  if a.id ∈ d.matchedIds ∧ b.id ∈ d.matchedIds then
    d
  else if effectiveObject a = effectiveObject b then
    d
  else
    match classify a b with
    | some (matchType, similarity) =>
        { contradictions :=
            d.contradictions ++ [⟨a, b, matchType, similarity⟩]
          matchedIds := insert b.id (insert a.id d.matchedIds) }
    | none => d

/- Every memory of a group with those that follow it. -/
def comparePairs
    (classify : Classify) : List Memory → Detection → Detection
| [], d => d
| a :: mems, d =>
    comparePairs classify mems
      (mems.foldl (fun d b => comparePair classify d a b) d)

/- All pairs of a group, each once. -/
def findPairsWithDifferentObjects
    (classify : Classify)
    (mems : List Memory)
    (d : Detection) : Detection :=
  if mems.length < 2 then
    d
  else
    comparePairs classify mems d

/- Two predicates are one. -/
def classifyExact : Classify :=
  fun _ _ => some (.exactPredicate, 1)

/- Two predicates that resemble each other. -/
def classifyFuzzy (env : Env Vec F) : Classify :=
  fun a b =>
    if effectivePredicate a = effectivePredicate b then
      none
    else if fuzzyPredicateThreshold <
        env.jaroWinkler (effectivePredicate a)
          (effectivePredicate b) then
      some (.fuzzyPredicate,
        env.jaroWinkler (effectivePredicate a)
          (effectivePredicate b))
    else
      none

/- The memories of the subjects that are aliases of one. -/
def aliasMems
    (env : Env Vec F)
    (bySubject : List (String × List Memory))
    (subj : String)
    (aliases : List String) : List Memory :=
  ((aliases.filter
    (fun a => env.toLowercase a ≠ subj)).filterMap
      (fun a => bySubject.lookup (env.toLowercase a))).flatten

/- What the two loops skip, or report. -/
def aliasPair
    (matchedIds : Finset String)
    (mem other : Memory) : Option ContradictionPair :=
  if mem.id ∈ matchedIds then
    none
  else if other.id = mem.id ∨ other.id ∈ matchedIds then
    none
  else if effectivePredicate mem ≠ effectivePredicate other then
    none
  else if effectiveObject mem = effectiveObject other then
    none
  else
    some ⟨mem, other, .similarSubject, 1⟩

/- The loop over one subject. -/
def aliasPairs
    (env : Env Vec F)
    (bySubject : List (String × List Memory))
    (entityAliases : List (String × List String))
    (matchedIds : Finset String)
    (group : String × List Memory) : List ContradictionPair :=
  match entityAliases.lookup group.1 with
  | none => []
  | some aliases =>
      group.2.flatMap
        (fun mem =>
          (aliasMems env bySubject group.1 aliases).filterMap
            (aliasPair matchedIds mem))

/- The orders of the two maps that the loops go through. -/
structure Orders where
  grouped : Iteration ((String × String) × List Memory)
  bySubject : Iteration (String × List Memory)

/- The last stage: subjects that are names of one entity. -/
def findAliasContradictions
    (env : Env Vec F)
    (orders : Orders)
    (bySubject : List (String × List Memory))
    (entityAliases : List (String × List String))
    (d : Detection) : List ContradictionPair :=
  d.contradictions ++
    (orders.bySubject.order bySubject).flatMap
      (aliasPairs env bySubject entityAliases d.matchedIds)

/- The loops over the exact groups. -/
def exactDetection
    (env : Env Vec F)
    (orders : Orders)
    (validSemantics : List Memory) : Detection :=
  (orders.grouped.order
    (Groups.collect (exactKey env) validSemantics)).foldl
      (fun d group =>
        findPairsWithDifferentObjects classifyExact group.2 d)
      ⟨[], ∅⟩

/- The loops over the subjects, within each of them. -/
def fuzzyDetection
    (env : Env Vec F)
    (orders : Orders)
    (validSemantics : List Memory) : Detection :=
  (orders.bySubject.order
    (Groups.collect (subjectKey env) validSemantics)).foldl
      (fun d group =>
        findPairsWithDifferentObjects (classifyFuzzy env)
          group.2 d)
      (exactDetection env orders validSemantics)

/- The three stages, one after the other. -/
def detectContradictions
    (env : Env Vec F)
    (orders : Orders)
    (validSemantics : List Memory)
    (entityAliases : List (String × List String)) :
    List ContradictionPair :=
  findAliasContradictions env orders
    (Groups.collect (subjectKey env) validSemantics)
    entityAliases (fuzzyDetection env orders validSemantics)

------------------------------------------------------------
-- Aliases
------------------------------------------------------------

/- The name of an entity and its aliases, in lower case. -/
def allNames
    (env : Env Vec F)
    (entity : Store.Entity) : List String :=
  entity.aliases.map env.toLowercase ++
    [env.toLowercase entity.name]

/- Every name of an entity gets all names of it. -/
def addNames
    (env : Env Vec F)
    (map : List (String × List String))
    (entity : Store.Entity) : List (String × List String) :=
  (allNames env entity).foldl
    (fun map name =>
      Groups.extend name (allNames env entity) map)
    map

/- In the end a name is listed once, and never its own alias. -/
def otherNames
    (key : String)
    (aliases : List String) : List String :=
  ((aliases.insertionSort (· ≤ ·)).dedup).filter (· ≠ key)

/-
  The names that can stand for a name, for each name of an
  entity.
-/
def buildEntityAliasMap
    (env : Env Vec F)
    (entities : List Store.Entity) :
    List (String × List String) :=
  (entities.foldl (addNames env) []).map
    (fun entry => (entry.1, otherNames entry.1 entry.2))

------------------------------------------------------------
-- The Audit
------------------------------------------------------------

/- What a reflection is asked for. -/
structure ReflectRequest where
  «namespace» : String
  limit : Option Nat
  includeContradictions : Bool
  includeStale : Bool

/- A stale memory, with the reason why it could go. -/
structure StaleCandidate where
  memory : Memory
  stalenessScore : Rat
  freshnessLabel : FreshnessLabel
  evictionRank : Nat
  reason : String

/- The counts of a reflection. -/
structure ReflectSummary where
  totalScanned : Nat
  staleCount : Nat
  contradictionCount : Nat

/- The answer of a reflection. -/
structure ReflectResponse where
  stale : List StaleCandidate
  contradictions : List ContradictionPair
  summary : ReflectSummary

/- Unused episodes first, then episodes, then the rest. -/
def evictionPriority (mem : Memory) : Nat :=
  if mem.memoryType = .episodic then
    if mem.accessCount = 0 then 0 else 1
  else
    2

/- Whole days, without the part of the last one. -/
def numDays (duration : Int) : Int :=
  Int.tdiv duration 86400000000000

/- The reason in words. -/
def buildStaleReason (mem : Memory) (now : DateTime) : String :=
  let ageDays := numDays (now - mem.createdAt)
  let accessDays := numDays (now - mem.lastAccessed)
  let validated :=
    match mem.lastValidated with
    | some t => s!"last validated {numDays (now - t)} days ago"
    | none => "never validated"
  s!"created {ageDays} days ago, last accessed {accessDays} days ago, {validated}, {mem.accessCount} accesses"

/- By priority, and the stalest first among equals. -/
def evictsBefore (a b : Memory × Rat) : Prop :=
  evictionPriority a.1 < evictionPriority b.1 ∨
    (evictionPriority a.1 = evictionPriority b.1 ∧ b.2 ≤ a.2)

/- Decided by comparing the two scores. -/
instance (a b : Memory × Rat) : Decidable (evictsBefore a b) :=
  inferInstanceAs (Decidable (_ ∨ _))

/- The stale memories, the most stale ones first. -/
def staleCandidates
    (config : StalenessConfig Rat)
    (candidates : List Memory)
    (now : DateTime)
    (limit : Nat) : List StaleCandidate :=
  let scored :=
    (candidates.filter
      (fun mem =>
        ReachesThreshold config now mem.toMemoryRow)).map
          (fun mem =>
            (mem, stalenessScore config mem.toMemoryRow now))
  ((scored.insertionSort evictsBefore).take limit).mapIdx
    (fun rank s =>
      { memory := s.1
        stalenessScore := s.2
        freshnessLabel := config.label now s.1
        evictionRank := rank + 1
        reason := buildStaleReason s.1 now })

/- The memories that are compared. -/
def validSemantics
    (db : Sqlite)
    (ns : String) : List Memory :=
  (db.getMemoriesByIds
    ((db.listAllMemoryIds ns).take maxScanMemories)).filter
      (fun m => m.memoryType = .semantic ∧ m.tInvalid.isNone)

/- The answer to a request, unless the cutoff panics. -/
def reflect
    (env : Env Vec F)
    (orders : Orders)
    (config : StalenessConfig Rat)
    (db : Sqlite)
    (now : DateTime)
    (req : ReflectRequest) : Option ReflectResponse :=
  let limit := req.limit.getD defaultReflectLimit
  let candidates :=
    if req.includeStale then
      (staleCutoff config now).map
        (db.getStaleCandidates req.namespace)
    else
      some []
  candidates.map
    (fun candidates =>
      let stale := staleCandidates config candidates now limit
      let facts :=
        if req.includeContradictions then
          validSemantics db req.namespace
        else
          []
      let contradictions :=
        if req.includeContradictions then
          detectContradictions env orders facts
            (buildEntityAliasMap env db.getAllEntities)
        else
          []
      { stale := stale
        contradictions := contradictions
        summary :=
          { totalScanned := max candidates.length facts.length
            staleCount := stale.length
            contradictionCount := contradictions.length } })

end Reflect

end Core

end Ferrex
