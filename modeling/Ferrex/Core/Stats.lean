import Ferrex.Core.Staleness

/-
  The statistics of a namespace.  The number of stale
  memories is counted among those whose last access is
  before a cutoff, the distribution over all of them.  The
  diagnostics that a request may ask for besides, with their
  own report, are left out.

  Main declarations:
    * `Sqlite.getStaleCandidates`
    * `staleCutoff`
    * `stats`, `buildStatsDetails`
    * `StaleCountAgrees`, `Spared`
    * `stale_prefilter_sound_iff`
-/

------------------------------------------------------------
-- Scans of a Namespace
------------------------------------------------------------

namespace Ferrex

namespace Store

namespace Sqlite

/- The ids of the valid memories of a namespace. -/
def listAllMemoryIds
    (db : Sqlite)
    (ns : String) : List String :=
  (db.memories.filter
    (fun r => r.namespace = ns ∧ r.tInvalid.isNone)).map
      MemoryRow.id

/- The rows come without the names of their entities. -/
def getStaleCandidates
    (db : Sqlite)
    (ns : String)
    (accessedBefore : DateTime) : List Memory :=
  (db.memories.filter
    (fun r => r.tInvalid.isNone ∧ r.namespace = ns ∧
      r.lastAccessed < accessedBefore)).map (fun r => ⟨r, []⟩)

/- Those that were never validated. -/
def getUnvalidatedMemories
    (db : Sqlite)
    (ns : String) : List Memory :=
  (db.memories.filter
    (fun r => r.lastValidated.isNone ∧ r.tInvalid.isNone ∧
      r.namespace = ns)).map (fun r => ⟨r, []⟩)

/- The newest memories, up to a limit. -/
def recentMemories
    (db : Sqlite)
    (ns : String)
    (limit : Nat) : List Memory :=
  (((db.memories.filter
    (fun r => r.tInvalid.isNone ∧ r.namespace = ns)).insertionSort
      (fun a b => b.createdAt ≤ a.createdAt)).take limit).map
        (fun r =>
          ⟨r, splitAggregated
            (db.getEntityNamesForMemory r.id)⟩)

/- The entities that some memory of the namespace names. -/
def entityCount
    (db : Sqlite)
    (ns : String) : Nat :=
  db.entities.countP
    (fun e => db.memoryEntities.any
      (fun link => link.2 = e.id && db.memories.any
        (fun r => r.id = link.1 && r.namespace = ns)))

end Sqlite

end Store

------------------------------------------------------------
-- The Cutoff
------------------------------------------------------------

namespace Core

open Store

/- A float as a 64-bit integer: truncated and saturated. -/
def asI64 (x : Rat) : Int :=
  max (-2 ^ 63) (min (2 ^ 63 - 1) (Int.tdiv x.num x.den))

/- A number of days in nanoseconds, within 2^63 - 1 ms. -/
def durationDays (days : Int) : Option Int :=
  if -(2 ^ 63 - 1) ≤ days * 86400000 ∧
      days * 86400000 ≤ 2 ^ 63 - 1 then
    some (days * 86400000000000)
  else
    none

/- The first and the last instant of a date and time. -/
def minUtc : DateTime := -8334601228800 * 1000000000

/- The last instant that the clock's type can hold. -/
def maxUtc : DateTime := 8210266876799 * 1000000000 + 999999999

/- There is no instant before the first. -/
def subDuration
    (t : DateTime)
    (duration : Int) : Option DateTime :=
  if minUtc ≤ t - duration ∧ t - duration ≤ maxUtc then
    some (t - duration)
  else
    none

/-
  Half of the smallest half-life before now, in whole days;
  there is none where the arithmetic panics.
-/
def staleCutoff
    (config : StalenessConfig Rat)
    (now : DateTime) : Option DateTime :=
  (durationDays (asI64 (config.minHalfLifeDays / 2))).bind
    (subDuration now)

------------------------------------------------------------
-- Statistics
------------------------------------------------------------

/- No more rows are looked at. -/
def maxScanMemories : Nat := 10000

/- How many recent memories are shown. -/
def statsRecentCount : Nat := 5

/- What statistics are asked for. -/
structure StatsRequest where
  «namespace» : String
  detailed : Option Bool

/- The counts of what could be looked after. -/
structure NeedsAttention where
  staleCount : Nat
  conflictCount : Nat
  unvalidatedCount : Nat

/- How many memories have each label. -/
structure StalenessDistribution where
  fresh : Nat
  aging : Nat
  stale : Nat

/- The numbers for one type. -/
structure TypeStats where
  count : Nat
  staleCount : Nat
  avgStaleness : Rat
  avgAccessCount : Rat
  oldest : Option DateTime
  newest : Option DateTime

/- The details, if they are asked for. -/
structure StatsDetails where
  byType : MemoryType → Option TypeStats
  storageSizeBytes : Nat
  entityCount : Nat
  stalenessDistribution : StalenessDistribution

/- The answer. -/
structure StatsResponse where
  totalMemories : Nat
  recentMemories : List Memory
  needsAttention : NeedsAttention
  details : Option StatsDetails

/- The label of a row; it does not depend on any boost. -/
def StalenessConfig.label
    (config : StalenessConfig Rat)
    (now : DateTime)
    (m : Memory) : FreshnessLabel :=
  freshnessLabel (config.scoring (fun _ _ => 1))
    (stalenessScore config m.toMemoryRow now)
    (thresholdForType config m.memoryType)

/- A row whose score reaches the threshold of its type. -/
def ReachesThreshold
    (config : StalenessConfig Rat)
    (now : DateTime)
    (m : MemoryRow) : Prop :=
  thresholdForType config m.memoryType ≤
    stalenessScore config m now

/- Decided by comparing two numbers. -/
instance
    (config : StalenessConfig Rat)
    (now : DateTime)
    (m : MemoryRow) :
    Decidable (ReachesThreshold config now m) :=
  inferInstanceAs (Decidable (_ ≤ _))

/- The numbers for one type, if it has memories. -/
def typeStats
    (config : StalenessConfig Rat)
    (now : DateTime)
    (memories : List Memory)
    (ty : MemoryType) : Option TypeStats :=
  let mine := memories.filter (fun m => m.memoryType = ty)
  if mine.isEmpty then
    none
  else
    some
      { count := mine.length
        staleCount :=
          mine.countP (fun m => config.label now m = .stale)
        avgStaleness :=
          (mine.map (fun m =>
            stalenessScore config m.toMemoryRow now)).sum /
              mine.length
        avgAccessCount :=
          (mine.map (fun m => (m.accessCount : Rat))).sum /
            mine.length
        oldest := (mine.map (fun m => m.createdAt)).min?
        newest := (mine.map (fun m => m.createdAt)).max? }

/- All details of a namespace. -/
def buildStatsDetails
    (config : StalenessConfig Rat)
    (db : Sqlite)
    (storageSizeBytes : Nat)
    (now : DateTime)
    (ns : String)
    (allIds : List String) : StatsDetails :=
  let validMemories :=
    (db.getMemoriesByIds allIds).filter
      (fun m => m.tInvalid.isNone)
  { byType := typeStats config now validMemories
    storageSizeBytes := storageSizeBytes
    entityCount := db.entityCount ns
    stalenessDistribution :=
      { fresh :=
          validMemories.countP
            (fun m => config.label now m = .fresh)
        aging :=
          validMemories.countP
            (fun m => config.label now m = .aging)
        stale :=
          validMemories.countP
            (fun m => config.label now m = .stale) } }

/-
  The answer to a request without diagnostics, unless the
  cutoff panics.
-/
def stats
    (config : StalenessConfig Rat)
    (db : Sqlite)
    (storageSizeBytes : Nat)
    (now : DateTime)
    (req : StatsRequest) : Option StatsResponse :=
  let allIds :=
    (db.listAllMemoryIds req.namespace).take maxScanMemories
  (staleCutoff config now).map
    (fun cutoff =>
      { totalMemories := allIds.length
        recentMemories :=
          db.recentMemories req.namespace statsRecentCount
        needsAttention :=
          { staleCount :=
              (db.getStaleCandidates req.namespace
                cutoff).countP
                  (fun m =>
                    ReachesThreshold config now m.toMemoryRow)
            conflictCount := 0
            unvalidatedCount :=
              (db.getUnvalidatedMemories
                req.namespace).length }
        details :=
          if req.detailed.getD false then
            some (buildStatsDetails config db storageSizeBytes
              now req.namespace allIds)
          else
            none })

------------------------------------------------------------
-- Counting Stale Rows
------------------------------------------------------------

section Counting

variable {config : StalenessConfig Rat} {db : Sqlite}
variable {now cutoff : DateTime} {ns : String}

/- A valid row of a namespace. -/
def ValidIn (ns : String) (r : MemoryRow) : Prop :=
  r.namespace = ns ∧ r.tInvalid = none

/- Decided by looking at the columns. -/
instance (ns : String) (r : MemoryRow) :
    Decidable (ValidIn ns r) :=
  inferInstanceAs (Decidable (_ ∧ _))

/- Stale is what has reached its threshold. -/
theorem label_eq_stale_iff {m : Memory} :
    config.label now m = .stale ↔
      ReachesThreshold config now m.toMemoryRow :=
  freshnessLabel_eq_stale_iff stalenessScore_nonneg

/- The rows that are read by distinct ids are distinct. -/
theorem perm_getMemoriesByIds
    {ids : List String}
    (hRows : Table.KeyUnique MemoryRow.id db.memories)
    (hIds : ids.Nodup) :
    ((db.getMemoriesByIds ids).map Memory.toMemoryRow).Perm
      (db.memories.filter (fun r => r.id ∈ ids)) := by
  have hDistinct : db.memories.Nodup := hRows.of_map
  have hMap :
      (db.getMemoriesByIds ids).map Memory.toMemoryRow =
        (Sqlite.inClauseBatches ids).flatMap
          (fun batch =>
            db.memories.filter (fun r => r.id ∈ batch)) := by
    unfold Sqlite.getMemoriesByIds
    rw [List.map_flatMap]
    congr 1
    funext batch
    rw [List.map_map]
    exact List.map_id' _
  have hBatches :=
    List.nodup_flatten.mp
      ((Sqlite.inClauseBatches_flatten ids).symm ▸ hIds)
  rw [hMap]
  refine (List.perm_ext_iff_of_nodup ?_
    (hDistinct.filter _)).mpr ?_
  · refine List.nodup_flatMap.mpr
      ⟨fun _ _ => hDistinct.filter _, ?_⟩
    refine hBatches.2.imp ?_
    intro xs ys hDisjoint r hLeft hRight
    rw [List.mem_filter, decide_eq_true_iff] at hLeft hRight
    exact hDisjoint hLeft.2 hRight.2
  · intro r
    simp only [List.mem_flatMap, List.mem_filter,
      decide_eq_true_iff]
    constructor
    · rintro ⟨batch, hBatch, hMem, hIn⟩
      refine ⟨hMem, ?_⟩
      rw [← Sqlite.inClauseBatches_flatten ids]
      exact List.mem_flatten.mpr ⟨batch, hBatch, hIn⟩
    · rintro ⟨hMem, hIn⟩
      rw [← Sqlite.inClauseBatches_flatten ids] at hIn
      rcases List.mem_flatten.mp hIn with ⟨batch, hBatch, hId⟩
      exact ⟨batch, hBatch, hMem, hId⟩

/- With few rows the scan reads all those of the namespace. -/
theorem perm_scan
    (hRows : Table.KeyUnique MemoryRow.id db.memories)
    (hScan : (db.listAllMemoryIds ns).length ≤ maxScanMemories) :
    ((db.getMemoriesByIds
      ((db.listAllMemoryIds ns).take maxScanMemories)).map
        Memory.toMemoryRow).Perm
      (db.memories.filter (fun r => ValidIn ns r)) := by
  rw [List.take_of_length_le hScan]
  have hIds : (db.listAllMemoryIds ns).Nodup :=
    hRows.sublist (List.filter_sublist.map _)
  refine (perm_getMemoriesByIds hRows hIds).trans ?_
  refine List.Perm.of_eq (List.filter_congr ?_)
  intro r hr
  rw [Bool.eq_iff_iff, decide_eq_true_iff, decide_eq_true_iff]
  unfold Sqlite.listAllMemoryIds ValidIn
  constructor
  · intro hIn
    rcases List.mem_map.mp hIn with ⟨r', hr', hId⟩
    rw [List.mem_filter, decide_eq_true_iff] at hr'
    rw [hRows.eq_of_key_eq hr hr'.1 hId.symm]
    exact ⟨hr'.2.1, Option.isNone_iff_eq_none.mp hr'.2.2⟩
  · rintro ⟨hNs, hValid⟩
    refine List.mem_map_of_mem (List.mem_filter.mpr ⟨hr, ?_⟩)
    simp [hNs, hValid]

/- The stale bucket of the distribution. -/
theorem stale_buildStatsDetails
    {size : Nat}
    (hRows : Table.KeyUnique MemoryRow.id db.memories)
    (hScan : (db.listAllMemoryIds ns).length ≤ maxScanMemories) :
    (buildStatsDetails config db size now ns
      ((db.listAllMemoryIds ns).take
        maxScanMemories)).stalenessDistribution.stale =
      db.memories.countP
        (fun r => ValidIn ns r ∧
          ReachesThreshold config now r) := by
  have hLabels :
      ∀ memories : List Memory,
        (memories.filter (fun m => m.tInvalid.isNone)).countP
            (fun m => config.label now m = .stale) =
          (memories.map Memory.toMemoryRow).countP
            (fun r => r.tInvalid = none ∧
              ReachesThreshold config now r) := by
    intro memories
    rw [List.countP_filter, List.countP_map]
    apply List.countP_congr
    intro m _
    simp [label_eq_stale_iff, and_comm]
  unfold buildStatsDetails
  dsimp only
  rw [hLabels, (perm_scan hRows hScan).countP_eq,
    List.countP_filter]
  apply List.countP_congr
  intro r _
  simp only [Bool.and_eq_true, decide_eq_true_eq]
  unfold ValidIn
  tauto

/- The stale rows among the candidates. -/
theorem countP_getStaleCandidates :
    (db.getStaleCandidates ns cutoff).countP
        (fun m => ReachesThreshold config now m.toMemoryRow) =
      db.memories.countP
        (fun r => (ValidIn ns r ∧
          ReachesThreshold config now r) ∧
            r.lastAccessed < cutoff) := by
  unfold Sqlite.getStaleCandidates
  rw [List.countP_map, List.countP_filter]
  apply List.countP_congr
  intro r _
  simp only [Function.comp, Bool.and_eq_true,
    decide_eq_true_eq, Option.isNone_iff_eq_none]
  unfold ValidIn
  tauto

/-
  The prefilter keeps what was not read since the cutoff.
-/
theorem mem_getStaleCandidates_iff
    {r : MemoryRow}
    (hMem : r ∈ db.memories)
    (hValidIn : ValidIn ns r) :
    r ∈ (db.getStaleCandidates ns cutoff).map
        Memory.toMemoryRow ↔
      r.lastAccessed < cutoff := by
  unfold Sqlite.getStaleCandidates
  rw [List.map_map]
  constructor
  · intro hIn
    rcases List.mem_map.mp hIn with ⟨r', hr', rfl⟩
    rw [List.mem_filter, decide_eq_true_iff] at hr'
    exact hr'.2.2.2
  · intro hBefore
    refine List.mem_map.mpr ⟨r, List.mem_filter.mpr ⟨hMem, ?_⟩,
      rfl⟩
    simp [hValidIn.1, hValidIn.2, hBefore]

end Counting

------------------------------------------------------------
-- Rows That the Cutoff Spares
------------------------------------------------------------

section Cutoff

variable {config : StalenessConfig Rat} {db : Sqlite}
variable {now cutoff : DateTime} {ns : String}
variable {r : MemoryRow}

/- The whole days up to a positive number of days. -/
theorem asI64_le
    {x : Rat}
    (hPos : 0 < x) :
    ((asI64 x : Int) : Rat) ≤ x := by
  have hNum : 0 ≤ x.num := (Rat.num_pos.mpr hPos).le
  have hFloor : Int.tdiv x.num x.den = x.floor := by
    rw [Int.tdiv_eq_ediv_of_nonneg hNum, Rat.floor_def]
  have hTrunc : asI64 x ≤ x.floor := by
    unfold asI64
    rw [hFloor]
    have hNonneg : 0 ≤ x.floor :=
      Rat.le_floor_iff.mpr (by exact_mod_cast hPos.le)
    omega
  exact Rat.le_floor_iff.mp hTrunc

/- No more whole seconds than the time they are part of. -/
private theorem tdiv_le_seconds
    {d n : Int}
    (h : d ≤ n * 1000000000) :
    max (Int.tdiv d 1000000000) 0 ≤ max n 0 := by
  by_cases hSign : 0 ≤ d
  · rw [Int.tdiv_eq_ediv_of_nonneg hSign]
    omega
  · have hNeg : Int.tdiv d 1000000000 = -(-d / 1000000000) := by
      rw [← Int.neg_neg d, Int.neg_tdiv,
        Int.tdiv_eq_ediv_of_nonneg (by omega), Int.neg_neg]
    omega

/- An access since the cutoff is half a half-life away. -/
theorem daysSince_lastAccessed_le
    (hProper : config.Proper)
    (hCutoff : staleCutoff config now = some cutoff)
    (hRecent : cutoff ≤ r.lastAccessed) :
    daysSince now r.lastAccessed ≤
      config.minHalfLifeDays / 2 := by
  have hHalf : 0 < config.minHalfLifeDays / 2 :=
    half_pos hProper.minHalfLifeDays_pos
  rcases Option.bind_eq_some_iff.mp hCutoff with
    ⟨duration, hDuration, hSub⟩
  unfold durationDays at hDuration
  unfold subDuration at hSub
  split at hDuration
  · split at hSub
    · cases hDuration
      cases hSub
      have hDays :
          max (Int.tdiv (now - r.lastAccessed) 1000000000) 0 ≤
            max (asI64 (config.minHalfLifeDays / 2)) 0 *
              86400 := by
        refine (tdiv_le_seconds
          (n := asI64 (config.minHalfLifeDays / 2) * 86400)
            (by linarith)).trans ?_
        omega
      have hWhole :
          ((max (asI64 (config.minHalfLifeDays / 2)) 0 : Int) :
              Rat) ≤ config.minHalfLifeDays / 2 := by
        rcases max_cases (asI64 (config.minHalfLifeDays / 2)) 0
          with ⟨hEq, _⟩ | ⟨hEq, _⟩
        · rw [hEq]
          exact asI64_le hHalf
        · rw [hEq]
          exact hHalf.le
      unfold daysSince secondsPerDay
      rw [div_le_iff₀ (by norm_num)]
      calc
        ((max (Int.tdiv (now - r.lastAccessed) 1000000000) 0 :
              Int) : Rat)
          ≤ ((max (asI64 (config.minHalfLifeDays / 2)) 0 *
              86400 : Int) : Rat) := by
            exact_mod_cast hDays
        _ = ((max (asI64 (config.minHalfLifeDays / 2)) 0 :
              Int) : Rat) * 86400 := by
            push_cast
            ring
        _ ≤ config.minHalfLifeDays / 2 * 86400 := by
            exact mul_le_mul_of_nonneg_right hWhole
              (by norm_num)
    · cases hSub
  · cases hDuration

/- In whole half-lives the last access is no time ago. -/
theorem accessDecay_eq_zero
    (hProper : config.Proper)
    (hCutoff : staleCutoff config now = some cutoff)
    (hWhole : WholeAges config now r)
    (hRecent : cutoff ≤ r.lastAccessed) :
    decay (daysSince now r.lastAccessed /
      (config.typeConfig r.memoryType).halfLifeDays) = 0 := by
  have hLife := hProper.halfLife r.memoryType
  have hDays :=
    daysSince_lastAccessed_le hProper hCutoff hRecent
  have hMin := config.minHalfLifeDays_le r.memoryType
  have hMinPos := hProper.minHalfLifeDays_pos
  rcases hWhole.accessed with ⟨n, hn⟩
  have hLess : daysSince now r.lastAccessed /
      (config.typeConfig r.memoryType).halfLifeDays < 1 := by
    rw [div_lt_one hLife]
    linarith
  rw [hn] at hLess ⊢
  have hNone : n = 0 := by
    have hNat : n < 1 := by exact_mod_cast hLess
    omega
  rw [hNone]
  exact decay_zero

/-
  The age, the validation and the number of accesses alone
  leave the row below its threshold, or no score reaches it.
-/
def Spared
    (config : StalenessConfig Rat)
    (now : DateTime)
    (r : MemoryRow) : Prop :=
  1 < thresholdForType config r.memoryType ∨
    config.weights.age *
          decay (daysSince now r.createdAt /
            (config.typeConfig r.memoryType).halfLifeDays) +
        config.weights.validated *
          decay (daysSinceValidated now r /
            (config.typeConfig r.memoryType).halfLifeDays) +
        config.weights.count * countFreshness config r <
      thresholdForType config r.memoryType

/-
  A row that was read since the cutoff is spared if it does
  not reach its threshold, and only then.
-/
theorem spared_iff
    (hProper : config.Proper)
    (hCutoff : staleCutoff config now = some cutoff)
    (hWhole : WholeAges config now r)
    (hRecent : cutoff ≤ r.lastAccessed) :
    Spared config now r ↔ ¬ ReachesThreshold config now r := by
  have hAccess :=
    accessDecay_eq_zero hProper hCutoff hWhole hRecent
  have hAge := mul_nonneg hProper.age
    (decay_nonneg (daysSince now r.createdAt /
      (config.typeConfig r.memoryType).halfLifeDays))
  have hValidated := mul_nonneg hProper.validated
    (decay_nonneg (daysSinceValidated now r /
      (config.typeConfig r.memoryType).halfLifeDays))
  have hCount := mul_nonneg hProper.count
    (countFreshness_nonneg hProper (m := r))
  unfold Spared ReachesThreshold stalenessScore
  dsimp only
  rw [hAccess, mul_zero, add_zero,
    max_eq_right (le_min zero_le_one (by linarith)), not_le,
    min_lt_iff]

/-
  What the response says of stale memories: those that the
  cutoff selects are all there are, and the two counts of
  them agree.
-/
structure StaleCountAgrees
    (config : StalenessConfig Rat)
    (db : Sqlite)
    (now : DateTime)
    (ns : String)
    (cutoff : DateTime)
    (resp : StatsResponse) : Prop where
  candidates :
    ∀ r ∈ db.memories, ValidIn ns r →
      ReachesThreshold config now r →
        r ∈ (db.getStaleCandidates ns cutoff).map
          Memory.toMemoryRow
  counts :
    ∀ details, resp.details = some details →
      resp.needsAttention.staleCount =
        details.stalenessDistribution.stale

/-
  The cutoff selects all stale memories exactly if it can be
  computed and spares the ones accessed since.
-/
theorem stale_prefilter_sound_iff
    {size : Nat} {req : StatsRequest}
    (hProper : config.Proper)
    (hRows : Table.KeyUnique MemoryRow.id db.memories)
    (hScan :
      (db.listAllMemoryIds req.namespace).length ≤
        maxScanMemories)
    (hWhole :
      ∀ r ∈ db.memories, ValidIn req.namespace r →
        WholeAges config now r) :
    (∃ cutoff resp, staleCutoff config now = some cutoff ∧
      stats config db size now req = some resp ∧
        StaleCountAgrees config db now req.namespace cutoff
          resp) ↔
    ∃ cutoff, staleCutoff config now = some cutoff ∧
      ∀ r ∈ db.memories, ValidIn req.namespace r →
        cutoff ≤ r.lastAccessed → Spared config now r := by
  constructor
  · rintro ⟨cutoff, resp, hCutoff, _, hAgrees⟩
    refine ⟨cutoff, hCutoff, ?_⟩
    intro r hr hValidIn hRecent
    refine (spared_iff hProper hCutoff (hWhole r hr hValidIn)
      hRecent).mpr ?_
    intro hReaches
    have hBefore :=
      (mem_getStaleCandidates_iff hr hValidIn).mp
        (hAgrees.candidates r hr hValidIn hReaches)
    exact absurd hRecent (not_le.mpr hBefore)
  · rintro ⟨cutoff, hCutoff, hSpared⟩
    have hBefore :
        ∀ r ∈ db.memories, ValidIn req.namespace r →
          ReachesThreshold config now r →
            r.lastAccessed < cutoff := by
      intro r hr hValidIn hReaches
      by_contra hRecent
      rw [not_lt] at hRecent
      exact (spared_iff hProper hCutoff (hWhole r hr hValidIn)
        hRecent).mp (hSpared r hr hValidIn hRecent) hReaches
    refine ⟨cutoff, _, hCutoff,
      congrArg (Option.map _) hCutoff, ?_, ?_⟩
    · intro r hr hValidIn hReaches
      exact (mem_getStaleCandidates_iff hr hValidIn).mpr
        (hBefore r hr hValidIn hReaches)
    · intro details hDetails
      dsimp only at hDetails ⊢
      split at hDetails
      · cases hDetails
        rw [stale_buildStatsDetails hRows hScan,
          countP_getStaleCandidates]
        apply List.countP_congr
        intro r hr
        rw [decide_eq_true_iff, decide_eq_true_iff]
        exact ⟨fun h => h.1,
          fun h => ⟨h, hBefore r hr h.1 h.2⟩⟩
      · cases hDetails

end Cutoff

------------------------------------------------------------
-- A Popular Memory
------------------------------------------------------------

/- A note of the start of 1970, with its last access. -/
private def oldNote (lastAccessed : DateTime) : MemoryRow where
  id := "note"
  «namespace» := "main"
  memoryType := .episodic
  content := some "tea"
  subject := none
  predicate := none
  object := none
  confidence := 1
  source := none
  context := none
  createdAt := 0
  updatedAt := 0
  tValid := none
  tInvalid := none
  lastAccessed := lastAccessed
  lastValidated := none
  accessCount := 1
  normalizedPredicate := none

/- A database with one memory. -/
private def onlyNote (lastAccessed : DateTime) : Sqlite where
  memories := [oldNote lastAccessed]
  entities := []
  entityAliases := []
  memoryEntities := []
  pendingOps := []
  completedOps := []

/- Four half-lives of an episodic memory. -/
private def fourHalfLives : DateTime := 120 * 86400000000000

/- Its ages are whole half-lives. -/
private theorem oldNote_whole
    {lastAccessed : DateTime} {n : Nat}
    (hAccessed :
      daysSince fourHalfLives lastAccessed / 30 = n) :
    WholeAges .default fourHalfLives (oldNote lastAccessed) where
  created :=
    ⟨4, (by decide +kernel :
      daysSince fourHalfLives 0 / 30 = (4 : Nat))⟩
  accessed := ⟨n, hAccessed⟩
  validated :=
    ⟨4, (by decide +kernel :
      daysSince fourHalfLives 0 / 30 = (4 : Nat))⟩

/-
  With the default configuration: a note is stale by its age
  although it was accessed just now, and is not counted.
-/
theorem stale_prefilter_misses_popular :
    StalenessConfig.default.Proper ∧
      WholeAges .default fourHalfLives
        (oldNote fourHalfLives) ∧
      ValidIn "main" (oldNote fourHalfLives) ∧
      ReachesThreshold .default fourHalfLives
        (oldNote fourHalfLives) ∧
      ∃ cutoff resp details,
        staleCutoff .default fourHalfLives = some cutoff ∧
          (onlyNote fourHalfLives).getStaleCandidates "main"
            cutoff = [] ∧
          stats .default (onlyNote fourHalfLives) 0
            fourHalfLives ⟨"main", some true⟩ = some resp ∧
          resp.details = some details ∧
          resp.needsAttention.staleCount = 0 ∧
          details.stalenessDistribution.stale = 1 := by
  refine ⟨StalenessConfig.default_proper,
    oldNote_whole (n := 0) (by decide +kernel),
    by decide +kernel, by decide +kernel, ?_⟩
  have hStats :
      (stats .default (onlyNote fourHalfLives) 0
        fourHalfLives ⟨"main", some true⟩).any
          (fun resp =>
            decide (resp.needsAttention.staleCount = 0) &&
              resp.details.any
                (fun details => decide
                  (details.stalenessDistribution.stale = 1))) =
        true := by
    decide +kernel
  have hCandidates :
      (staleCutoff .default fourHalfLives).any
        (fun cutoff =>
          ((onlyNote fourHalfLives).getStaleCandidates "main"
            cutoff).isEmpty) = true := by
    decide +kernel
  rcases (Option.any_eq_true _ _).mp hCandidates with
    ⟨cutoff, hCutoff, hEmpty⟩
  rcases (Option.any_eq_true _ _).mp hStats with
    ⟨resp, hResp, hCounts⟩
  rw [Bool.and_eq_true, decide_eq_true_iff] at hCounts
  rcases (Option.any_eq_true _ _).mp hCounts.2 with
    ⟨details, hDetails, hStale⟩
  exact ⟨cutoff, resp, details, hCutoff,
    List.isEmpty_iff.mp hEmpty, hResp, hDetails, hCounts.1,
    of_decide_eq_true hStale⟩

/- A note of today beside one that is not accessed. -/
private def newNote : MemoryRow :=
  { oldNote fourHalfLives with
    id := "new"
    createdAt := fourHalfLives }

/- Two memories. -/
private def twoNotes : Sqlite :=
  { onlyNote 0 with memories := [oldNote 0, newNote] }

/- The ages of the new note are whole half-lives. -/
private theorem newNote_whole :
    WholeAges .default fourHalfLives newNote where
  created :=
    ⟨0, (by decide +kernel :
      daysSince fourHalfLives fourHalfLives / 30 = (0 : Nat))⟩
  accessed :=
    ⟨0, (by decide +kernel :
      daysSince fourHalfLives fourHalfLives / 30 = (0 : Nat))⟩
  validated :=
    ⟨0, (by decide +kernel :
      daysSince fourHalfLives fourHalfLives / 30 = (0 : Nat))⟩

/-
  A stale note, and one that was accessed after the cutoff
  and is spared: the stale one is counted.
-/
theorem stale_prefilter_sound_unpopular :
    ∃ cutoff resp,
      staleCutoff .default fourHalfLives = some cutoff ∧
        cutoff ≤ newNote.lastAccessed ∧
        ReachesThreshold .default fourHalfLives (oldNote 0) ∧
        stats .default twoNotes 0 fourHalfLives
          ⟨"main", some true⟩ = some resp ∧
        StaleCountAgrees .default twoNotes fourHalfLives
          "main" cutoff resp := by
  have hCutoff :
      (staleCutoff .default fourHalfLives).any
        (fun cutoff =>
          decide (0 < cutoff ∧ cutoff ≤ fourHalfLives)) =
        true := by
    decide +kernel
  rcases (Option.any_eq_true _ _).mp hCutoff with
    ⟨cutoff, hSome, hBetween⟩
  rcases of_decide_eq_true hBetween with ⟨hLate, hRecent⟩
  have hSpared :
      Spared .default fourHalfLives newNote := by
    unfold Spared
    decide +kernel
  have hWhole :
      ∀ r ∈ twoNotes.memories, ValidIn "main" r →
        WholeAges .default fourHalfLives r := by
    intro r hr _
    rcases List.mem_cons.mp hr with rfl | hr
    · exact oldNote_whole (n := 4) (by decide +kernel)
    · rw [List.mem_singleton.mp hr]
      exact newNote_whole
  have hAgrees :
      ∃ cutoff resp,
        staleCutoff .default fourHalfLives = some cutoff ∧
          stats .default twoNotes 0 fourHalfLives
            ⟨"main", some true⟩ = some resp ∧
          StaleCountAgrees .default twoNotes fourHalfLives
            "main" cutoff resp := by
    refine (stale_prefilter_sound_iff
      StalenessConfig.default_proper
      (by decide +kernel :
        (twoNotes.memories.map MemoryRow.id).Nodup)
      (by decide +kernel) hWhole).mpr ⟨cutoff, hSome, ?_⟩
    intro r hr _ hSince
    rcases List.mem_cons.mp hr with rfl | hr
    · exact absurd hSince (not_le.mpr hLate)
    · rw [List.mem_singleton.mp hr]
      exact hSpared
  rcases hAgrees with ⟨cutoff', resp, hSome', hStats, hSame⟩
  obtain rfl : cutoff = cutoff' :=
    Option.some.inj (hSome.symm.trans hSome')
  exact ⟨cutoff, resp, hSome, hRecent, by decide +kernel,
    hStats, hSame⟩

end Core

end Ferrex
