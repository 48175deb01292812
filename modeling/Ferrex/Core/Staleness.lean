import Mathlib.Analysis.SpecialFunctions.Log.Basic
import Ferrex.Core.Recall

/-
  The staleness of a memory: a weighted sum of how far its
  age, its last access, its last validation and the number
  of its accesses have decayed, each with the half-life of
  its type.  Scores are exact at ages that are whole numbers
  of half-lives.

  Main declarations:
    * `StalenessConfig`, `StalenessConfig.default`
    * `StalenessConfig.minHalfLifeDays`
    * `decay`, `cast_decay`
    * `stalenessScore`, `StalenessConfig.scoring`
    * `WholeAges`
-/

------------------------------------------------------------
-- Configuration
------------------------------------------------------------

namespace Ferrex

namespace Core

open Store

/- `D` is the type of 64-bit floats. -/
structure StalenessWeights (D : Type) where
  age : D
  access : D
  validated : D
  count : D
deriving DecidableEq

/- A half-life and a threshold, for one type of memory. -/
structure TypeStalenessConfig (D : Type) where
  halfLifeDays : D
  staleThreshold : D
deriving DecidableEq

/- The map has an entry for every type of memory. -/
structure StalenessConfig (D : Type) where
  weights : StalenessWeights D
  countScale : D
  typeConfig : MemoryType → TypeStalenessConfig D

namespace StalenessConfig

/- The 64-bit floats nearest to the decimals of the source. -/
def default : StalenessConfig Rat where
  weights :=
    { age := 3602879701896397 / 9007199254740992
      access := 1 / 4
      validated := 1 / 4
      count := 3602879701896397 / 36028797018963968 }
  countScale := 10
  typeConfig
  | .episodic => ⟨30, 3152519739159347 / 4503599627370496⟩
  | .semantic => ⟨180, 3602879701896397 / 4503599627370496⟩
  | .procedural => ⟨365, 8106479329266893 / 9007199254740992⟩

/- The shortest half-life of all types. -/
def minHalfLifeDays (config : StalenessConfig Rat) : Rat :=
  min (config.typeConfig .episodic).halfLifeDays
    (min (config.typeConfig .semantic).halfLifeDays
      (config.typeConfig .procedural).halfLifeDays)

/-
  Half-lives and the count scale are positive, and no weight
  is negative.
-/
structure Proper (config : StalenessConfig Rat) : Prop where
  halfLife : ∀ ty, 0 < (config.typeConfig ty).halfLifeDays
  countScale : 0 < config.countScale
  age : 0 ≤ config.weights.age
  access : 0 ≤ config.weights.access
  validated : 0 ≤ config.weights.validated
  count : 0 ≤ config.weights.count

/- The defaults of the source are proper. -/
theorem default_proper : default.Proper where
  halfLife ty := by cases ty <;> decide +kernel
  countScale := by decide +kernel
  age := by decide +kernel
  access := by decide +kernel
  validated := by decide +kernel
  count := by decide +kernel

/- The shortest half-life is not longer than any. -/
theorem minHalfLifeDays_le
    (config : StalenessConfig Rat)
    (ty : MemoryType) :
    config.minHalfLifeDays ≤
      (config.typeConfig ty).halfLifeDays := by
  unfold minHalfLifeDays
  cases ty with
  | episodic => exact min_le_left _ _
  | semantic => exact (min_le_right _ _).trans (min_le_left _ _)
  | procedural =>
      exact (min_le_right _ _).trans (min_le_right _ _)

/- The shortest half-life is not zero. -/
theorem Proper.minHalfLifeDays_pos
    {config : StalenessConfig Rat}
    (hProper : config.Proper) :
    0 < config.minHalfLifeDays :=
  lt_min (hProper.halfLife _)
    (lt_min (hProper.halfLife _) (hProper.halfLife _))

end StalenessConfig

------------------------------------------------------------
-- Decay
------------------------------------------------------------

/-
  What is lost after some half-lives.  The exponential of
  the code is rational at whole numbers of them, and this is
  its value there; other ages are rounded down to these.
-/
def decay (halfLives : Rat) : Rat :=
  1 - (1 / 2) ^ halfLives.floor.toNat

/- After a whole number of half-lives this is exact. -/
theorem cast_decay
    {days halfLife : Rat} {n : Nat}
    (hWhole : days / halfLife = n) :
    ((decay (days / halfLife) : Rat) : ℝ) =
      1 - Real.exp (-Real.log 2 * days / halfLife) := by
  have hExp : -Real.log 2 * days / halfLife =
      n * Real.log (1 / 2) := by
    have hCast : (days : ℝ) / halfLife = n := by
      exact_mod_cast congrArg (Rat.cast (K := ℝ)) hWhole
    rw [mul_div_assoc, hCast, one_div, Real.log_inv]
    ring
  rw [hExp, hWhole, decay, Real.exp_nat_mul,
    Real.exp_log (by norm_num)]
  have hFloor : (n : Rat).floor.toNat = n := by
    rw [← Int.cast_natCast, Rat.floor_intCast,
      Int.toNat_natCast]
  rw [hFloor]
  push_cast
  ring

/- What was touched just now has not decayed. -/
theorem decay_zero : decay 0 = 0 := by
  decide +kernel

/- Decay never turns a part of the score negative. -/
theorem decay_nonneg (halfLives : Rat) : 0 ≤ decay halfLives := by
  unfold decay
  have hPower : ((1 : Rat) / 2) ^ halfLives.floor.toNat ≤ 1 :=
    pow_le_one₀ (by norm_num) (by norm_num)
  linarith

------------------------------------------------------------
-- Scores
------------------------------------------------------------

/- Scores are in days, and times in seconds. -/
def secondsPerDay : Rat := 86400

/- The days since an instant, none for one in the future. -/
def daysSince (now t : DateTime) : Rat :=
  (max (Int.tdiv (now - t) 1000000000) 0 : Int) /
    secondsPerDay

/-
  A row that was never validated counts from its creation.
-/
def daysSinceValidated (now : DateTime) (m : MemoryRow) : Rat :=
  match m.lastValidated with
  | some t => daysSince now t
  | none => daysSince now m.createdAt

/- A memory that is read often counts as fresh. -/
def countFreshness
    (config : StalenessConfig Rat)
    (m : MemoryRow) : Rat :=
  1 / (1 + m.accessCount / config.countScale)

/- The weighted sum of the four parts. -/
def stalenessScore
    (config : StalenessConfig Rat)
    (m : MemoryRow)
    (now : DateTime) : Rat :=
  let halfLife :=
    (config.typeConfig m.memoryType).halfLifeDays
  let ageDecay := decay (daysSince now m.createdAt / halfLife)
  let accessDecay :=
    decay (daysSince now m.lastAccessed / halfLife)
  let validationDecay :=
    decay (daysSinceValidated now m / halfLife)
  let w := config.weights
  max 0 (min 1
    (w.age * ageDecay + w.access * accessDecay +
      w.validated * validationDecay +
        w.count * countFreshness config m))

/- The threshold above which a type of memory is stale. -/
def thresholdForType
    (config : StalenessConfig Rat)
    (ty : MemoryType) : Rat :=
  (config.typeConfig ty).staleThreshold

/- The scores of recall, with any boost for recent rows. -/
def StalenessConfig.scoring
    (config : StalenessConfig Rat)
    (recencyBoost : MemoryType → Int → Rat) :
    Scoring Rat Rat where
  zero := 0
  recencyBoost := recencyBoost
  boosted score recency := score * recency
  stalenessScore m now := stalenessScore config m.toMemoryRow now
  threshold := thresholdForType config
  freshRatio threshold := threshold * (1 / 2)

/- The ages of a row are whole numbers of half-lives. -/
structure WholeAges
    (config : StalenessConfig Rat)
    (now : DateTime)
    (m : MemoryRow) : Prop where
  created :
    ∃ n : Nat, daysSince now m.createdAt /
      (config.typeConfig m.memoryType).halfLifeDays = n
  accessed :
    ∃ n : Nat, daysSince now m.lastAccessed /
      (config.typeConfig m.memoryType).halfLifeDays = n
  validated :
    ∃ n : Nat, daysSinceValidated now m /
      (config.typeConfig m.memoryType).halfLifeDays = n

variable {config : StalenessConfig Rat}
variable {now : DateTime} {m : MemoryRow}

/- A count is never negative. -/
theorem countFreshness_nonneg
    (hProper : config.Proper) :
    0 ≤ countFreshness config m := by
  have hScale := hProper.countScale
  unfold countFreshness
  positivity

/- A score is never negative. -/
theorem stalenessScore_nonneg : 0 ≤ stalenessScore config m now :=
  le_max_left _ _

/-
  The label of a memory is stale exactly if its score has
  reached the threshold.
-/
theorem freshnessLabel_eq_stale_iff
    {recencyBoost : MemoryType → Int → Rat}
    {score threshold : Rat}
    (hScore : 0 ≤ score) :
    freshnessLabel (config.scoring recencyBoost) score
        threshold = .stale ↔
      threshold ≤ score := by
  unfold freshnessLabel StalenessConfig.scoring
  dsimp only
  constructor
  · intro h
    split at h
    · cases h
    · split at h
      · cases h
      · exact not_lt.mp ‹_›
  · intro h
    rw [if_neg, if_neg (not_lt.mpr h)]
    intro hFresh
    linarith

end Core

end Ferrex
