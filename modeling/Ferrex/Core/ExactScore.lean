import Mathlib.Analysis.SpecialFunctions.Log.Basic
import Ferrex.Lib.Extended
import Ferrex.Core.Config

/-
  The staleness score over exact numbers, for any loaded
  configuration: where it divides by zero, where it is no
  number, and what of a configuration decides it.

  Main declarations:
    * `ConfigFloat.exact`, `exactDecay`, `exactScore`
    * `exactScore_map`
    * `IsScore`, `ScoreDefinedAt`, `ScoreDefined`
    * `isScore_iff_definedAt`
    * `staleness_defined_iff`
    * `staleness_undefined`
-/

------------------------------------------------------------
-- The Score
------------------------------------------------------------

namespace Ferrex

namespace Core

open Store Extended

noncomputable section

def ConfigFloat.exact : ConfigFloat → Extended ℝ
| .finite x => .num (x : ℝ)
| .infinite negative => .inf negative
| .nan => .nan

def exactExp : Extended ℝ → Extended ℝ
| .num x => .num (Real.exp x)
| .inf negative => if negative then .num 0 else .inf false
| .nan => .nan

def exactDecay
    (days : Rat)
    (halfLife : Extended ℝ) : Option (Extended ℝ) := do
  let power ← div (.num (-Real.log 2 * days)) halfLife
  return add (.num 1) (neg (exactExp power))

/- There is none where one of the divisors is zero. -/
def exactScore
    (config : StalenessConfig ConfigFloat)
    (m : MemoryRow)
    (now : DateTime) : Option (Extended ℝ) := do
  let halfLife :=
    (config.typeConfig m.memoryType).halfLifeDays.exact
  let ageDecay ← exactDecay (daysSince now m.createdAt) halfLife
  let accessDecay ←
    exactDecay (daysSince now m.lastAccessed) halfLife
  let validationDecay ←
    exactDecay (daysSinceValidated now m) halfLife
  let scaled ← div (.num (m.accessCount : ℝ)) config.countScale.exact
  let countFreshness ← div (.num 1) (add (.num 1) scaled)
  let w := config.weights
  return clamp 0 1
    (add
      (add
        (add (mul w.age.exact ageDecay)
          (mul w.access.exact accessDecay))
        (mul w.validated.exact validationDecay))
      (mul w.count.exact countFreshness))

end

/- A number between zero and one. -/
def IsScore (score : Option (Extended ℝ)) : Prop :=
  ∃ x, score = some (.num x) ∧ 0 ≤ x ∧ x ≤ 1

/- The factor of the count is less than zero. -/
def ConfigFloat.flips (scale : ConfigFloat) (n : Nat) : Bool :=
  match scale with
  | .finite x => decide (-(n : Rat) < x ∧ x < 0)
  | _ => false

/- An infinite weight needs some time to weigh. -/
def Weighs
    (weight : ConfigFloat)
    (side : Bool)
    (days : Rat) : Prop :=
  weight.isFinite = true ∨ 0 < days ∧ weight = .infinite side

/-
  No divisor is zero, no value is `nan`, and infinite weights
  all pull to one side.
-/
structure ScoreDefinedAt
    (config : StalenessConfig ConfigFloat)
    (m : MemoryRow)
    (now : DateTime) : Prop where
  scale : config.countScale ≠ .nan
  zero : config.countScale ≠ .finite 0
  count : config.countScale ≠ .finite (-m.accessCount)
  weights : ∃ side,
    Weighs config.weights.age side
        (daysSince now m.createdAt) ∧
      Weighs config.weights.access side
        (daysSince now m.lastAccessed) ∧
      Weighs config.weights.validated side
        (daysSinceValidated now m) ∧
      (config.weights.count.isFinite = true ∨
        config.weights.count =
          .infinite
            (side.xor (config.countScale.flips m.accessCount)))

/-
  The weights are numbers, but the one of the count may be
  infinite; the scale may be too, and is not what makes a
  divisor zero for some count of accesses.
-/
structure ScoreDefined
    (config : StalenessConfig ConfigFloat) : Prop where
  age : config.weights.age.isFinite = true
  access : config.weights.access.isFinite = true
  validated : config.weights.validated.isFinite = true
  count : config.weights.count ≠ .nan
  scale : config.countScale ≠ .nan
  counts : ∀ n : Nat, n < 2 ^ 64 →
    config.countScale ≠ .finite (-n)

------------------------------------------------------------
-- Decays
------------------------------------------------------------

/- What has decayed after some days. -/
noncomputable def lost (days halfLife : Rat) : ℝ :=
  1 - Real.exp (-Real.log 2 * days / halfLife)

variable {days halfLife : Rat}

theorem exactDecay_eq
    (hPos : 0 < halfLife)
    (days : Rat) :
    exactDecay days (ConfigFloat.finite halfLife).exact =
      some (.num (lost days halfLife)) := by
  have hReal : ((halfLife : Rat) : ℝ) ≠ 0 := by
    exact_mod_cast hPos.ne'
  unfold exactDecay ConfigFloat.exact lost
  rw [div_num hReal]
  change some (Extended.num _) = _
  rw [← sub_eq_add_neg]

theorem lost_zero (halfLife : Rat) : lost 0 halfLife = 0 := by
  simp [lost]

theorem lost_pos
    (hPos : 0 < halfLife)
    (hDays : 0 < days) :
    0 < lost days halfLife := by
  have hLog : 0 < Real.log 2 := Real.log_pos one_lt_two
  have hDaysReal : (0 : ℝ) < days := by exact_mod_cast hDays
  have hPosReal : (0 : ℝ) < halfLife := by exact_mod_cast hPos
  have hPower : -Real.log 2 * days / halfLife < 0 := by
    rw [neg_mul, neg_div]
    exact neg_neg_of_pos (by positivity)
  unfold lost
  linarith [Real.exp_lt_one_iff.mpr hPower]

theorem daysSince_nonneg
    (now t : DateTime) :
    0 ≤ daysSince now t := by
  unfold daysSince secondsPerDay
  apply div_nonneg
  · exact_mod_cast le_max_right _ _
  · norm_num

theorem daysSinceValidated_nonneg
    (now : DateTime)
    (m : MemoryRow) :
    0 ≤ daysSinceValidated now m := by
  unfold daysSinceValidated
  split <;> exact daysSince_nonneg _ _

theorem daysSince_self (now : DateTime) : daysSince now now = 0 := by
  simp [daysSince]

------------------------------------------------------------
-- Weights and Freshness
------------------------------------------------------------

theorem isNum_exact_iff
    {f : ConfigFloat} :
    f.exact.IsNum ↔ f.isFinite = true := by
  cases f <;> simp [ConfigFloat.exact, IsNum,
    ConfigFloat.isFinite]

theorem onSide_exact_iff
    {f : ConfigFloat} {side : Bool} :
    f.exact.OnSide side ↔
      f.isFinite = true ∨ f = .infinite side := by
  cases f <;> simp [ConfigFloat.exact, OnSide,
    ConfigFloat.isFinite]

theorem onSide_mul_exact_iff
    {f : ConfigFloat} {side : Bool} {b : ℝ} :
    (mul f.exact (.num b)).OnSide side ↔
      f.isFinite = true ∨
        b ≠ 0 ∧ f = .infinite (side.xor (decide (b < 0))) := by
  rw [onSide_mul_num, isNum_exact_iff, onSide_exact_iff]
  constructor
  · rintro (hFinite | ⟨hb, hFinite | hInfinite⟩)
    · exact Or.inl hFinite
    · exact Or.inl hFinite
    · exact Or.inr ⟨hb, hInfinite⟩
  · rintro (hFinite | ⟨hb, hInfinite⟩)
    · exact Or.inl hFinite
    · exact Or.inr ⟨hb, Or.inr hInfinite⟩

theorem onSide_lost_iff
    {weight : ConfigFloat} {side : Bool}
    (hPos : 0 < halfLife)
    (hDays : 0 ≤ days) :
    (mul weight.exact (.num (lost days halfLife))).OnSide side ↔
      Weighs weight side days := by
  rw [onSide_mul_exact_iff, Weighs]
  rcases hDays.eq_or_lt with hZero | hLater
  · rw [← hZero, lost_zero]
    simp
  · have hLost := lost_pos hPos hLater
    rw [decide_eq_false (not_lt.mpr hLost.le), Bool.xor_false]
    simp [hLater, hLost.ne']

/- One plus the scaled count, and when it is negative. -/
theorem one_add_div_neg_iff
    {s : Rat} {n : Nat}
    (hZero : s ≠ 0) :
    1 + (n : ℝ) / s < 0 ↔ -(n : Rat) < s ∧ s < 0 := by
  have hs : (s : ℝ) ≠ 0 := by exact_mod_cast hZero
  have hSum : 1 + (n : ℝ) / s = (s + n) / s := by
    field_simp
  have hCast :
      (-(n : Rat) < s ∧ s < 0) ↔ 0 < (s + n : ℝ) ∧ (s : ℝ) < 0 := by
    rw [neg_lt_iff_pos_add]
    exact_mod_cast Iff.rfl
  rw [hSum, hCast, div_neg_iff]
  constructor
  · rintro (h | ⟨hNeg, hScale⟩)
    · exact h
    · have hCount : (0 : ℝ) ≤ n := Nat.cast_nonneg n
      linarith
  · exact Or.inl

/- The factor of the accesses, where the scale has one. -/
theorem exists_freshness
    {scale : ConfigFloat} {n : Nat}
    (hScale : scale ≠ .nan)
    (hZero : scale ≠ .finite 0)
    (hCount : scale ≠ .finite (-n)) :
    ∃ scaled freshness, freshness ≠ 0 ∧
      decide (freshness < 0) = scale.flips n ∧
      div (.num (n : ℝ)) scale.exact = some (.num scaled) ∧
      div (.num 1) (add (.num 1) (.num scaled)) =
        some (.num freshness) := by
  cases scale with
  | finite s =>
      have hRat : s ≠ 0 := fun h => hZero (congrArg _ h)
      have hs : (s : ℝ) ≠ 0 := by exact_mod_cast hRat
      have hSum : 1 + (n : ℝ) / s ≠ 0 := by
        intro h
        apply hCount
        have hMinus : (s : ℝ) = -n := by
          field_simp at h
          linarith
        rw [show s = -(n : Rat) by exact_mod_cast hMinus]
      refine ⟨(n : ℝ) / s, 1 / (1 + (n : ℝ) / s),
        one_div_ne_zero hSum, ?_, div_num hs, ?_⟩
      · apply decide_eq_decide.mpr
        rw [one_div_neg, one_add_div_neg_iff hRat]
      · rw [add_num]
        exact div_num hSum
  | infinite negative =>
      refine ⟨0, 1, one_ne_zero, ?_, rfl, ?_⟩
      · exact decide_eq_false (not_lt.mpr zero_le_one)
      · rw [add_num, add_zero, div_num one_ne_zero, div_one]
  | nan => exact absurd rfl hScale

/- A scale with a factor of the accesses is none of these. -/
theorem of_freshness
    {scale : ConfigFloat} {n : Nat}
    {scaled freshness : Extended ℝ}
    (hScaled : div (.num (n : ℝ)) scale.exact = some scaled)
    (hFreshness :
      div (.num 1) (add (.num 1) scaled) = some freshness)
    (hFactor : freshness ≠ .nan) :
    scale ≠ .nan ∧ scale ≠ .finite 0 ∧
      scale ≠ .finite (-n) := by
  refine ⟨?_, ?_, ?_⟩
  · rintro rfl
    cases hScaled
    cases hFreshness
    exact hFactor rfl
  · rintro rfl
    exact ne_zero_of_div hScaled Rat.cast_zero
  · rintro rfl
    have hScale := ne_zero_of_div hScaled
    rw [ConfigFloat.exact, div_num hScale] at hScaled
    cases hScaled
    rw [add_num] at hFreshness
    apply ne_zero_of_div hFreshness
    push_cast at hScale ⊢
    rw [div_neg, div_self (neg_ne_zero.mp hScale)]
    norm_num

------------------------------------------------------------
-- Defined Scores
------------------------------------------------------------

variable {config : StalenessConfig ConfigFloat}
variable {m : MemoryRow} {now : DateTime}

/- What is clamped, with the factor of the accesses. -/
noncomputable def weighted
    (config : StalenessConfig ConfigFloat)
    (m : MemoryRow)
    (now : DateTime)
    (halfLife : Rat)
    (freshness : Extended ℝ) : Extended ℝ :=
  add
    (add
      (add
        (mul config.weights.age.exact
          (.num (lost (daysSince now m.createdAt) halfLife)))
        (mul config.weights.access.exact
          (.num (lost (daysSince now m.lastAccessed) halfLife))))
      (mul config.weights.validated.exact
        (.num (lost (daysSinceValidated now m) halfLife))))
    (mul config.weights.count.exact freshness)

theorem exactScore_eq
    (hHalfLife :
      (config.typeConfig m.memoryType).halfLifeDays =
        .finite halfLife)
    (hPos : 0 < halfLife) :
    exactScore config m now =
      (div (.num (m.accessCount : ℝ)) config.countScale.exact).bind
        (fun scaled =>
          (div (.num 1) (add (.num 1) scaled)).map
            (fun freshness =>
              clamp 0 1
                (weighted config m now halfLife freshness))) := by
  unfold exactScore
  rw [hHalfLife]
  simp only [exactDecay_eq hPos, Option.bind_eq_bind,
    Option.bind_some, Option.pure_def, Option.map_eq_bind]
  rfl

/- With rational values, after whole numbers of half-lives. -/
theorem exactScore_map
    {config : StalenessConfig Rat}
    (hProper : config.Proper)
    (hWhole : WholeAges config now m) :
    exactScore (config.map .finite) m now =
      some (.num (stalenessScore config m now : ℝ)) := by
  have hScale : (config.countScale : ℝ) ≠ 0 := by
    exact_mod_cast hProper.countScale.ne'
  have hSum : 1 + (m.accessCount : ℝ) / config.countScale ≠ 0 := by
    have hPos : (0 : ℝ) < config.countScale := by
      exact_mod_cast hProper.countScale
    positivity
  have hLost :
      ∀ {days halfLife : Rat},
        (∃ n : Nat, days / halfLife = n) →
          lost days halfLife = decay (days / halfLife) := by
    rintro days halfLife ⟨n, hn⟩
    exact (cast_decay hn).symm
  rw [exactScore_eq rfl (hProper.halfLife m.memoryType)]
  unfold weighted
  rw [hLost hWhole.created, hLost hWhole.accessed,
    hLost hWhole.validated]
  change Option.bind (div _ (.num (config.countScale : ℝ))) _ = _
  rw [div_num hScale, Option.bind_some, add_num, div_num hSum,
    Option.map_some]
  simp only [StalenessConfig.map, ConfigFloat.exact, mul, add,
    clamp, stalenessScore, countFreshness]
  push_cast
  rfl

theorem isScore_clamp
    {x : Extended ℝ} :
    IsScore (some (clamp 0 1 x)) ↔ x ≠ .nan := by
  rw [clamp_eq_num zero_le_one]
  simp only [IsScore, Option.some.injEq]

/- A score has all its quotients, and a sum to clamp. -/
theorem isScore_iff
    (hHalfLife :
      (config.typeConfig m.memoryType).halfLifeDays =
        .finite halfLife)
    (hPos : 0 < halfLife) :
    IsScore (exactScore config m now) ↔
      ∃ scaled freshness,
        div (.num (m.accessCount : ℝ)) config.countScale.exact =
            some scaled ∧
          div (.num 1) (add (.num 1) scaled) =
            some freshness ∧
          weighted config m now halfLife freshness ≠ .nan := by
  rw [exactScore_eq hHalfLife hPos]
  constructor
  · rintro ⟨x, hx, hLow, hHigh⟩
    rcases Option.bind_eq_some_iff.mp hx with
      ⟨scaled, hScaled, hRest⟩
    rcases Option.map_eq_some_iff.mp hRest with
      ⟨freshness, hFreshness, hClamp⟩
    refine ⟨scaled, freshness, hScaled, hFreshness, ?_⟩
    rw [clamp_eq_num zero_le_one]
    exact ⟨x, hClamp, hLow, hHigh⟩
  · rintro ⟨scaled, freshness, hScaled, hFreshness, hSum⟩
    rw [hScaled, Option.bind_some, hFreshness, Option.map_some]
    exact isScore_clamp.mpr hSum

/- The weights and the values they weigh. -/
theorem weighted_ne_nan_iff
    {freshness : Extended ℝ}
    (hPos : 0 < halfLife) :
    weighted config m now halfLife freshness ≠ .nan ↔
      ∃ side,
        Weighs config.weights.age side
            (daysSince now m.createdAt) ∧
          Weighs config.weights.access side
            (daysSince now m.lastAccessed) ∧
          Weighs config.weights.validated side
            (daysSinceValidated now m) ∧
          (mul config.weights.count.exact
            freshness).OnSide side := by
  rw [ne_nan_iff]
  apply exists_congr
  intro side
  unfold weighted
  rw [onSide_add, onSide_add, onSide_add,
    onSide_lost_iff hPos (daysSince_nonneg _ _),
    onSide_lost_iff hPos (daysSince_nonneg _ _),
    onSide_lost_iff hPos (daysSinceValidated_nonneg _ _),
    and_assoc, and_assoc]

/- A memory has a score exactly where its values allow it. -/
theorem isScore_iff_definedAt
    (hHalfLife :
      (config.typeConfig m.memoryType).halfLifeDays =
        .finite halfLife)
    (hPos : 0 < halfLife) :
    IsScore (exactScore config m now) ↔
      ScoreDefinedAt config m now := by
  rw [isScore_iff hHalfLife hPos]
  constructor
  · rintro ⟨scaled, freshness, hScaled, hFreshness, hSum⟩
    rw [weighted_ne_nan_iff hPos] at hSum
    rcases hSum with ⟨side, hAge, hAccess, hValidated, hCount⟩
    have hFactor : freshness ≠ .nan := by
      rintro rfl
      cases hWeight : config.weights.count.exact <;>
        simp [hWeight, mul, OnSide] at hCount
    rcases of_freshness hScaled hFreshness hFactor with
      ⟨hScale, hZero, hNeg⟩
    rcases exists_freshness hScale hZero hNeg with
      ⟨scaled', freshness', hFresh, hFlips, hScaled',
        hFreshness'⟩
    cases hScaled.symm.trans hScaled'
    cases hFreshness.symm.trans hFreshness'
    refine ⟨hScale, hZero, hNeg, side, hAge, hAccess,
      hValidated, ?_⟩
    rw [onSide_mul_exact_iff, hFlips] at hCount
    exact hCount.imp_right And.right
  · intro hDefined
    rcases exists_freshness hDefined.scale hDefined.zero
      hDefined.count with
      ⟨scaled, freshness, hFresh, hFlips, hScaled, hFreshness⟩
    refine ⟨_, _, hScaled, hFreshness, ?_⟩
    rw [weighted_ne_nan_iff hPos]
    rcases hDefined.weights with
      ⟨side, hAge, hAccess, hValidated, hCount⟩
    refine ⟨side, hAge, hAccess, hValidated, ?_⟩
    rw [onSide_mul_exact_iff, hFlips]
    exact hCount.imp_right (And.intro hFresh)

/- A memory of this instant, with a count of accesses. -/
def newRow (now : DateTime) (accessCount : Nat) : MemoryRow where
  id := "memory"
  «namespace» := "default"
  memoryType := .episodic
  content := none
  subject := none
  predicate := none
  object := none
  confidence := 1
  source := none
  context := none
  createdAt := now
  updatedAt := now
  tValid := none
  tInvalid := none
  lastAccessed := now
  lastValidated := none
  accessCount := accessCount
  normalizedPredicate := none

/- Nothing of a new memory has decayed. -/
theorem weighs_newRow_iff
    {weight : ConfigFloat} {side : Bool} :
    Weighs weight side (daysSince now now) ↔
      weight.isFinite = true := by
  rw [daysSince_self]
  simp [Weighs]

/- All memories have scores exactly if the values allow it. -/
theorem forall_definedAt_iff :
    (∀ m now, m.accessCount < 2 ^ 64 →
      ScoreDefinedAt config m now) ↔
        ScoreDefined config := by
  constructor
  · intro hAll
    have hNew := hAll (newRow 0 0) 0 (Nat.two_pow_pos 64)
    rcases hNew.weights with
      ⟨side, hAge, hAccess, hValidated, hCount⟩
    refine ⟨weighs_newRow_iff.mp hAge,
      weighs_newRow_iff.mp hAccess,
      weighs_newRow_iff.mp hValidated, ?_, hNew.scale, ?_⟩
    · intro hNan
      rw [hNan] at hCount
      rcases hCount with hCount | hCount <;> cases hCount
    · intro n hn
      exact (hAll (newRow 0 n) 0 hn).count
  · intro hDefined m now hCount
    have hZero := hDefined.counts 0 (Nat.two_pow_pos 64)
    rw [Nat.cast_zero, neg_zero] at hZero
    refine ⟨hDefined.scale, hZero,
      hDefined.counts m.accessCount hCount, ?_⟩
    let flips := config.countScale.flips m.accessCount
    cases hWeight : config.weights.count with
    | finite x =>
        exact ⟨true, Or.inl hDefined.age,
          Or.inl hDefined.access, Or.inl hDefined.validated,
          Or.inl rfl⟩
    | infinite negative =>
        refine ⟨negative.xor flips, Or.inl hDefined.age,
          Or.inl hDefined.access, Or.inl hDefined.validated,
          Or.inr ?_⟩
        rw [Bool.xor_assoc, Bool.xor_self, Bool.xor_false]
    | nan => exact absurd hWeight hDefined.count

/-
  Under an accepted configuration a memory has a score at a
  time if and only if their values allow it, and all memories
  have one at all times if and only if the configuration does.
-/
theorem staleness_defined_iff
    {cfg : LoadedConfig}
    (hAccepted : Config.Accepted cfg) :
    (∀ m now,
      IsScore (exactScore cfg.staleness m now) ↔
        ScoreDefinedAt cfg.staleness m now) ∧
    ((∀ m now, m.accessCount < 2 ^ 64 →
        IsScore (exactScore cfg.staleness m now)) ↔
      ScoreDefined cfg.staleness) := by
  rcases Config.accepted_iff.mp hAccepted with
    ⟨_, _, hValid⟩
  rcases Config.validate_eq_ok_iff.mp hValid with
    ⟨_, _, hTypes⟩
  have hMemories : ∀ m now,
      IsScore (exactScore cfg.staleness m now) ↔
        ScoreDefinedAt cfg.staleness m now := by
    intro m now
    rcases hTypes m.memoryType with
      ⟨halfLife, hHalfLife, hPos⟩
    exact isScore_iff_definedAt hHalfLife hPos
  refine ⟨hMemories, ?_⟩
  simp only [hMemories]
  exact forall_definedAt_iff

theorem scoreDefined_default :
    ScoreDefined
      (Config.resolve FileConfig.default).staleness where
  age := rfl
  access := rfl
  validated := rfl
  count h := by cases h
  scale h := by cases h
  counts n hn := by
    intro h
    have hScale : (10 : Rat) = -n := ConfigFloat.finite.inj h
    have hNonneg : (0 : Rat) ≤ n := Nat.cast_nonneg n
    linarith

/- An empty file, and a memory of the first of the times. -/
theorem staleness_defined_iff_default :
    IsScore
      (exactScore (Config.resolve FileConfig.default).staleness
        (newRow 0 3) 0) := by
  have hIff :=
    staleness_defined_iff (Config.accepted_groups .empty)
  exact hIff.2.mpr scoreDefined_default (newRow 0 3) 0
    (by norm_num [newRow])

/- A file that only sets the scale of the access counts. -/
def countScaleFile (scale : ConfigFloat) : FileConfig :=
  { FileConfig.default with
    staleness :=
      { FileConfig.default.staleness with
        countScale := some scale } }

theorem accepted_countScale (scale : ConfigFloat) :
    Config.Accepted (Config.resolve (countScaleFile scale)) := by
  refine Config.accepted_of_halfLives rfl ?_
  intro ty
  exact ⟨_, by cases ty <;> rfl,
    StalenessConfig.default_proper.halfLife ty⟩

/- A scale of zero is accepted, and divides every count. -/
theorem staleness_undefined :
    ¬ ∀ cfg m now, Config.Accepted cfg →
      m.accessCount < 2 ^ 64 →
        IsScore (exactScore cfg.staleness m now) := by
  intro hAll
  have hScore := hAll _ (newRow 0 0) 0
    (accepted_countScale (.finite 0)) (by norm_num [newRow])
  have hPos := StalenessConfig.default_proper.halfLife
    .episodic
  rw [isScore_iff_definedAt rfl hPos] at hScore
  exact hScore.zero rfl

end Core

end Ferrex
