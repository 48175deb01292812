import Ferrex.Core.Config
import Ferrex.Core.Stats

/-
  The stale cutoff of a loaded configuration: a float that
  becomes a number of days, a duration and a date, each with
  a range of its own.

  Main declarations:
    * `ConfigFloat.min`, `ConfigFloat.asI64`
    * `LoadedConfig.staleCutoff`
    * `stale_cutoff_iff`
    * `stale_cutoff_panics`
-/

------------------------------------------------------------
-- The Cutoff of a Configuration
------------------------------------------------------------

namespace Ferrex

namespace Core

open Store

namespace ConfigFloat

/- The other one where one of them is no number. -/
def min : ConfigFloat → ConfigFloat → ConfigFloat
| .nan, y => y
| x, .nan => x
| .infinite true, _ => .infinite true
| _, .infinite true => .infinite true
| .infinite false, y => y
| x, .infinite false => x
| .finite x, .finite y => .finite (Min.min x y)

def half : ConfigFloat → ConfigFloat
| .finite x => .finite (x / 2)
| x => x

/- The cast saturates, and makes a zero of what is no number. -/
def asI64 : ConfigFloat → Int
| .finite x => Core.asI64 x
| .infinite true => -2 ^ 63
| .infinite false => 2 ^ 63 - 1
| .nan => 0

end ConfigFloat

/- The fold over the types, in one of the orders of the map. -/
def StalenessConfig.minHalfLife
    (config : StalenessConfig ConfigFloat) : ConfigFloat :=
  ([.episodic, .semantic, .procedural].map
    (fun ty => (config.typeConfig ty).halfLifeDays)).foldl
      ConfigFloat.min (.infinite false)

/- The cutoff of `reflect` and of `stats`. -/
def LoadedConfig.staleCutoff
    (cfg : LoadedConfig)
    (now : DateTime) : Option DateTime :=
  (durationDays cfg.staleness.minHalfLife.half.asI64).bind
    (subDuration now)

/- The instants of the years 1970 to 9999. -/
def CurrentTime (now : Int) : Prop :=
  0 ≤ now ∧ now < 253402300800 * 1000000000

def nanosPerDay : Int := 86400 * 1000000000

/- The whole days between the first date there is and now. -/
def daysOfCalendar (now : Int) : Int :=
  (now - minUtc) / nanosPerDay

/- Some type of memory has a half-life below the bound. -/
def HalfLifeBelow
    (config : StalenessConfig ConfigFloat)
    (bound : Rat) : Prop :=
  ∃ ty x, (config.typeConfig ty).halfLifeDays = .finite x ∧
    x < bound

------------------------------------------------------------
-- The Smallest Half-Life
------------------------------------------------------------

/- For finite half-lives this is their minimum. -/
theorem minHalfLife_of_finite
    {config : StalenessConfig ConfigFloat}
    {f : MemoryType → Rat}
    (hFinite :
      ∀ ty, (config.typeConfig ty).halfLifeDays = .finite (f ty)) :
    config.minHalfLife =
      .finite (min (min (f .episodic) (f .semantic))
        (f .procedural)) := by
  simp [StalenessConfig.minHalfLife, hFinite, ConfigFloat.min]

/- With rational values it is the cutoff of their minimum. -/
theorem staleCutoff_map
    {cfg : LoadedConfig} {config : StalenessConfig Rat}
    (now : DateTime)
    (hStaleness : cfg.staleness = config.map .finite) :
    cfg.staleCutoff now = Core.staleCutoff config now := by
  have hMin :
      cfg.staleness.minHalfLife =
        .finite config.minHalfLifeDays := by
    rw [hStaleness, minHalfLife_of_finite (fun _ => rfl),
      min_assoc]
    rfl
  rw [LoadedConfig.staleCutoff, hMin]
  rfl

/- An accepted configuration has a positive smallest one. -/
theorem exists_minHalfLife
    {cfg : LoadedConfig}
    (hAccepted : Config.Accepted cfg) :
    ∃ x, cfg.staleness.minHalfLife = .finite x ∧ 0 < x ∧
      ∀ bound, HalfLifeBelow cfg.staleness bound ↔ x < bound := by
  rcases Config.accepted_iff.mp hAccepted with
    ⟨_, _, hValid⟩
  rcases Config.validate_eq_ok_iff.mp hValid with
    ⟨_, _, hTypes⟩
  choose f hFinite hPos using hTypes
  refine ⟨_, minHalfLife_of_finite hFinite, ?_, ?_⟩
  · exact lt_min (lt_min (hPos .episodic) (hPos .semantic))
      (hPos .procedural)
  · intro bound
    unfold HalfLifeBelow
    rw [min_lt_iff, min_lt_iff]
    constructor
    · rintro ⟨ty, x, hx, hBelow⟩
      rw [hFinite ty] at hx
      rw [← ConfigFloat.finite.inj hx] at hBelow
      cases ty with
      | episodic => exact Or.inl (Or.inl hBelow)
      | semantic => exact Or.inl (Or.inr hBelow)
      | procedural => exact Or.inr hBelow
    · rintro ((hBelow | hBelow) | hBelow)
      · exact ⟨_, _, hFinite _, hBelow⟩
      · exact ⟨_, _, hFinite _, hBelow⟩
      · exact ⟨_, _, hFinite _, hBelow⟩

------------------------------------------------------------
-- The Ranges
------------------------------------------------------------

theorem asI64_of_pos
    {x : Rat}
    (hPos : 0 < x) :
    Core.asI64 x = min (2 ^ 63 - 1) x.floor ∧ 0 ≤ x.floor := by
  have hNum : 0 ≤ x.num := (Rat.num_pos.mpr hPos).le
  have hFloor : Int.tdiv x.num x.den = x.floor := by
    rw [Int.tdiv_eq_ediv_of_nonneg hNum, Rat.floor_def]
  have hNonneg : 0 ≤ x.floor :=
    Rat.le_floor_iff.mpr (by exact_mod_cast hPos.le)
  refine ⟨?_, hNonneg⟩
  unfold Core.asI64
  rw [hFloor]
  omega

/- Only the first date limits how far the cutoff goes back. -/
theorem cutoff_isSome_iff
    {now : DateTime} {days : Int}
    (hNow : CurrentTime now)
    (hDays : 0 ≤ days) :
    ((durationDays days).bind (subDuration now)).isSome =
        true ↔
      days ≤ daysOfCalendar now := by
  have hFirst := hNow.1
  have hLast := hNow.2
  have hCalendar :
      days ≤ daysOfCalendar now ↔
        days * (86400 * 1000000000) ≤
          now - (-8334601228800 * 1000000000) :=
    Int.le_ediv_iff_mul_le (by decide)
  rw [hCalendar]
  unfold durationDays
  split
  · rename_i hDuration
    rw [Option.bind_some]
    unfold subDuration
    have hRange :
        (minUtc ≤ now - days * 86400000000000 ∧
            now - days * 86400000000000 ≤ maxUtc) ↔
          days * (86400 * 1000000000) ≤
            now - (-8334601228800 * 1000000000) := by
      unfold minUtc maxUtc
      change @LE.le Int _ _ _ ∧ @LE.le Int _ _ _ ↔ _
      constructor
      · rintro ⟨hLow, _⟩
        omega
      · intro hLow
        exact ⟨by omega, by omega⟩
    split
    · rename_i hIn
      simp only [Option.isSome_some, true_iff]
      exact hRange.mp hIn
    · rename_i hOut
      simp only [Option.isSome_none, Bool.false_eq_true,
        false_iff]
      exact fun h => hOut (hRange.mpr h)
  · rename_i hDuration
    simp only [Option.bind_none, Option.isSome_none,
      Bool.false_eq_true, false_iff]
    omega

/-
  The cutoff exists exactly if some half-life is less than
  twice the days that the calendar has before now, and one.
-/
theorem staleCutoff_isSome_iff
    {cfg : LoadedConfig} {now : DateTime}
    (hAccepted : Config.Accepted cfg)
    (hNow : CurrentTime now) :
    (cfg.staleCutoff now).isSome = true ↔
      HalfLifeBelow cfg.staleness
        (2 * (daysOfCalendar now + 1)) := by
  rcases exists_minHalfLife hAccepted with
    ⟨x, hMin, hPos, hBelow⟩
  rcases asI64_of_pos (half_pos hPos) with ⟨hCast, hNonneg⟩
  have hLast := hNow.2
  have hFew : daysOfCalendar now < 2 ^ 63 - 1 := by
    unfold daysOfCalendar nanosPerDay minUtc
    omega
  rw [LoadedConfig.staleCutoff, hMin, ConfigFloat.half,
    ConfigFloat.asI64, hCast,
    cutoff_isSome_iff hNow (by omega), hBelow]
  have hFloor :
      min (2 ^ 63 - 1) (x / 2).floor ≤ daysOfCalendar now ↔
        (x / 2).floor < daysOfCalendar now + 1 := by
    omega
  rw [hFloor, Rat.floor_lt_iff]
  push_cast
  constructor
  · intro h
    linarith
  · intro h
    linarith

/-
  The cutoff of an accepted configuration exists at a time if
  and only if some half-life is small enough for it, and at
  all times of the years 1970 to 9999 if and only if one is
  small enough for the first of them.
-/
theorem stale_cutoff_iff
    {cfg : LoadedConfig}
    (hAccepted : Config.Accepted cfg) :
    (∀ now, CurrentTime now →
      ((cfg.staleCutoff now).isSome = true ↔
        HalfLifeBelow cfg.staleness
          (2 * (daysOfCalendar now + 1)))) ∧
    ((∀ now, CurrentTime now →
        (cfg.staleCutoff now).isSome = true) ↔
      HalfLifeBelow cfg.staleness 192930586) := by
  have hTimes :
      ∀ now, CurrentTime now →
        ((cfg.staleCutoff now).isSome = true ↔
          HalfLifeBelow cfg.staleness
            (2 * (daysOfCalendar now + 1))) :=
    fun now hNow => staleCutoff_isSome_iff hAccepted hNow
  have hEpoch : daysOfCalendar 0 = 96465292 := by decide
  refine ⟨hTimes, ?_, ?_⟩
  · intro hAlways
    have hStart : CurrentTime 0 := ⟨by decide, by decide⟩
    have hBelow := (hTimes 0 hStart).mp (hAlways 0 hStart)
    rw [hEpoch] at hBelow
    norm_num at hBelow
    exact hBelow
  · rintro ⟨ty, x, hx, hBelow⟩ now hNow
    have hLater : 96465292 ≤ daysOfCalendar now := by
      have hFirst := hNow.1
      unfold daysOfCalendar nanosPerDay minUtc
      omega
    have hBound : (96465292 : Rat) ≤ daysOfCalendar now := by
      exact_mod_cast hLater
    refine (hTimes now hNow).mpr ⟨ty, x, hx, ?_⟩
    linarith

------------------------------------------------------------
-- Long Half-Lives
------------------------------------------------------------

/- A file that sets the half-life of every type. -/
def halfLivesFile (days : Rat) : FileConfig :=
  { FileConfig.default with
    staleness :=
      { FileConfig.default.staleness with
        episodic := some ⟨some (.finite days), none⟩
        semantic := some ⟨some (.finite days), none⟩
        procedural := some ⟨some (.finite days), none⟩ } }

theorem accepted_halfLives
    {days : Rat}
    (hPos : 0 < days) :
    Config.Accepted (Config.resolve (halfLivesFile days)) := by
  refine Config.accepted_of_halfLives rfl ?_
  intro ty
  exact ⟨days, by cases ty <;> rfl, hPos⟩

/- A year, at the first of the times. -/
theorem stale_cutoff_iff_year :
    ((Config.resolve (halfLivesFile 365)).staleCutoff
      0).isSome = true := by
  have hPos : (0 : Rat) < 365 := by norm_num
  have hIff := stale_cutoff_iff (accepted_halfLives hPos)
  apply hIff.2.mpr _ 0 ⟨by decide, by decide⟩
  exact ⟨.episodic, 365, rfl, by norm_num⟩

/- With a billion days the date leaves its range. -/
theorem stale_cutoff_panics :
    ¬ ∀ cfg now, Config.Accepted cfg → CurrentTime now →
      (cfg.staleCutoff now).isSome = true := by
  intro hAll
  have hPos : (0 : Rat) < 1000000000 := by norm_num
  have hStart : CurrentTime 0 := ⟨by decide, by decide⟩
  have hSome := hAll _ 0 (accepted_halfLives hPos) hStart
  rw [staleCutoff_isSome_iff (accepted_halfLives hPos)
    hStart] at hSome
  rcases hSome with ⟨ty, x, hx, hBelow⟩
  have hDays : x = 1000000000 := by
    cases ty <;> exact (ConfigFloat.finite.inj hx).symm
  have hEpoch : daysOfCalendar 0 = 96465292 := by decide
  rw [hDays, hEpoch] at hBelow
  norm_num at hBelow

end Core

end Ferrex
