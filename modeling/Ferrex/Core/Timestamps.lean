import Ferrex.Lib.Calendar
import Ferrex.Lib.Decimal
import Ferrex.Store.Metadata

/-
  The columns of times are texts: the bytes of the texts are
  in the order of the instants that they write.

  Main declarations:
    * `Moment`, `Moment.instant`, `Moment.chars`
    * `WritesRfc3339`, `rfc3339`
    * `Moment.chars_lt`
    * `timestamps_order`
-/

------------------------------------------------------------
-- Moments
------------------------------------------------------------

namespace Ferrex

namespace Store

open Calendar Decimal

/- A date, a second of its day and a part of the second. -/
@[ext] structure Moment where
  date : Date
  seconds : Nat
  nanos : Nat
  secondsLt : seconds < 86400
  nanosLt : nanos < 1000000000

/- The days from the first day of the year 0 to 1970-01-01. -/
def epochDays : Nat := daysBeforeYear 1970

namespace Moment

/- The nanosecond that a reading of the clock stands for. -/
def instant (m : Moment) : DateTime :=
  (((m.date.days : Int) - epochDays) * 86400 +
    (m.seconds : Int)) * 1000000000 + (m.nanos : Int)

/- The nanoseconds since the year 0 began. -/
def sinceYearZero (t : Int) : Int :=
  t + epochDays * 86400 * 1000000000

/- The reading of the clock at a nanosecond. -/
def ofInstant (t : DateTime) : Moment where
  date :=
    Date.ofDays ((sinceYearZero t).toNat / 1000000000 / 86400)
  seconds := (sinceYearZero t).toNat / 1000000000 % 86400
  nanos := (sinceYearZero t).toNat % 1000000000
  secondsLt := Nat.mod_lt _ (by omega)
  nanosLt := Nat.mod_lt _ (by omega)

end Moment

/- The instants of the years 0 to 9999. -/
def FourDigitYear (t : DateTime) : Prop :=
  0 ≤ Moment.sinceYearZero t ∧
    Moment.sinceYearZero t <
      daysBeforeYear 10000 * 86400 * 1000000000

------------------------------------------------------------
-- Texts
------------------------------------------------------------

/- Year, month and day, as they are printed. -/
def dateText (date : Date) : List Char :=
  digits 4 date.year ++
    '-' :: (digits 2 date.month ++ '-' :: digits 2 date.day)

/- Hour, minute and second. -/
def timeText (seconds : Nat) : List Char :=
  digits 2 (seconds / 3600) ++
    ':' :: (digits 2 (seconds / 60 % 60) ++
      ':' :: digits 2 (seconds % 60))

/- No more digits than needed, in groups of three. -/
def fraction (nanos : Nat) : List Char :=
  if nanos = 0 then
    []
  else if nanos % 1000000 = 0 then
    '.' :: digits 3 (nanos / 1000000)
  else if nanos % 1000 = 0 then
    '.' :: digits 6 (nanos / 1000)
  else
    '.' :: digits 9 nanos

/- All times are printed in UTC. -/
def zone : List Char := ['+', '0', '0', ':', '0', '0']

/- The text of a reading of the clock. -/
def Moment.chars (m : Moment) : List Char :=
  dateText m.date ++
    'T' :: (timeText m.seconds ++ (fraction m.nanos ++ zone))

/- What `to_rfc3339` is documented to write for such years. -/
def WritesRfc3339 (toRfc3339 : DateTime → String) : Prop :=
  ∀ m : Moment, m.date.year < 10000 →
    toRfc3339 m.instant = String.ofList m.chars

/- The text of an instant: print its reading. -/
def rfc3339 (t : DateTime) : String :=
  String.ofList (Moment.ofInstant t).chars

------------------------------------------------------------
-- Instants and Moments
------------------------------------------------------------

namespace Moment

/-
  The reading at a nanosecond stands for that nanosecond.
-/
theorem instant_ofInstant
    {t : DateTime}
    (hStart : 0 ≤ sinceYearZero t) :
    (ofInstant t).instant = t := by
  rcases Int.eq_ofNat_of_zero_le hStart with ⟨n, hSince⟩
  unfold instant ofInstant
  dsimp only
  rw [hSince, Int.toNat_natCast, Date.days_ofDays]
  unfold sinceYearZero at hSince
  change @Eq Int _ _
  omega

/- A year of four digits reads as one. -/
theorem year_ofInstant
    {t : DateTime}
    (hYear : FourDigitYear t) :
    (ofInstant t).date.year < 10000 := by
  apply Date.year_lt_of_days_lt
  unfold ofInstant
  rw [Date.days_ofDays]
  rcases hYear with ⟨hFirst, hLast⟩
  omega

/- A reading is the one at its own nanosecond. -/
theorem ofInstant_instant
    (m : Moment) :
    ofInstant m.instant = m := by
  have hSeconds := m.secondsLt
  have hNanos := m.nanosLt
  have hSince :
      (sinceYearZero m.instant).toNat =
        (m.date.days * 86400 + m.seconds) * 1000000000 +
          m.nanos := by
    unfold sinceYearZero instant
    omega
  apply Moment.ext
  · unfold ofInstant
    apply Date.eq_of_days_eq
    rw [Date.days_ofDays, hSince]
    omega
  · unfold ofInstant
    dsimp only
    rw [hSince]
    omega
  · unfold ofInstant
    dsimp only
    rw [hSince]
    omega

end Moment

/-
  The parameter can be met: this printer has the shape that
  is asked for.
-/
theorem writesRfc3339_rfc3339 : WritesRfc3339 rfc3339 := by
  intro m _
  rw [rfc3339, Moment.ofInstant_instant]

------------------------------------------------------------
-- Order of the Texts
------------------------------------------------------------

/-
  An earlier date prints smaller, since every field has a
  fixed width.
-/
theorem dateText_lt
    {a b : Date}
    (hBefore : a.Before b)
    (hYear : b.year < 10000) :
    dateText a < dateText b := by
  have hMonth := b.lastMonth
  have hDay := b.lastDay
  have hDays := daysInMonth_le b.year b.month
  unfold dateText
  rcases hBefore with hLt | ⟨hEq, hLt | ⟨hEq', hLt⟩⟩
  · exact append_lt_append
      (by rw [length_digits, length_digits])
      (digits_lt hLt hYear) _ _
  · rw [hEq]
    apply List.append_left_lt
    refine List.cons_lt_cons_iff.mpr (Or.inr ⟨rfl, ?_⟩)
    exact append_lt_append
      (by rw [length_digits, length_digits])
      (digits_lt hLt (by omega)) _ _
  · rw [hEq, hEq']
    apply List.append_left_lt
    refine List.cons_lt_cons_iff.mpr (Or.inr ⟨rfl, ?_⟩)
    apply List.append_left_lt
    refine List.cons_lt_cons_iff.mpr (Or.inr ⟨rfl, ?_⟩)
    exact digits_lt hLt (by omega)

/- An earlier time of the day prints smaller. -/
theorem timeText_lt
    {s s' : Nat}
    (hLt : s < s')
    (hDay : s' < 86400) :
    timeText s < timeText s' := by
  unfold timeText
  by_cases hHour : s / 3600 = s' / 3600
  · rw [hHour]
    apply List.append_left_lt
    refine List.cons_lt_cons_iff.mpr (Or.inr ⟨rfl, ?_⟩)
    by_cases hMinute : s / 60 % 60 = s' / 60 % 60
    · rw [hMinute]
      apply List.append_left_lt
      refine List.cons_lt_cons_iff.mpr (Or.inr ⟨rfl, ?_⟩)
      exact digits_lt (by omega) (by omega)
    · exact append_lt_append
        (by rw [length_digits, length_digits])
        (digits_lt (by omega) (by omega)) _ _
  · exact append_lt_append
      (by rw [length_digits, length_digits])
      (digits_lt (by omega) (by omega)) _ _

/- The digits after the point, whatever their number. -/
theorem exists_fraction
    {nanos : Nat}
    (hZero : nanos ≠ 0) :
    ∃ width, width ≤ 9 ∧
      fraction nanos =
        '.' :: digits width (nanos / 10 ^ (9 - width)) ∧
      nanos / 10 ^ (9 - width) * 10 ^ (9 - width) = nanos := by
  unfold fraction
  rw [if_neg hZero]
  split
  · exact ⟨3, by omega, rfl, by omega⟩
  · split
    · exact ⟨6, by omega, rfl, by omega⟩
    · refine ⟨9, by omega, ?_, ?_⟩
      · rw [Nat.sub_self, Nat.pow_zero, Nat.div_one]
      · rw [Nat.sub_self, Nat.pow_zero, Nat.div_one,
          Nat.mul_one]

/- The sign of the zone comes before the point and the digits. -/
theorem fraction_lt
    {n n' : Nat}
    (hLt : n < n')
    (hSecond : n' < 1000000000) :
    fraction n ++ zone < fraction n' ++ zone := by
  have hPoint : n' ≠ 0 := by omega
  rcases exists_fraction hPoint with
    ⟨width', hWidth', hText', hValue'⟩
  rw [hText', List.cons_append]
  by_cases hZero : n = 0
  · rw [hZero]
    refine List.cons_lt_cons_iff.mpr (Or.inl ?_)
    decide
  · rcases exists_fraction hZero with
      ⟨width, hWidth, hText, hValue⟩
    rw [hText, List.cons_append]
    refine List.cons_lt_cons_iff.mpr (Or.inr ⟨rfl, ?_⟩)
    apply digits_append_lt (by decide) hWidth hWidth'
    · apply Nat.div_lt_of_lt_mul
      rw [← Nat.pow_add, Nat.sub_add_cancel hWidth']
      exact hSecond
    · rw [hValue, hValue']
      exact hLt

namespace Moment

variable {m m' : Moment}

/- A later moment has a later text. -/
theorem chars_lt
    (hLt : m.instant < m'.instant)
    (hYear : m'.date.year < 10000) :
    m.chars < m'.chars := by
  have hSeconds := m.secondsLt
  have hSeconds' := m'.secondsLt
  have hNanos := m.nanosLt
  have hNanos' := m'.nanosLt
  unfold instant at hLt
  change @LT.lt Int _ _ _ at hLt
  unfold chars
  by_cases hDays : m.date.days = m'.date.days
  · rw [Date.eq_of_days_eq hDays]
    apply List.append_left_lt
    refine List.cons_lt_cons_iff.mpr (Or.inr ⟨rfl, ?_⟩)
    by_cases hSame : m.seconds = m'.seconds
    · rw [hSame]
      apply List.append_left_lt
      exact fraction_lt (by omega) hNanos'
    · refine append_lt_append ?_
        (timeText_lt (by omega) hSeconds') _ _
      simp [timeText]
  · refine append_lt_append ?_
      (dateText_lt (Date.before_of_days_lt (by omega)) hYear)
      _ _
    simp [dateText]

/-
  Digits are ASCII, and so bytes and characters are compared
  alike.
-/
theorem ascii_digits
    {width n : Nat} {c : Char}
    (hMem : c ∈ digits width n) :
    c.toNat < 128 := by
  have hDigit := le_of_mem_digits hMem
  omega

/- A fraction is ASCII. -/
theorem ascii_fraction
    {nanos : Nat} {c : Char}
    (hMem : c ∈ fraction nanos) :
    c.toNat < 128 := by
  by_cases hZero : nanos = 0
  · rw [fraction, if_pos hZero] at hMem
    cases hMem
  · rcases exists_fraction hZero with ⟨width, _, hText, _⟩
    rw [hText, List.mem_cons] at hMem
    rcases hMem with rfl | hMem
    · decide
    · exact ascii_digits hMem

/- The whole text is ASCII. -/
theorem ascii_chars
    (m : Moment) :
    ∀ c ∈ m.chars, c.toNat < 128 := by
  intro c hMem
  have hAll :
      zone.all (fun c => decide (c.toNat < 128)) = true := by
    decide
  have hZone : ∀ c ∈ zone, c.toNat < 128 := by
    simpa using hAll
  simp only [chars, dateText, timeText, List.mem_append,
    List.mem_cons] at hMem
  rcases hMem with
    (h | rfl | h | rfl | h) | rfl | (h | rfl | h | rfl | h) | h | h
  · exact ascii_digits h
  · decide
  · exact ascii_digits h
  · decide
  · exact ascii_digits h
  · decide
  · exact ascii_digits h
  · decide
  · exact ascii_digits h
  · decide
  · exact ascii_digits h
  · exact ascii_fraction h
  · exact hZone c h

end Moment

variable {toRfc3339 : DateTime → String} {t u : DateTime}

/- An earlier instant prints smaller. -/
theorem bytes_lt_of_lt
    (hWrites : WritesRfc3339 toRfc3339)
    (ht : FourDigitYear t)
    (hu : FourDigitYear u)
    (hLt : t < u) :
    bytes (toRfc3339 t) < bytes (toRfc3339 u) := by
  have htText := hWrites _ (Moment.year_ofInstant ht)
  have huText := hWrites _ (Moment.year_ofInstant hu)
  rw [Moment.instant_ofInstant ht.1] at htText
  rw [Moment.instant_ofInstant hu.1] at huText
  rw [htText, huText]
  apply bytes_lt (Moment.ascii_chars _) (Moment.ascii_chars _)
  apply Moment.chars_lt _ (Moment.year_ofInstant hu)
  rw [Moment.instant_ofInstant ht.1,
    Moment.instant_ofInstant hu.1]
  exact hLt

/- Only an earlier instant prints smaller. -/
theorem bytes_lt_iff
    (hWrites : WritesRfc3339 toRfc3339)
    (ht : FourDigitYear t)
    (hu : FourDigitYear u) :
    bytes (toRfc3339 t) < bytes (toRfc3339 u) ↔ t < u := by
  constructor
  · intro hBytes
    rcases Int.lt_trichotomy t u with hLt | hEq | hGt
    · exact hLt
    · rw [hEq] at hBytes
      exact absurd hBytes (List.lt_irrefl _)
    · exact absurd hBytes
        (List.lt_asymm (bytes_lt_of_lt hWrites hu ht hGt))
  · exact bytes_lt_of_lt hWrites ht hu

/-
  So the database compares texts as the program compares
  times.
-/
theorem bytes_le_iff
    (hWrites : WritesRfc3339 toRfc3339)
    (ht : FourDigitYear t)
    (hu : FourDigitYear u) :
    bytes (toRfc3339 t) ≤ bytes (toRfc3339 u) ↔ t ≤ u := by
  rw [← List.not_lt, bytes_lt_iff hWrites hu ht, Int.not_lt]

/-
  For the instants of the years 0 to 9999 the texts compare
  by bytes as the instants compare by time; so whatever SQL
  puts in the order of such a column, or takes from a range
  of it, it puts and takes by time.
-/
theorem timestamps_order
    (hWrites : WritesRfc3339 toRfc3339) :
    (∀ t u, FourDigitYear t → FourDigitYear u →
      (bytes (toRfc3339 t) < bytes (toRfc3339 u) ↔ t < u)) ∧
    (∀ (Row : Type) (key : Row → DateTime) (rows : List Row),
      (∀ r ∈ rows, FourDigitYear (key r)) →
        (rows.Pairwise
            (fun a b =>
              bytes (toRfc3339 (key a)) ≤
                bytes (toRfc3339 (key b))) ↔
          rows.Pairwise (fun a b => key a ≤ key b)) ∧
        (rows.Pairwise
            (fun a b =>
              bytes (toRfc3339 (key b)) ≤
                bytes (toRfc3339 (key a))) ↔
          rows.Pairwise (fun a b => key b ≤ key a)) ∧
        ∀ bound, FourDigitYear bound →
          rows.filter
              (fun r =>
                bytes (toRfc3339 (key r)) <
                  bytes (toRfc3339 bound)) =
            rows.filter (fun r => key r < bound) ∧
          rows.filter
              (fun r =>
                bytes (toRfc3339 bound) ≤
                  bytes (toRfc3339 (key r))) =
            rows.filter (fun r => bound ≤ key r)) := by
  refine ⟨fun t u ht hu => bytes_lt_iff hWrites ht hu, ?_⟩
  intro Row key rows hYears
  refine ⟨?_, ?_, ?_⟩
  · apply List.Pairwise.iff_of_mem
    intro a b ha hb
    exact bytes_le_iff hWrites (hYears a ha) (hYears b hb)
  · apply List.Pairwise.iff_of_mem
    intro a b ha hb
    exact bytes_le_iff hWrites (hYears b hb) (hYears a ha)
  · intro bound hBound
    constructor
    · apply List.filter_congr
      intro r hr
      rw [decide_eq_decide]
      exact bytes_lt_iff hWrites (hYears r hr) hBound
    · apply List.filter_congr
      intro r hr
      rw [decide_eq_decide]
      exact bytes_le_iff hWrites hBound (hYears r hr)

/- A text with a fraction comes after the one without. -/
theorem timestamps_order_first_second :
    bytes (rfc3339 (-62167219200000000000)) <
      bytes (rfc3339 (-62167219199999000000)) := by
  have hOrder := timestamps_order writesRfc3339_rfc3339
  refine (hOrder.1 _ _ ?_ ?_).mpr (by decide)
  · exact ⟨by decide, by decide⟩
  · exact ⟨by decide, by decide⟩

end Store

end Ferrex
