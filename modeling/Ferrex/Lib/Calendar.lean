import Mathlib.Tactic.IntervalCases

/-
  The proleptic Gregorian calendar from the year 0 on: every
  day has one date, and later days have later dates.

  Main declarations:
    * `Calendar.Date`, `Date.days`, `Date.next`
    * `Date.ofDays`, `Date.days_ofDays`
    * `Date.before_of_days_lt`, `Date.eq_of_days_eq`
-/

------------------------------------------------------------
-- Years and Months
------------------------------------------------------------

namespace Calendar

/- The Gregorian rule. -/
def isLeap (year : Nat) : Bool :=
  year % 4 = 0 ∧ (year % 100 ≠ 0 ∨ year % 400 = 0)

/- 365 days, or one more. -/
def daysInYear (year : Nat) : Nat :=
  if isLeap year then 366 else 365

/- There is no thirteenth month. -/
def daysInMonth
    (year : Nat) : Nat → Nat
| 1 => 31
| 2 => if isLeap year then 29 else 28
| 3 => 31
| 4 => 30
| 5 => 31
| 6 => 30
| 7 => 31
| 8 => 31
| 9 => 30
| 10 => 31
| 11 => 30
| 12 => 31
| _ => 0

/- The days before the first of January. -/
def daysBeforeYear (year : Nat) : Nat :=
  365 * year + (year + 3) / 4 + (year + 399) / 400 -
    (year + 99) / 100

/- The days of the year before the first of the month. -/
def daysBeforeMonth
    (year : Nat) : Nat → Nat
| 0 => 0
| month + 1 => daysBeforeMonth year month + daysInMonth year month

/- A year counts once for each cycle that it begins. -/
theorem ceil_div_succ
    {k : Nat}
    (year : Nat)
    (hk : 0 < k) :
    (year + 1 + (k - 1)) / k =
      (year + (k - 1)) / k + if year % k = 0 then 1 else 0 := by
  have hShift : year + 1 + (k - 1) = year + (k - 1) + 1 := by
    omega
  have hCycle : k ∣ year + (k - 1) + 1 ↔ year % k = 0 := by
    rw [show year + (k - 1) + 1 = year + k by omega,
      Nat.dvd_add_left (dvd_refl k), Nat.dvd_iff_mod_eq_zero]
  rw [hShift, Nat.succ_div]
  simp only [hCycle]

/- Leap days are counted by the years they fall in. -/
theorem daysBeforeYear_succ
    (year : Nat) :
    daysBeforeYear (year + 1) =
      daysBeforeYear year + daysInYear year := by
  have hFour := ceil_div_succ (k := 4) year (by omega)
  have hHundred := ceil_div_succ (k := 100) year (by omega)
  have hFourHundred := ceil_div_succ (k := 400) year (by omega)
  have hEnough : (year + 99) / 100 ≤ 365 * year := by
    omega
  have hCentury : year % 400 = 0 → year % 100 = 0 := by
    omega
  have hFourth : year % 100 = 0 → year % 4 = 0 := by
    omega
  have hYear :
      daysInYear year =
        365 + (if year % 4 = 0 then 1 else 0) +
          (if year % 400 = 0 then 1 else 0) -
            (if year % 100 = 0 then 1 else 0) := by
    unfold daysInYear isLeap
    simp only [decide_eq_true_eq]
    split_ifs <;> omega
  simp only [Nat.reduceSub] at hFour hHundred hFourHundred
  unfold daysBeforeYear
  rw [hYear, hFour, hHundred, hFourHundred]
  clear hYear hFour hHundred hFourHundred
  generalize (year + 3) / 4 = a at *
  generalize (year + 99) / 100 = b at *
  generalize (year + 399) / 400 = c at *
  split_ifs <;> omega

/- The twelve months make the year. -/
theorem daysBeforeMonth_thirteen
    (year : Nat) :
    daysBeforeMonth year 13 = daysInYear year := by
  simp only [daysBeforeMonth, daysInMonth, daysInYear]
  split <;> rfl

/- Later years begin later. -/
theorem daysBeforeYear_mono
    {year year' : Nat}
    (hLe : year ≤ year') :
    daysBeforeYear year ≤ daysBeforeYear year' := by
  induction hLe with
  | refl => exact Nat.le_refl _
  | step _ ih =>
      rw [daysBeforeYear_succ]
      omega

/- Later months begin later. -/
theorem daysBeforeMonth_mono
    (year : Nat)
    {month month' : Nat}
    (hLe : month ≤ month') :
    daysBeforeMonth year month ≤ daysBeforeMonth year month' := by
  induction hLe with
  | refl => exact Nat.le_refl _
  | step _ ih =>
      rw [daysBeforeMonth]
      omega

/- Every month has a first day. -/
theorem daysInMonth_pos
    {year month : Nat}
    (hFirst : 1 ≤ month)
    (hLast : month ≤ 12) :
    1 ≤ daysInMonth year month := by
  have hLeap : 1 ≤ if isLeap year then 29 else 28 := by
    split <;> omega
  interval_cases month <;> simp only [daysInMonth] <;> omega

/- No month has a thirty-second day. -/
theorem daysInMonth_le
    (year month : Nat) :
    daysInMonth year month ≤ 31 := by
  have hLeap : (if isLeap year then 29 else 28) ≤ 31 := by
    split <;> omega
  unfold daysInMonth
  split <;> omega

------------------------------------------------------------
-- Dates
------------------------------------------------------------

/- A day of the calendar; other triples are not dates. -/
@[ext] structure Date where
  year : Nat
  month : Nat
  day : Nat
  firstMonth : 1 ≤ month
  lastMonth : month ≤ 12
  firstDay : 1 ≤ day
  lastDay : day ≤ daysInMonth year month

namespace Date

/- The days from the first day of the year 0. -/
def days (date : Date) : Nat :=
  daysBeforeYear date.year +
    daysBeforeMonth date.year date.month + (date.day - 1)

/- Field by field, the larger ones first. -/
def Before (a b : Date) : Prop :=
  a.year < b.year ∨
    a.year = b.year ∧
      (a.month < b.month ∨
        a.month = b.month ∧ a.day < b.day)

/- The first day of the year 0. -/
def start : Date where
  year := 0
  month := 1
  day := 1
  firstMonth := by omega
  lastMonth := by omega
  firstDay := by omega
  lastDay := by decide

/- The first of the month after this one. -/
def nextMonth (date : Date) : Date :=
  if hMonth : date.month < 12 then
    { year := date.year
      month := date.month + 1
      day := 1
      firstMonth := by omega
      lastMonth := by omega
      firstDay := by omega
      lastDay := daysInMonth_pos (by omega) (by omega) }
  else
    { year := date.year + 1
      month := 1
      day := 1
      firstMonth := by omega
      lastMonth := by omega
      firstDay := by omega
      lastDay := daysInMonth_pos (by omega) (by omega) }

/-
  The day after: in this month, in the next, or in the next
  year.
-/
def next (date : Date) : Date :=
  if hDay : date.day < daysInMonth date.year date.month then
    { date with
      day := date.day + 1
      firstDay := by omega
      lastDay := hDay }
  else
    date.nextMonth

/- The day that so many days lead to. -/
def ofDays : Nat → Date
| 0 => start
| n + 1 => (ofDays n).next

/- The next day is one day later. -/
theorem days_next
    (date : Date) :
    date.next.days = date.days + 1 := by
  have hFirst := date.firstDay
  have hLast := date.lastDay
  unfold next
  split
  · unfold days
    dsimp only
    omega
  · unfold nextMonth
    split
    · unfold days
      dsimp only
      rw [daysBeforeMonth]
      omega
    · have hMonth : date.month = 12 := by
        have hTwelve := date.lastMonth
        omega
      have hYear := daysBeforeMonth_thirteen date.year
      rw [daysBeforeMonth, ← hMonth] at hYear
      have hJanuary : daysBeforeMonth (date.year + 1) 1 = 0 := rfl
      unfold days
      dsimp only
      rw [hJanuary, daysBeforeYear_succ]
      omega

/- Every day has a date. -/
theorem days_ofDays
    (n : Nat) :
    (ofDays n).days = n := by
  induction n with
  | zero => rfl
  | succ n ih => rw [ofDays, days_next, ih]

/- A later month of the same year is later. -/
theorem days_lt_of_month
    {a b : Date}
    (hYear : a.year = b.year)
    (hMonth : a.month < b.month) :
    a.days < b.days := by
  have hMono :=
    daysBeforeMonth_mono b.year
      (Nat.succ_le_of_lt hMonth)
  have hFirst := a.firstDay
  have hLast := a.lastDay
  rw [daysBeforeMonth] at hMono
  rw [hYear] at hLast
  unfold days
  rw [hYear]
  omega

/- Any day of a later year is later. -/
theorem days_lt_of_year
    {a b : Date}
    (hYear : a.year < b.year) :
    a.days < b.days := by
  have hMono := daysBeforeYear_mono (Nat.succ_le_of_lt hYear)
  have hMonths :=
    daysBeforeMonth_mono a.year
      (Nat.succ_le_succ a.lastMonth)
  have hFirst := a.firstDay
  have hLast := a.lastDay
  rw [daysBeforeYear_succ] at hMono
  rw [daysBeforeMonth_thirteen, daysBeforeMonth] at hMonths
  unfold days
  omega

/- A later day has a later date. -/
theorem before_of_days_lt
    {a b : Date}
    (hLt : a.days < b.days) :
    a.Before b := by
  rcases Nat.lt_trichotomy a.year b.year with
    hYear | hYear | hYear
  · exact Or.inl hYear
  · refine Or.inr ⟨hYear, ?_⟩
    rcases Nat.lt_trichotomy a.month b.month with
      hMonth | hMonth | hMonth
    · exact Or.inl hMonth
    · refine Or.inr ⟨hMonth, ?_⟩
      unfold days at hLt
      rw [hYear, hMonth] at hLt
      omega
    · have hBack := days_lt_of_month hYear.symm hMonth
      omega
  · have hBack := days_lt_of_year hYear
    omega

/- One day has one date. -/
theorem eq_of_days_eq
    {a b : Date}
    (hDays : a.days = b.days) :
    a = b := by
  rcases Nat.lt_trichotomy a.year b.year with
    hYear | hYear | hYear
  · have hLt := days_lt_of_year hYear
    omega
  · rcases Nat.lt_trichotomy a.month b.month with
      hMonth | hMonth | hMonth
    · have hLt := days_lt_of_month hYear hMonth
      omega
    · have hFirst := a.firstDay
      have hFirst' := b.firstDay
      unfold days at hDays
      rw [hYear, hMonth] at hDays
      exact Date.ext hYear hMonth (by omega)
    · have hLt := days_lt_of_month hYear.symm hMonth
      omega
  · have hLt := days_lt_of_year hYear
    omega

/- A day before the first one of a year is of an earlier year. -/
theorem year_lt_of_days_lt
    {date : Date} {year : Nat}
    (hDays : date.days < daysBeforeYear year) :
    date.year < year := by
  by_contra hLate
  have hMono := daysBeforeYear_mono (Nat.le_of_not_lt hLate)
  unfold days at hDays
  omega

end Date

end Calendar
