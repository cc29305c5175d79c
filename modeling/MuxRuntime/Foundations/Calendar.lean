import Mathlib

/-!
# The Gregorian calendar

Dates of the proleptic Gregorian calendar, with no bound on the year, and their day numbers.
The first day of the year one has number zero.
-/

namespace Calendar

/-- Years of 366 days. -/
def isLeap (year : Int) : Bool :=
  decide (year % 4 = 0) && (decide (year % 100 ≠ 0) || decide (year % 400 = 0))

def daysInMonth (year : Int) : Nat → Nat
  | 2 => if isLeap year then 29 else 28
  | 4 => 30
  | 6 => 30
  | 9 => 30
  | 11 => 30
  | _ => 31

/-- A day of the calendar. Months and days count from one. -/
@[ext]
structure Date where
  year : Int
  month : Nat
  day : Nat
  one_le_month : 1 ≤ month
  month_le : month ≤ 12
  one_le_day : 1 ≤ day
  day_le : day ≤ daysInMonth year month
deriving DecidableEq, Repr

/-! ## Years -/

/-- The number of the first day of a year. -/
def yearStart (year : Int) : Int :=
  365 * (year - 1) + (year - 1) / 4 - (year - 1) / 100 + (year - 1) / 400

def daysInYear (year : Int) : Nat :=
  if isLeap year then 366 else 365

lemma isLeap_iff (year : Int) :
    isLeap year = true ↔ year % 4 = 0 ∧ (year % 100 ≠ 0 ∨ year % 400 = 0) := by
  simp [isLeap]

lemma yearStart_succ (year : Int) : yearStart (year + 1) = yearStart year + daysInYear year := by
  have hleap := isLeap_iff year
  unfold yearStart daysInYear
  split
  · have h := hleap.mp ‹_›
    omega
  · have h := mt hleap.mpr ‹_›
    omega

variable {year : Int}

lemma yearStart_mono {other : Int} (h : year ≤ other) : yearStart year ≤ yearStart other := by
  unfold yearStart
  omega

/-- The year of a day. The first guess takes years of the mean length. -/
def yearOf (n : Int) : Int :=
  let year := n * 400 / 146097 + 1
  if n < yearStart year then year - 1
  else if yearStart (year + 1) ≤ n then year + 1
  else year

lemma yearOf_spec (n : Int) : yearStart (yearOf n) ≤ n ∧ n < yearStart (yearOf n + 1) := by
  unfold yearOf
  simp only
  split
  · unfold yearStart at *
    omega
  · split
    · unfold yearStart at *
      omega
    · omega

/-- The year of a day is the last one that starts by then. -/
lemma yearStart_le_iff (year n : Int) : yearStart year ≤ n ↔ year ≤ yearOf n := by
  have hspec := yearOf_spec n
  constructor
  · intro h
    by_contra hlt
    have := yearStart_mono (Int.not_le.mp hlt)
    omega
  · intro h
    have := yearStart_mono h
    omega

lemma yearOf_unique {n : Int} (hstart : yearStart year ≤ n) (hend : n < yearStart (year + 1)) :
    year = yearOf n := by
  have hle := (yearStart_le_iff year n).mp hstart
  have hlt := mt (yearStart_le_iff (year + 1) n).mpr (Int.not_le.mpr hend)
  omega

/-! ## Months -/

/-- The days of a year before a month. -/
def daysBeforeMonth (year : Int) : Nat → Nat
  | 0 => 0
  | 1 => 0
  | month + 1 => daysBeforeMonth year month + daysInMonth year month

lemma daysBeforeMonth_succ (year : Int) {month : Nat} (h : 1 ≤ month) :
    daysBeforeMonth year (month + 1) = daysBeforeMonth year month + daysInMonth year month := by
  cases month with
  | zero => omega
  | succ month => rfl

lemma daysBeforeMonth_thirteen (year : Int) : daysBeforeMonth year 13 = daysInYear year := by
  simp only [daysBeforeMonth, daysInMonth, daysInYear]
  split <;> rfl

lemma daysBeforeMonth_mono (year : Int) : Monotone (daysBeforeMonth year) := by
  apply monotone_nat_of_le_succ
  intro month
  cases month with
  | zero => exact Nat.le_refl 0
  | succ month => exact Nat.le_add_right _ _

lemma one_le_daysInMonth (year : Int) (month : Nat) : 1 ≤ daysInMonth year month := by
  unfold daysInMonth
  split
  · split <;> omega
  all_goals omega

lemma daysInMonth_le (year : Int) (month : Nat) : daysInMonth year month ≤ 31 := by
  unfold daysInMonth
  split
  · split <;> omega
  all_goals omega

/-- The month and the day of the month of a day that comes so many days after the first of some
month; the months that may still follow are counted down. -/
def monthDay (year : Int) : (rest month days : Nat) → Nat × Nat
  | 0, month, days => (month, days + 1)
  | rest + 1, month, days =>
    if days < daysInMonth year month then (month, days + 1)
    else monthDay year rest (month + 1) (days - daysInMonth year month)

/-- A month and a day of it, so many days after the start of the year. -/
structure IsMonthDay (year : Int) (days : Nat) (monthDay : Nat × Nat) : Prop where
  one_le_month : 1 ≤ monthDay.1
  month_le : monthDay.1 ≤ 12
  one_le_day : 1 ≤ monthDay.2
  day_le : monthDay.2 ≤ daysInMonth year monthDay.1
  days : daysBeforeMonth year monthDay.1 + monthDay.2 = days + 1

lemma monthDay_spec (year : Int) (rest month days : Nat) (hmonth : 1 ≤ month)
    (hrest : rest + month = 12) (hdays : daysBeforeMonth year month + days < daysInYear year) :
    IsMonthDay year (daysBeforeMonth year month + days) (monthDay year rest month days) := by
  induction rest generalizing month days with
  | zero =>
    have hlast : month = 12 := by omega
    subst hlast
    rw [← daysBeforeMonth_thirteen, daysBeforeMonth_succ year hmonth] at hdays
    exact ⟨hmonth, Nat.le_refl _, Nat.le_add_left _ _, by simp only [monthDay]; omega, rfl⟩
  | succ rest ih => ?_
  unfold monthDay
  split
  · exact ⟨hmonth, by simp only; omega, Nat.le_add_left _ _, ‹_›, rfl⟩
  have hsucc := daysBeforeMonth_succ year hmonth
  have hnext := ih (month + 1) (days - daysInMonth year month) (by omega) (by omega) (by omega)
  have hsum : daysBeforeMonth year (month + 1) + (days - daysInMonth year month) =
      daysBeforeMonth year month + days := by omega
  rwa [hsum] at hnext

lemma IsMonthDay.unique {days : Nat} {first second : Nat × Nat}
    (hfirst : IsMonthDay year days first) (hsecond : IsMonthDay year days second) :
    first = second := by
  -- a later month starts after all days of an earlier one
  have hmonth : ∀ {first second : Nat × Nat}, IsMonthDay year days first →
      IsMonthDay year days second → ¬ first.1 < second.1 := by
    intro first second hfirst hsecond hlt
    have hmono := daysBeforeMonth_mono year (Nat.succ_le_of_lt hlt)
    rw [Nat.succ_eq_add_one, daysBeforeMonth_succ year hfirst.one_le_month] at hmono
    have := hfirst.days
    have := hfirst.day_le
    have := hsecond.days
    have := hsecond.one_le_day
    omega
  have heq : first.1 = second.1 := by
    have := hmonth hfirst hsecond
    have := hmonth hsecond hfirst
    omega
  ext
  · exact heq
  · have hdays := hfirst.days
    rw [heq, ← hsecond.days] at hdays
    omega

/-! ## Day numbers -/

namespace Date

/-- The days of the year before a date. -/
def ordinal (date : Date) : Nat :=
  daysBeforeMonth date.year date.month + (date.day - 1)

/-- The days since year one. -/
def dayNumber (date : Date) : Int :=
  yearStart date.year + date.ordinal

variable (date : Date)

lemma isMonthDay : IsMonthDay date.year date.ordinal (date.month, date.day) := by
  refine ⟨date.one_le_month, date.month_le, date.one_le_day, date.day_le, ?_⟩
  have := date.one_le_day
  simp only [ordinal]
  omega

lemma ordinal_lt : date.ordinal < daysInYear date.year := by
  have hmono := daysBeforeMonth_mono date.year (Nat.succ_le_succ date.month_le)
  rw [daysBeforeMonth_thirteen, Nat.succ_eq_add_one,
    daysBeforeMonth_succ date.year date.one_le_month] at hmono
  have := date.one_le_day
  have := date.day_le
  unfold ordinal
  omega

lemma year_eq_yearOf : date.year = yearOf date.dayNumber := by
  have := date.ordinal_lt
  apply yearOf_unique
  · unfold dayNumber
    omega
  · rw [yearStart_succ]
    unfold dayNumber
    omega

/-- The days of the year of a day number before it. -/
def ordinalOf (n : Int) : Nat :=
  (n - yearStart (yearOf n)).toNat

lemma isMonthDay_ordinalOf (n : Int) :
    IsMonthDay (yearOf n) (ordinalOf n) (monthDay (yearOf n) 11 1 (ordinalOf n)) := by
  have hspec := yearOf_spec n
  rw [yearStart_succ] at hspec
  have h := monthDay_spec (yearOf n) 11 1 (ordinalOf n) (by omega) rfl
    (by simp only [daysBeforeMonth, ordinalOf]; omega)
  simpa [daysBeforeMonth] using h

def ofDayNumber (n : Int) : Date where
  year := yearOf n
  month := (monthDay (yearOf n) 11 1 (ordinalOf n)).1
  day := (monthDay (yearOf n) 11 1 (ordinalOf n)).2
  one_le_month := (isMonthDay_ordinalOf n).one_le_month
  month_le := (isMonthDay_ordinalOf n).month_le
  one_le_day := (isMonthDay_ordinalOf n).one_le_day
  day_le := (isMonthDay_ordinalOf n).day_le

@[simp]
theorem dayNumber_ofDayNumber (n : Int) : (ofDayNumber n).dayNumber = n := by
  have hdays := (isMonthDay_ordinalOf n).days
  have hday := (isMonthDay_ordinalOf n).one_le_day
  have hspec := yearOf_spec n
  simp only [dayNumber, ordinal, ofDayNumber]
  unfold ordinalOf at *
  omega

@[simp]
theorem ofDayNumber_dayNumber : ofDayNumber date.dayNumber = date := by
  have hyear := date.year_eq_yearOf
  have hordinal : ordinalOf date.dayNumber = date.ordinal := by
    unfold ordinalOf
    rw [← hyear, dayNumber]
    omega
  have hmonthDay := (isMonthDay_ordinalOf date.dayNumber)
  rw [← hyear, hordinal] at hmonthDay
  have heq := hmonthDay.unique date.isMonthDay
  ext
  · exact hyear.symm
  · simp only [ofDayNumber, hordinal, ← hyear, heq]
  · simp only [ofDayNumber, hordinal, ← hyear, heq]

/-! ## Months of dates -/

/-- The date of a day of a month. -/
def ofParts? (year : Int) (month day : Nat) : Option Date :=
  if h : 1 ≤ month ∧ month ≤ 12 ∧ 1 ≤ day ∧ day ≤ daysInMonth year month then
    some ⟨year, month, day, h.1, h.2.1, h.2.2.1, h.2.2.2⟩
  else none

/-- The months from the first month of the year zero. -/
def monthCount (date : Date) : Int :=
  12 * date.year + (date.month - 1 : Nat)

/-- The day before the first of a month is the last day of the month before. -/
theorem dayNumber_monthEnd {last first : Date}
    (hlast : last.day = daysInMonth last.year last.month) (hfirst : first.day = 1)
    (hmonth : first.monthCount = last.monthCount + 1) : last.dayNumber + 1 = first.dayNumber := by
  have := last.one_le_month
  have := last.month_le
  have := first.one_le_month
  have := first.month_le
  have := last.one_le_day
  have hsucc := daysBeforeMonth_succ last.year last.one_le_month
  unfold monthCount at hmonth
  unfold dayNumber ordinal
  by_cases hdecember : last.month = 12
  · have hyear : first.year = last.year + 1 := by omega
    have hjanuary : first.month = 1 := by omega
    have hzero : daysBeforeMonth (last.year + 1) 1 = 0 := rfl
    rw [hdecember] at hsucc hlast
    rw [daysBeforeMonth_thirteen] at hsucc
    rw [hyear, hjanuary, yearStart_succ, hsucc, hdecember, hzero]
    omega
  · have hyear : first.year = last.year := by omega
    have hnext : first.month = last.month + 1 := by omega
    rw [hyear, hnext, hsucc]
    omega

/-- The day of a month that the calendar gives for a day that the month may not have. -/
def clamped (months : Int) (day : Nat) (h : 1 ≤ day) : Date where
  year := months / 12
  month := (months % 12).toNat + 1
  day := min day (daysInMonth (months / 12) ((months % 12).toNat + 1))
  one_le_month := Nat.le_add_left _ _
  month_le := by omega
  one_le_day := Nat.le_min.mpr ⟨h, one_le_daysInMonth _ _⟩
  day_le := Nat.min_le_right _ _

lemma clamped_self : clamped date.monthCount date.day date.one_le_day = date := by
  have := date.one_le_month
  have := date.month_le
  have hyear : date.monthCount / 12 = date.year := by
    unfold monthCount
    omega
  have hmonth : (date.monthCount % 12).toNat + 1 = date.month := by
    unfold monthCount
    omega
  ext
  · exact hyear
  · exact hmonth
  · simp only [clamped, hyear, hmonth]
    exact Nat.min_eq_left date.day_le

end Date

end Calendar
