import MuxRuntime.Datetime.Chrono

/-!
# Adding days and periods to dates

A period shifts a date by months first, to a day that the month has, and then by days.

The last day of a month is found as the day before the next month. The last month of the range
has no next month in the range, and there the source takes the day 28.
-/

namespace MuxRuntime.Datetime

open Calendar Years Chrono

/-- The signed integers of some width. -/
def Fits (bits : Nat) (n : Int) : Prop :=
  -2 ^ (bits - 1) ≤ n ∧ n < 2 ^ (bits - 1)

instance (bits : Nat) (n : Int) : Decidable (Fits bits n) :=
  inferInstanceAs (Decidable (_ ∧ _))

/-- The number, if it fits. -/
def checked (bits : Nat) (n : Int) : Option Int :=
  if Fits bits n then some n else none

lemma checked_eq_some {bits : Nat} {n : Int} (h : Fits bits n) : checked bits n = some n :=
  if_pos h

lemma checked_eq_none {bits : Nat} {n : Int} (h : ¬ Fits bits n) : checked bits n = none :=
  if_neg h

/-- Years, months and days, each of 64 bits. -/
structure Period where
  years : Int
  months : Int
  days : Int
  years_fits : Fits 64 years
  months_fits : Fits 64 months
  days_fits : Fits 64 days

section Chrono

variable [Chrono]

/-! ## The operations -/

/-- Days after a date. -/
def dateAddDays (date : NaiveDate) (days : Int) : Outcome NaiveDate := do
  let days ← durationDays days
  match checkedAddDays date days with
  | some next => .ok next
  | none => .error (.error "date addition exceeds the supported range")

/-- The day before the next month. -/
def dateLastDay (year : Int) (month : Nat) : Nat :=
  let next :=
    if month = 12 then (checked 32 (year + 1)).bind fun nextYear => fromYmdOpt nextYear 1 1
    else fromYmdOpt year (month + 1) 1
  match next.bind predOpt with
  | some date => date.1.day
  | none => 28

/-- The months in 64 bits. -/
def totalMonths (date : NaiveDate) (period : Period) : Option Int :=
  (checked 64 (date.1.year * 12)).bind fun value =>
    (checked 64 (value + (date.1.month - 1 : Nat))).bind fun value =>
      (checked 64 (period.years * 12)).bind fun years =>
        (checked 64 (value + years)).bind fun value => checked 64 (value + period.months)

/-- Months first, then days. -/
def periodAddToDate (period : Period) (date : NaiveDate) : Outcome NaiveDate :=
  match totalMonths date period with
  | none => .error (.error "period month arithmetic exceeds the supported range")
  | some totalMonths =>
    let targetYear := totalMonths / 12
    let targetMonth := (totalMonths % 12).toNat + 1
    if Fits 32 targetYear then
      match fromYmdOpt targetYear targetMonth
          (min date.1.day (dateLastDay targetYear targetMonth)) with
      | none => .error (.error "period result exceeds the supported range")
      | some target => do
        let days ← durationDays period.days
        match checkedAddDays target days with
        | some shifted => .ok shifted
        | none => .error (.error "period result exceeds the supported range")
    else .error (.error "period result year is out of range")

/-! ## The library -/

variable {n : Int} {date : NaiveDate}

section Library

variable (hC : Documented)
include hC

lemma fromYmdOpt_date (date : NaiveDate) :
    fromYmdOpt date.1.year date.1.month date.1.day = some date :=
  hC.fromYmdOpt_iff.mpr ⟨rfl, rfl, rfl⟩

lemma fromYmdOpt_eq_none {year : Int} (h : ¬ (minYear ≤ year ∧ year ≤ maxYear))
    (month day : Nat) : fromYmdOpt year month day = none := by
  rw [Option.eq_none_iff_forall_not_mem]
  intro date hdate
  rw [← (hC.fromYmdOpt_iff.mp hdate).1] at h
  exact h date.2

lemma checkedAddDays_eq_none_iff {days : Int} :
    checkedAddDays date days = none ↔ ¬ InCalendar (date.1.dayNumber + days) := by
  constructor
  · intro hnone hrange
    rcases exists_date hrange with ⟨next, hnext⟩
    rw [hC.checkedAddDays_iff.mpr hnext] at hnone
    cases hnone
  · intro hrange
    rw [Option.eq_none_iff_forall_not_mem]
    intro next hnext
    rw [← hC.checkedAddDays_iff.mp hnext] at hrange
    exact hrange (inCalendar_dayNumber next)

end Library

/-! ## The last day of a month -/

/-- The last month of the range. -/
def LastMonth (year : Int) (month : Nat) : Prop :=
  year = maxYear ∧ month = 12

instance (year : Int) (month : Nat) : Decidable (LastMonth year month) :=
  inferInstanceAs (Decidable (_ ∧ _))

section Library

variable (hC : Documented)
include hC

lemma predOpt_firstOfMonth {last first : NaiveDate}
    (hlast : last.1.day = daysInMonth last.1.year last.1.month) (hfirst : first.1.day = 1)
    (hmonth : first.1.monthCount = last.1.monthCount + 1) : predOpt first = some last := by
  have := Date.dayNumber_monthEnd hlast hfirst hmonth
  apply hC.predOpt_iff.mpr
  omega

/-- The last day is the true one except in the last month. -/
theorem dateLastDay_eq {year : Int} {month : Nat} (hyear : minYear ≤ year ∧ year ≤ maxYear)
    (hmonth : 1 ≤ month ∧ month ≤ 12) :
    dateLastDay year month = if LastMonth year month then 28 else daysInMonth year month := by
  let last : NaiveDate := ⟨⟨year, month, daysInMonth year month, hmonth.1, hmonth.2,
    one_le_daysInMonth _ _, Nat.le_refl _⟩, hyear⟩
  by_cases hdecember : month = 12
  · subst hdecember
    have hfits : checked 32 (year + 1) = some (year + 1) := by
      apply checked_eq_some
      rw [hC.minYear_eq, hC.maxYear_eq] at hyear
      unfold Fits
      omega
    simp only [dateLastDay, if_true, hfits, Option.bind_some]
    by_cases hend : year = maxYear
    · rw [fromYmdOpt_eq_none hC (by omega), if_pos ⟨hend, rfl⟩]
      rfl
    · let first := firstOf (year + 1) (by omega)
      have hpred : predOpt first = some last := predOpt_firstOfMonth hC rfl rfl
        (by simp only [Date.monthCount, last, first, firstOf]; omega)
      have hfirst : fromYmdOpt (year + 1) 1 1 = some first := fromYmdOpt_date hC first
      rw [hfirst, Option.bind_some, hpred, if_neg (fun h => hend h.1)]
  · let first : NaiveDate := ⟨⟨year, month + 1, 1, by omega, by omega, Nat.le_refl _,
      one_le_daysInMonth _ _⟩, hyear⟩
    have hpred : predOpt first = some last := predOpt_firstOfMonth hC rfl rfl
      (by simp only [Date.monthCount, last, first]; omega)
    have hfirst : fromYmdOpt year (month + 1) 1 = some first := fromYmdOpt_date hC first
    simp only [dateLastDay, if_neg hdecember]
    rw [hfirst, Option.bind_some, hpred, if_neg (fun h => hdecember h.2)]

end Library

/-! ## Adding a period -/

/-- The month arithmetic stays in 64 bits before the months of the period are added. -/
def MonthsFit (date : NaiveDate) (period : Period) : Prop :=
  Fits 64 (period.years * 12) ∧ Fits 64 (date.1.monthCount + period.years * 12)

instance (date : NaiveDate) (period : Period) : Decidable (MonthsFit date period) :=
  inferInstanceAs (Decidable (_ ∧ _))

/-- The month of the sum. -/
def sumMonths (date : NaiveDate) (period : Period) : Int :=
  date.1.monthCount + 12 * period.years + period.months

/-- The date of the sum before the days are added. -/
def shifted (date : NaiveDate) (period : Period) : Date :=
  Date.clamped (sumMonths date period) date.1.day date.1.one_le_day

/-- The months can be added, to a month of the supported range. -/
def Shiftable (date : NaiveDate) (period : Period) : Prop :=
  MonthsFit date period ∧
    minYear ≤ (shifted date period).year ∧ (shifted date period).year ≤ maxYear

instance (date : NaiveDate) (period : Period) : Decidable (Shiftable date period) :=
  inferInstanceAs (Decidable (_ ∧ _))

/-- The days by which the last month is taken to be too short. -/
def cutDays (date : NaiveDate) (period : Period) : Nat :=
  if LastMonth (shifted date period).year (shifted date period).month then date.1.day - 28 else 0

/-- A date and some more days. -/
def sumOfDays (date : NaiveDate) (days : Int) (message : String) : Outcome NaiveDate := do
  let days ← durationDays days
  match checkedAddDays date days with
  | some next => .ok next
  | none => .error (.error message)

lemma dateAddDays_eq (date : NaiveDate) (days : Int) : dateAddDays date days =
    sumOfDays date days "date addition exceeds the supported range" := rfl

lemma cutDays_eq_zero_iff (date : NaiveDate) (period : Period) : cutDays date period = 0 ↔
      ¬ (LastMonth (shifted date period).year (shifted date period).month ∧ 28 < date.1.day) := by
  unfold cutDays
  split
  · have hlast : LastMonth _ _ := ‹_›
    rw [and_iff_right hlast]
    omega
  · have hlast : ¬ LastMonth _ _ := ‹_›
    exact iff_of_true rfl (fun h => hlast h.1)

section Library

variable (hC : Documented)
include hC

lemma monthCount_fits (date : NaiveDate) :
    Fits 64 (date.1.year * 12) ∧ Fits 64 (date.1.year * 12 + (date.1.month - 1 : Nat)) := by
  have hyear := date.2
  have := date.1.month_le
  have hmin := hC.minYear_eq
  have hmax := hC.maxYear_eq
  unfold Fits
  omega

lemma totalMonths_eq (date : NaiveDate) (period : Period) : totalMonths date period =
      if MonthsFit date period then checked 64 (sumMonths date period) else none := by
  have hbase := monthCount_fits hC date
  have hcount : date.1.year * 12 + (date.1.month - 1 : Nat) = date.1.monthCount := by
    rw [Date.monthCount, Int.mul_comm]
  unfold totalMonths
  rw [checked_eq_some hbase.1, Option.bind_some, checked_eq_some hbase.2, Option.bind_some, hcount]
  by_cases hyears : Fits 64 (period.years * 12)
  case neg => rw [checked_eq_none hyears, if_neg (fun h => hyears h.1)]; rfl
  case pos =>
    rw [checked_eq_some hyears, Option.bind_some]
    by_cases hsum : Fits 64 (date.1.monthCount + period.years * 12)
    case neg => rw [checked_eq_none hsum, if_neg (fun h => hsum h.2)]; rfl
    case pos =>
      rw [checked_eq_some hsum, Option.bind_some, if_pos ⟨hyears, hsum⟩, sumMonths, Int.mul_comm 12]

/-- The date that the source takes before it adds the days. -/
lemma fromYmdOpt_target (months : Int) {day : Nat} (hone : 1 ≤ day) (hday : day ≤ 31)
    (hyear : minYear ≤ months / 12 ∧ months / 12 ≤ maxYear) :
    ∃ target : NaiveDate, fromYmdOpt (months / 12) ((months % 12).toNat + 1)
          (min day (dateLastDay (months / 12) ((months % 12).toNat + 1))) = some target ∧
        target.1.dayNumber = (Date.clamped months day hone).dayNumber -
          (if LastMonth (months / 12) ((months % 12).toNat + 1) then day - 28 else 0 : Nat) := by
  have hmonth : 1 ≤ (months % 12).toNat + 1 ∧ (months % 12).toNat + 1 ≤ 12 := by omega
  rw [dateLastDay_eq hC hyear hmonth]
  by_cases hlast : LastMonth (months / 12) ((months % 12).toNat + 1)
  case pos =>
    have hdays : daysInMonth (months / 12) ((months % 12).toNat + 1) = 31 := by
      rw [hlast.2]
      rfl
    let target : Date :=
      { Date.clamped months day hone with
        day := min day 28
        one_le_day := by omega
        day_le := by
          change min day 28 ≤ daysInMonth (months / 12) ((months % 12).toNat + 1)
          omega }
    refine ⟨⟨target, hyear⟩, ?_, ?_⟩
    · rw [if_pos hlast]
      exact fromYmdOpt_date hC ⟨target, hyear⟩
    · rw [if_pos hlast]
      simp only [Date.dayNumber, Date.ordinal, Date.clamped, target, hdays]
      omega
  case neg =>
    refine ⟨⟨Date.clamped months day hone, hyear⟩, ?_, ?_⟩
    · rw [if_neg hlast]
      exact fromYmdOpt_date hC ⟨Date.clamped months day hone, hyear⟩
    · rw [if_neg hlast]
      simp

variable {period : Period}

lemma periodAddToDate_eq (h : Shiftable date period) : ∃ target : NaiveDate,
    target.1.dayNumber = (shifted date period).dayNumber - cutDays date period ∧
      periodAddToDate period date =
        sumOfDays target period.days "period result exceeds the supported range" := by
  have hyear : minYear ≤ sumMonths date period / 12 ∧ sumMonths date period / 12 ≤ maxYear := h.2
  have hfits : Fits 64 (sumMonths date period) ∧ Fits 32 (sumMonths date period / 12) := by
    rw [hC.minYear_eq, hC.maxYear_eq] at hyear
    unfold Fits
    omega
  have hday : date.1.day ≤ 31 := date.1.day_le.trans (daysInMonth_le _ _)
  rcases fromYmdOpt_target hC (sumMonths date period) date.1.one_le_day hday hyear with
    ⟨target, htarget, hnumber⟩
  refine ⟨target, hnumber, ?_⟩
  unfold periodAddToDate
  rw [totalMonths_eq hC, if_pos h.1, checked_eq_some hfits.1]
  simp only [if_pos hfits.2, htarget, sumOfDays]

lemma periodAddToDate_not_shiftable (h : ¬ Shiftable date period) :
    ∃ message, periodAddToDate period date = .error (.error message) := by
  unfold periodAddToDate
  rw [totalMonths_eq hC]
  by_cases hfit : MonthsFit date period
  case neg =>
    rw [if_neg hfit]
    exact ⟨_, rfl⟩
  case pos =>
    have hyear : ¬ (minYear ≤ sumMonths date period / 12 ∧ sumMonths date period / 12 ≤ maxYear) :=
      fun hyear => h ⟨hfit, hyear⟩
    rw [if_pos hfit]
    by_cases hsum : Fits 64 (sumMonths date period)
    case neg =>
      rw [checked_eq_none hsum]
      exact ⟨_, rfl⟩
    case pos =>
      rw [checked_eq_some hsum]
      simp only [fromYmdOpt_eq_none hC hyear]
      split <;> exact ⟨_, rfl⟩

lemma sumOfDays_eq_ok_iff {next : NaiveDate} {days : Int} {message : String} :
    sumOfDays date days message = .ok next ↔
      SecondsFit (days * 86400) ∧ next.1.dayNumber = date.1.dayNumber + days := by
  unfold sumOfDays
  rw [hC.durationDays_eq]
  by_cases hfit : SecondsFit (days * 86400)
  case neg =>
    rw [if_neg hfit]
    exact iff_of_false nofun (fun h => hfit h.1)
  case pos =>
    rw [if_pos hfit, and_iff_right hfit, ← hC.checkedAddDays_iff]
    cases h : checkedAddDays date days with
    | none =>
      simp only [bind, Except.bind, h]
      exact iff_of_false nofun nofun
    | some sum =>
      simp only [bind, Except.bind, h]
      exact ⟨fun heq => congrArg some (Except.ok.inj heq), fun heq => by rw [Option.some.inj heq]⟩

/-- The distance of two days of the range is a duration. -/
lemma secondsFit_of_inCalendar {days : Int} (h : InCalendar n) (hsum : InCalendar (n + days)) :
    SecondsFit (days * 86400) := by
  unfold InCalendar yearStart at h hsum
  rw [hC.minYear_eq, hC.maxYear_eq] at h hsum
  unfold SecondsFit maxSeconds
  omega

end Library

/-- The period that shifts nothing. -/
def Period.zero : Period :=
  ⟨0, 0, 0, by decide, by decide, by decide⟩

lemma shifted_zero (date : NaiveDate) : shifted date Period.zero = date.1 := by
  have hsum : sumMonths date Period.zero = date.1.monthCount := by simp [sumMonths, Period.zero]
  unfold shifted
  simp only [hsum]
  exact date.1.clamped_self

section Library

variable (hC : Documented)
include hC

lemma monthsFit_zero (date : NaiveDate) : MonthsFit date Period.zero := by
  have hfits := (monthCount_fits hC date).2
  rw [Int.mul_comm] at hfits
  simpa [MonthsFit, Period.zero, Fits, Date.monthCount] using hfits

lemma periodAddToDate_eq_ok_iff {result : NaiveDate}
    (hyear : minYear ≤ (shifted date period).year ∧ (shifted date period).year ≤ maxYear)
    (hresult : result.1.dayNumber = (shifted date period).dayNumber + period.days) :
    periodAddToDate period date = .ok result ↔ MonthsFit date period ∧
        ¬ (LastMonth (shifted date period).year (shifted date period).month ∧ 28 < date.1.day) := by
  rw [← cutDays_eq_zero_iff]
  by_cases hfit : MonthsFit date period
  case neg =>
    rcases periodAddToDate_not_shiftable hC (fun h => hfit h.1 : ¬ Shiftable date period) with
      ⟨message, hmessage⟩
    rw [hmessage]
    exact iff_of_false nofun (fun h => hfit h.1)
  case pos =>
    have hshifted := inCalendar_dayNumber ⟨shifted date period, hyear⟩
    have hsum := inCalendar_dayNumber result
    rw [hresult] at hsum
    rcases periodAddToDate_eq hC ⟨hfit, hyear⟩ with ⟨target, htarget, hadd⟩
    rw [hadd, sumOfDays_eq_ok_iff hC, hresult, htarget, and_iff_right hfit,
      and_iff_right (secondsFit_of_inCalendar hC hshifted hsum)]
    omega

/-- If the month of the sum and the sum are in the supported range, then adding the period gives
the sum: the date with the month shifted and the day cut to the month, and then shifted by the
days. This holds if and only if the month arithmetic stays in 64 bits and the month is not the
last of the range with a day after the 28th. The zero period keeps all other dates. -/
theorem period_add_exact_iff (date : NaiveDate) : (∀ (period : Period) (result : NaiveDate),
      minYear ≤ (shifted date period).year ∧ (shifted date period).year ≤ maxYear →
      result.1.dayNumber = (shifted date period).dayNumber + period.days →
      (periodAddToDate period date = .ok result ↔ MonthsFit date period ∧
          ¬ (LastMonth (shifted date period).year (shifted date period).month ∧ 28 < date.1.day))) ∧
      (periodAddToDate Period.zero date = .ok date ↔
        ¬ (LastMonth date.1.year date.1.month ∧ 28 < date.1.day)) := by
  refine ⟨fun period result hyear hresult => periodAddToDate_eq_ok_iff hC hyear hresult, ?_⟩
  have hzero := shifted_zero date
  rw [periodAddToDate_eq_ok_iff hC (by rw [hzero]; exact date.2)
    (by rw [hzero]; simp [Period.zero]), hzero, and_iff_right (monthsFit_zero hC date)]

end Library

end Chrono

/-! ## Dates at the ends of their months -/

/-- The last day of January and a month and a day, in a leap year. -/
theorem end_of_january_plus_month : ∃ date result : NaiveDate, ∃ period : Period,
      (date.1.year, date.1.month, date.1.day) = (2024, 1, 31) ∧
      (period.years, period.months, period.days) = (0, 1, 1) ∧
      periodAddToDate period date = .ok result ∧
      (result.1.year, result.1.month, result.1.day) = (2024, 3, 1) := by
  refine ⟨⟨⟨2024, 1, 31, by decide, by decide, by decide, by decide⟩, by decide⟩,
    ⟨⟨2024, 3, 1, by decide, by decide, by decide, by decide⟩, by decide⟩,
    ⟨0, 1, 1, by decide, by decide, by decide⟩, rfl, rfl, ?_, rfl⟩
  exact ((period_add_exact_iff gregorian_documented _).1 _ _ (by decide) (by decide)).mpr (by decide)

/-- The last day of the range. -/
def lastDate : NaiveDate :=
  ⟨⟨maxYear, 12, 31, by decide, by decide, by decide, by decide⟩, by decide⟩

/-- The zero period moves the last day of the range to the 28th. A period of four months, given
by years whose months need more than 64 bits, is refused. -/
theorem last_december_is_cut_short :
    (∃ result : NaiveDate, periodAddToDate Period.zero lastDate = .ok result ∧
      (result.1.year, result.1.month, result.1.day) = (maxYear, 12, 28)) ∧
    ∃ (date : NaiveDate) (period : Period), sumMonths date period = date.1.monthCount + 4 ∧
        (shifted date period).year = 2024 ∧ period.days = 0 ∧
        periodAddToDate period date =
          .error (.error "period month arithmetic exceeds the supported range") := by
  refine ⟨⟨⟨⟨maxYear, 12, 28, by decide, by decide, by decide, by decide⟩, by decide⟩, ?_, rfl⟩,
    firstOf 2024 (by decide), ⟨768614336404564651, -9223372036854775808, 0, by decide, by decide, by decide⟩, ?_⟩
  · decide
  · decide

end MuxRuntime.Datetime
