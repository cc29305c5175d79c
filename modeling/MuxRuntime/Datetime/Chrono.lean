import MuxRuntime.Foundations.Calendar

/-!
# The date and time library

What the source calls of its date and time library is a parameter, `Chrono`, and what is assumed
of the library is `Documented`. A date is a day of the Gregorian calendar in a range of years.
The fraction of a time of day may go past one second: this is how a leap second is kept, as a
longer last second of its minute.
-/

namespace MuxRuntime.Datetime

open Calendar

/-- A call gives a value or an error, or it takes the process down. -/
inductive Failure where
  | error (message : String)
  | aborted
deriving DecidableEq, Repr

/-- The result of a call. -/
abbrev Outcome (α : Type) := Except Failure α

/-! ## Values -/

/-- The years that the library supports. -/
class Years where
  minYear : Int
  maxYear : Int

open Years

/-- The nanoseconds of a second. -/
def nanosPerSecond : Nat := 1000000000

/-- A second of the day and the nanoseconds in it. -/
@[ext]
structure NaiveTime where
  secs : Nat
  frac : Nat
  secs_lt : secs < 86400
  frac_lt : frac < 2 * nanosPerSecond
deriving DecidableEq, Repr

/-- The number of the day from which seconds are counted. -/
def epochDay : Int := 719162

/-- The day of a number of nanoseconds since the epoch. -/
def dayOf (nanos : Int) : Int :=
  nanos / (86400 * nanosPerSecond) + epochDay

/-- The longest duration in whole seconds. -/
def maxSeconds : Int := (2 ^ 63 - 1) / 1000

/-- The durations of whole seconds. -/
def SecondsFit (seconds : Int) : Prop :=
  -maxSeconds ≤ seconds ∧ seconds ≤ maxSeconds

instance (seconds : Int) : Decidable (SecondsFit seconds) :=
  inferInstanceAs (Decidable (_ ∧ _))

section Values

variable [Years]

/-- A date in the supported range. -/
abbrev NaiveDate := { date : Date // minYear ≤ date.year ∧ date.year ≤ maxYear }

/-- A point in time. -/
@[ext]
structure DateTime where
  date : NaiveDate
  time : NaiveTime
deriving DecidableEq

/-- The first day of a year. -/
def firstOf (year : Int) (h : minYear ≤ year ∧ year ≤ maxYear) : NaiveDate :=
  ⟨⟨year, 1, 1, Nat.le_refl 1, by omega, Nat.le_refl 1, one_le_daysInMonth _ _⟩, h⟩

namespace DateTime

/-- The whole seconds since the epoch. -/
def timestamp (dt : DateTime) : Int :=
  (dt.date.1.dayNumber - epochDay) * 86400 + dt.time.secs

/-- The nanoseconds since the epoch. -/
def nanos (dt : DateTime) : Int :=
  dt.timestamp * nanosPerSecond + dt.time.frac

/-- The points in time that are not in a leap second. -/
def Regular (dt : DateTime) : Prop :=
  dt.time.frac < nanosPerSecond

instance (dt : DateTime) : Decidable dt.Regular :=
  inferInstanceAs (Decidable (_ < _))

/-- The sum stays in the leap second, or in the second that has it. -/
def Stays (dt : DateTime) (nanos : Int) : Prop :=
  nanosPerSecond ≤ dt.time.frac ∧ dt.time.frac + nanos < 2 * nanosPerSecond ∧
    -nanosPerSecond < nanos

instance (dt : DateTime) (nanos : Int) : Decidable (dt.Stays nanos) :=
  inferInstanceAs (Decidable (_ ∧ _))

/-- The nanoseconds of a sum that does not stay. What leaves a leap second forwards has spent
it. -/
def sumNanos (dt : DateTime) (nanos : Int) : Int :=
  if nanosPerSecond ≤ dt.time.frac ∧ 2 * nanosPerSecond ≤ dt.time.frac + nanos then
    dt.nanos + nanos - nanosPerSecond
  else dt.nanos + nanos

end DateTime

end Values

/-! ## The library -/

/-- The operations of the library that the source calls. Durations are numbers of days or of
nanoseconds; one that is too long is a panic. -/
class Chrono extends Years where
  fromYmdOpt : (year : Int) → (month day : Nat) → Option NaiveDate
  predOpt : NaiveDate → Option NaiveDate
  durationDays : (days : Int) → Outcome Int
  checkedAddDays : NaiveDate → (days : Int) → Option NaiveDate
  fromHmsNanoOpt : (hour minute second nanos : Nat) → Option NaiveTime
  timestamp : DateTime → Int
  fromTimestamp : (seconds : Int) → (nanos : Nat) → Option DateTime
  durationSeconds : (seconds : Int) → Outcome Int
  checkedAdd : DateTime → (nanos : Int) → Option DateTime

open Chrono

/-- The behaviour that is assumed of the library. -/
structure Documented [Chrono] : Prop where
  minYear_eq : minYear = -262143
  maxYear_eq : maxYear = 262142
  /-- The days of the calendar in the range are dates, and nothing else is. -/
  fromYmdOpt_iff : ∀ {year month day} {date : NaiveDate}, fromYmdOpt year month day = some date ↔
    date.1.year = year ∧ date.1.month = month ∧ date.1.day = day
  predOpt_iff : ∀ {date next : NaiveDate}, predOpt date = some next ↔
    next.1.dayNumber = date.1.dayNumber - 1
  checkedAddDays_iff : ∀ {date next : NaiveDate} {days : Int},
    checkedAddDays date days = some next ↔ next.1.dayNumber = date.1.dayNumber + days
  durationDays_eq : ∀ days, durationDays days =
    if SecondsFit (days * 86400) then .ok days else .error .aborted
  timestamp_eq : ∀ dt : DateTime, timestamp dt = dt.timestamp
  fromTimestamp_iff : ∀ {seconds : Int} {nanos : Nat} {dt : DateTime}, nanos < nanosPerSecond →
    (fromTimestamp seconds nanos = some dt ↔ dt.timestamp = seconds ∧ dt.time.frac = nanos)
  durationSeconds_eq : ∀ seconds, durationSeconds seconds =
    if SecondsFit seconds then .ok (seconds * nanosPerSecond) else .error .aborted
  /-- A leap second is a second of its own for sums. -/
  checkedAdd_iff : ∀ {dt next : DateTime} {nanos : Int}, checkedAdd dt nanos = some next ↔
    if dt.Stays nanos then
      next.date = dt.date ∧ next.time.secs = dt.time.secs ∧ next.time.frac = dt.time.frac + nanos
    else next.nanos = dt.sumNanos nanos ∧ next.Regular

/-! ## Day numbers of the range -/

section Range

variable [Years] {n : Int}

/-- The day numbers of the supported range. -/
def InCalendar (n : Int) : Prop :=
  yearStart minYear ≤ n ∧ n < yearStart (maxYear + 1)

instance (n : Int) : Decidable (InCalendar n) :=
  inferInstanceAs (Decidable (_ ∧ _))

lemma inCalendar_iff (n : Int) : InCalendar n ↔ minYear ≤ yearOf n ∧ yearOf n ≤ maxYear := by
  unfold InCalendar
  rw [yearStart_le_iff, ← not_le, yearStart_le_iff]
  omega

lemma inCalendar_dayNumber (date : NaiveDate) : InCalendar date.1.dayNumber := by
  rw [inCalendar_iff, ← date.1.year_eq_yearOf]
  exact date.2

/-- The date of a day number. -/
def fromDayNumberOpt (n : Int) : Option NaiveDate :=
  if h : minYear ≤ yearOf n ∧ yearOf n ≤ maxYear then some ⟨Date.ofDayNumber n, h⟩ else none

lemma fromDayNumberOpt_eq_some_iff {date : NaiveDate} :
    fromDayNumberOpt n = some date ↔ date.1.dayNumber = n := by
  unfold fromDayNumberOpt
  constructor
  · intro h
    split at h
    · rw [← Option.some.inj h]
      exact Date.dayNumber_ofDayNumber n
    · cases h
  intro h
  subst h
  have hyear := date.1.year_eq_yearOf
  rw [dif_pos (by rw [← hyear]; exact date.2)]
  congr
  exact Date.ofDayNumber_dayNumber date.1

lemma exists_date (h : InCalendar n) : ∃ date : NaiveDate, date.1.dayNumber = n :=
  ⟨⟨Date.ofDayNumber n, (inCalendar_iff n).mp h⟩, Date.dayNumber_ofDayNumber n⟩

/-- The point in time of some nanoseconds, which is in no leap second. -/
def fromNanosOpt (nanos : Int) : Option DateTime :=
  (fromDayNumberOpt (dayOf nanos)).map fun date =>
    ⟨date, (nanos / nanosPerSecond % 86400).toNat, (nanos % nanosPerSecond).toNat, by omega,
      by unfold nanosPerSecond; omega⟩

variable {dt : DateTime}

lemma dayOf_nanos (h : dt.Regular) : dayOf dt.nanos = dt.date.1.dayNumber := by
  have hsecs := dt.time.secs_lt
  unfold DateTime.Regular nanosPerSecond at h
  unfold dayOf DateTime.nanos DateTime.timestamp nanosPerSecond
  omega

lemma fromNanosOpt_eq_some_iff {nanos : Int} :
    fromNanosOpt nanos = some dt ↔ dt.nanos = nanos ∧ dt.Regular := by
  unfold fromNanosOpt
  constructor
  · intro hsome
    rcases Option.map_eq_some_iff.mp hsome with ⟨date, hdate, rfl⟩
    have hnumber := fromDayNumberOpt_eq_some_iff.mp hdate
    simp only [DateTime.nanos, DateTime.timestamp, DateTime.Regular, hnumber]
    unfold dayOf nanosPerSecond
    omega
  · rintro ⟨rfl, hregular⟩
    have hsecs := dt.time.secs_lt
    rw [dayOf_nanos hregular, fromDayNumberOpt_eq_some_iff.mpr rfl, Option.map_some]
    unfold DateTime.Regular nanosPerSecond at hregular
    refine congrArg some (DateTime.ext rfl (NaiveTime.ext ?_ ?_))
    all_goals
      simp only [DateTime.nanos, DateTime.timestamp, nanosPerSecond]
      omega

lemma exists_dateTime {nanos : Int} (h : InCalendar (dayOf nanos)) :
    ∃ dt : DateTime, dt.nanos = nanos ∧ dt.Regular := by
  rcases exists_date h with ⟨date, hdate⟩
  simp only [← fromNanosOpt_eq_some_iff, fromNanosOpt, fromDayNumberOpt_eq_some_iff.mpr hdate]
  exact ⟨_, rfl⟩

end Range

/-! ## An executable library -/

instance (priority := low) gregorianYears : Years where
  minYear := -262143
  maxYear := 262142

/-- The library as its documentation describes it. -/
instance gregorian : Chrono where
  fromYmdOpt year month day := (Date.ofParts? year month day).bind fun date =>
    if h : minYear ≤ date.year ∧ date.year ≤ maxYear then some ⟨date, h⟩ else none
  predOpt date := fromDayNumberOpt (date.1.dayNumber - 1)
  durationDays days := if SecondsFit (days * 86400) then .ok days else .error .aborted
  checkedAddDays date days := fromDayNumberOpt (date.1.dayNumber + days)
  fromHmsNanoOpt hour minute second nanos :=
    if h : hour < 24 ∧ minute < 60 ∧ second < 60 ∧ nanos < 2 * nanosPerSecond then
      -- only the last second of a minute can be longer
      if nanosPerSecond ≤ nanos ∧ second ≠ 59 then none
      else some ⟨hour * 3600 + minute * 60 + second, nanos, by omega, h.2.2.2⟩
    else none
  timestamp := DateTime.timestamp
  fromTimestamp seconds nanos :=
    (fromDayNumberOpt (seconds / 86400 + epochDay)).bind fun date =>
      if h : nanos < 2 * nanosPerSecond then
        if nanosPerSecond ≤ nanos ∧ seconds % 60 ≠ 59 then none
        else some ⟨date, (seconds % 86400).toNat, nanos, by omega, h⟩
      else none
  durationSeconds seconds :=
    if SecondsFit seconds then .ok (seconds * nanosPerSecond) else .error .aborted
  checkedAdd dt nanos :=
    if h : dt.Stays nanos then
      some ⟨dt.date, dt.time.secs, (dt.time.frac + nanos).toNat, dt.time.secs_lt,
        by have := h.2.1; unfold nanosPerSecond at *; omega⟩
    else fromNanosOpt (dt.sumNanos nanos)

lemma gregorian_fromTimestamp {seconds : Int} {nanos : Nat} {dt : DateTime}
    (h : nanos < nanosPerSecond) : fromTimestamp seconds nanos = some dt ↔
      dt.timestamp = seconds ∧ dt.time.frac = nanos := by
  have hshort : ¬ (nanosPerSecond ≤ nanos ∧ seconds % 60 ≠ 59) := by omega
  have hlong : nanos < 2 * nanosPerSecond := by omega
  simp only [fromTimestamp, dif_pos hlong, if_neg hshort]
  constructor
  · intro hsome
    rcases Option.bind_eq_some_iff.mp hsome with ⟨date, hdate, heq⟩
    have hnumber := fromDayNumberOpt_eq_some_iff.mp hdate
    cases Option.some.inj heq
    refine ⟨?_, rfl⟩
    simp only [DateTime.timestamp, hnumber]
    omega
  · rintro ⟨rfl, rfl⟩
    have hsecs := dt.time.secs_lt
    have hdate : fromDayNumberOpt (dt.timestamp / 86400 + epochDay) = some dt.date := by
      apply fromDayNumberOpt_eq_some_iff.mpr
      unfold DateTime.timestamp
      omega
    rw [hdate, Option.bind_some]
    refine congrArg some (DateTime.ext rfl (NaiveTime.ext ?_ rfl))
    simp only [DateTime.timestamp]
    omega

lemma gregorian_checkedAdd {dt next : DateTime} {nanos : Int} : checkedAdd dt nanos = some next ↔
    if dt.Stays nanos then
      next.date = dt.date ∧ next.time.secs = dt.time.secs ∧ next.time.frac = dt.time.frac + nanos
    else next.nanos = dt.sumNanos nanos ∧ next.Regular := by
  by_cases h : dt.Stays nanos
  case neg => simp only [checkedAdd, dif_neg h, if_neg h, fromNanosOpt_eq_some_iff]
  case pos =>
    have hleap := h.1
    have hback := h.2.2
    simp only [checkedAdd, dif_pos h, if_pos h]
    constructor
    · intro hsome
      cases Option.some.inj hsome
      refine ⟨rfl, rfl, ?_⟩
      simp only
      omega
    · rintro ⟨hdate, hsecs, hfrac⟩
      refine congrArg some (DateTime.ext hdate.symm (NaiveTime.ext hsecs.symm ?_))
      simp only
      omega

/-- The assumptions hold of an executable library. -/
theorem gregorian_documented : Documented where
  minYear_eq := rfl
  maxYear_eq := rfl
  fromYmdOpt_iff := by
    intro year month day date
    constructor
    · intro h
      rcases Option.bind_eq_some_iff.mp h with ⟨parts, hparts, hdate⟩
      unfold Date.ofParts? at hparts
      split_ifs at hparts hdate
      cases hparts
      cases hdate
      exact ⟨rfl, rfl, rfl⟩
    · rintro ⟨rfl, rfl, rfl⟩
      have hparts : Date.ofParts? date.1.year date.1.month date.1.day = some date.1 :=
        dif_pos ⟨date.1.one_le_month, date.1.month_le, date.1.one_le_day, date.1.day_le⟩
      simp only [fromYmdOpt, hparts, Option.bind_some]
      exact dif_pos date.2
  predOpt_iff := fromDayNumberOpt_eq_some_iff
  checkedAddDays_iff := fromDayNumberOpt_eq_some_iff
  durationDays_eq _ := rfl
  timestamp_eq _ := rfl
  fromTimestamp_iff := gregorian_fromTimestamp
  durationSeconds_eq _ := rfl
  checkedAdd_iff := gregorian_checkedAdd

/-- The first day of the epoch. -/
def epoch : NaiveDate :=
  firstOf 1970 (by decide)

end MuxRuntime.Datetime
