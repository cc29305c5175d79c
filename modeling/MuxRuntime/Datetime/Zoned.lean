import MuxRuntime.Datetime.Times

/-!
# Sums outside of the supported range

The three additions answer with a value or with an error; a duration that is too long for its type
is a panic. A duration is added to a zoned point in time in two steps, the whole seconds first,
rounded down, so that the first step can leave the range though the sum is inside.
-/

namespace MuxRuntime.Datetime

open Calendar Years Chrono

/-! ## Adding to a zoned point in time -/

section Chrono

variable [Chrono]

/-- A point in time with its time zone. -/
structure ZonedDateTime (Zone : Type) where
  utc : DateTime
  zone : Zone

/-- The seconds are added first. -/
def zonedAddDuration {Zone : Type} (value : ZonedDateTime Zone) (nanos : Int) :
    Outcome (ZonedDateTime Zone) :=
  let seconds := nanos / nanosPerSecond
  let fraction := nanos % nanosPerSecond
  if Fits 64 seconds then do
    let seconds ← durationSeconds seconds
    match (checkedAdd value.utc seconds).bind fun next => checkedAdd next fraction with
    | some next => .ok { value with utc := next }
    | none => .error (.error "datetime addition exceeds the supported range")
  else .error (.error "datetime addition exceeds the supported range")

/-! ## Answers -/

/-- A call answers with a value if something is in the supported range and with an error if it is
not. -/
def Answers {α : Type} (outcome : Outcome α) (inRange : Prop) : Prop :=
  match outcome with
  | .ok _ => inRange
  | .error (.error _) => ¬ inRange
  | .error .aborted => False

/-- The day number of the sum of a date and a period. -/
def sumDay (date : NaiveDate) (period : Period) : Int :=
  (shifted date period).dayNumber + period.days

/-- The inputs on which adding a period answers as it should. If the months cannot be added, the
days must not lead back into the range; if they can, the days must be a duration, and the wrong
length of the last month must not matter. -/
def PeriodAnswers (date : NaiveDate) (period : Period) : Prop :=
  if Shiftable date period then
    SecondsFit (period.days * 86400) ∧
      (InCalendar (sumDay date period - cutDays date period) ↔ InCalendar (sumDay date period))
  else ¬ InCalendar (sumDay date period)

section Library

variable (hC : Documented)
include hC

lemma answers_sumOfDays_iff (date : NaiveDate) (days sum : Int) (message : String) :
    Answers (sumOfDays date days message) (InCalendar sum) ↔
      SecondsFit (days * 86400) ∧ (InCalendar (date.1.dayNumber + days) ↔ InCalendar sum) := by
  unfold sumOfDays
  rw [hC.durationDays_eq]
  by_cases hfit : SecondsFit (days * 86400)
  case neg =>
    rw [if_neg hfit]
    exact iff_of_false id (fun h => hfit h.1)
  case pos =>
    rw [if_pos hfit, and_iff_right hfit]
    cases h : checkedAddDays date days with
    | none =>
      simp only [bind, Except.bind, h, Answers]
      rw [iff_false_left ((checkedAddDays_eq_none_iff hC).mp h)]
    | some next =>
      have hnext := inCalendar_dayNumber next
      rw [hC.checkedAddDays_iff.mp h] at hnext
      simp only [bind, Except.bind, h, Answers]
      rw [iff_true_left hnext]

theorem dateAddDays_answers_iff (date : NaiveDate) (days : Int) :
    Answers (dateAddDays date days) (InCalendar (date.1.dayNumber + days)) ↔
      SecondsFit (days * 86400) := by
  rw [dateAddDays_eq, answers_sumOfDays_iff hC, and_iff_left Iff.rfl]

theorem periodAddToDate_answers_iff (date : NaiveDate) (period : Period) :
    Answers (periodAddToDate period date) (InCalendar (sumDay date period)) ↔
      PeriodAnswers date period := by
  unfold PeriodAnswers
  by_cases hshift : Shiftable date period
  case pos =>
    have hsum : (shifted date period).dayNumber - cutDays date period + period.days =
        sumDay date period - cutDays date period := by
      unfold sumDay
      omega
    rcases periodAddToDate_eq hC hshift with ⟨target, htarget, hadd⟩
    rw [if_pos hshift, hadd, answers_sumOfDays_iff hC, htarget, hsum]
  case neg =>
    rcases periodAddToDate_not_shiftable hC hshift with ⟨message, hmessage⟩
    rw [if_neg hshift, hmessage]
    exact Iff.rfl

end Library

/-! ## Sums of points in time -/

/-- The day of the sum, with no bound on the duration and on the calendar. -/
def DateTime.sumDay (dt : DateTime) (nanos : Int) : Int :=
  if dt.Stays nanos then dt.date.1.dayNumber else dayOf (dt.sumNanos nanos)

/-- The sum in two steps, with the seconds first. -/
def DateTime.twoSteps (dt : DateTime) (nanos : Int) : Option DateTime :=
  (checkedAdd dt (nanos / nanosPerSecond * nanosPerSecond)).bind fun next =>
    checkedAdd next (nanos % nanosPerSecond)

/-- The sums of negative durations that are in the range, while the sum with the seconds rounded
down is not, or the sum with the leap second counted as the second after it. -/
def SumLost (dt : DateTime) (nanos : Int) : Prop :=
  nanos < 0 ∧ InCalendar (dt.sumDay nanos) ∧
    ¬ (InCalendar (dayOf (dt.nanos + nanos / nanosPerSecond * nanosPerSecond)) ∧
      InCalendar (dayOf (dt.nanos + nanos)))

variable {dt : DateTime} {nanos : Int}

lemma sumDay_stays (h : dt.Stays nanos) : dt.sumDay nanos = dt.date.1.dayNumber :=
  if_pos h

lemma sumDay_moves (h : ¬ dt.Stays nanos) : dt.sumDay nanos = dayOf (dt.sumNanos nanos) :=
  if_neg h

lemma not_stays_of_regular (h : dt.Regular) (nanos : Int) : ¬ dt.Stays nanos := by
  intro hstays
  have := hstays.1
  unfold DateTime.Regular at h
  omega

lemma sumNanos_of_regular (h : dt.Regular) (nanos : Int) :
    dt.sumNanos nanos = dt.nanos + nanos := by
  unfold DateTime.Regular at h
  exact if_neg (by omega)

lemma sumNanos_of_neg (dt : DateTime) (h : nanos < 0) : dt.sumNanos nanos = dt.nanos + nanos := by
  have := dt.time.frac_lt
  exact if_neg (by omega)

section Library

variable (hC : Documented)
include hC

/-- A sum that does not stay is the point in time of its nanoseconds. -/
lemma checkedAdd_eq_some_iff {next : DateTime} (h : ¬ dt.Stays nanos) :
    checkedAdd dt nanos = some next ↔ next.nanos = dt.sumNanos nanos ∧ next.Regular := by
  rw [hC.checkedAdd_iff, if_neg h]

/-- A sum is refused exactly if its day is not in the supported range. -/
lemma checkedAdd_isSome_iff (dt : DateTime) (nanos : Int) :
    (checkedAdd dt nanos).isSome = true ↔ InCalendar (dt.sumDay nanos) := by
  rw [Option.isSome_iff_exists]
  by_cases h : dt.Stays nanos
  case pos =>
    rw [sumDay_stays h]
    refine iff_of_true ?_ (inCalendar_dayNumber dt.date)
    have hfrac : (dt.time.frac + nanos).toNat < 2 * nanosPerSecond ∧ 0 ≤ dt.time.frac + nanos := by
      have hleap := h.1
      have hpast := h.2.1
      have hback := h.2.2
      omega
    refine ⟨⟨dt.date, dt.time.secs, _, dt.time.secs_lt, hfrac.1⟩, hC.checkedAdd_iff.mpr ?_⟩
    rw [if_pos h]
    exact ⟨rfl, rfl, Int.toNat_of_nonneg hfrac.2⟩
  case neg =>
    rw [sumDay_moves h]
    simp only [checkedAdd_eq_some_iff hC h]
    refine ⟨?_, exists_dateTime⟩
    rintro ⟨next, hnanos, hregular⟩
    rw [← hnanos, dayOf_nanos hregular]
    exact inCalendar_dayNumber next.date

/-! ## The two steps -/

lemma checkedAdd_zero (dt : DateTime) : checkedAdd dt 0 = some dt := by
  by_cases hregular : dt.Regular
  · rw [checkedAdd_eq_some_iff hC (not_stays_of_regular hregular 0), sumNanos_of_regular hregular]
    exact ⟨(Int.add_zero _).symm, hregular⟩
  have hstays : dt.Stays 0 := by
    have := dt.time.frac_lt
    unfold DateTime.Regular at hregular
    unfold DateTime.Stays nanosPerSecond at *
    omega
  rw [hC.checkedAdd_iff, if_pos hstays]
  exact ⟨rfl, rfl, (Int.add_zero _).symm⟩

/-- Two steps of which the first leaves a leap second. -/
lemma twoSteps_isSome_iff (h : ¬ dt.Stays (nanos / nanosPerSecond * nanosPerSecond)) :
    (dt.twoSteps nanos).isSome = true ↔
      InCalendar (dayOf (dt.sumNanos (nanos / nanosPerSecond * nanosPerSecond))) ∧
        InCalendar (dayOf (dt.sumNanos (nanos / nanosPerSecond * nanosPerSecond) +
          nanos % nanosPerSecond)) := by
  unfold DateTime.twoSteps
  rw [← sumDay_moves h, ← checkedAdd_isSome_iff hC]
  rcases hfirst : checkedAdd dt (nanos / nanosPerSecond * nanosPerSecond) with _ | next
  · simp
  have hnext := (checkedAdd_eq_some_iff hC h).mp hfirst
  have hregular := not_stays_of_regular hnext.2 (nanos % nanosPerSecond)
  rw [Option.bind_some, checkedAdd_isSome_iff hC, sumDay_moves hregular,
    sumNanos_of_regular hnext.2, hnext.1]
  simp

lemma twoSteps_of_neg (h : nanos < 0) : (dt.twoSteps nanos).isSome = true ↔
      InCalendar (dt.sumDay nanos) ∧
        InCalendar (dayOf (dt.nanos + nanos / nanosPerSecond * nanosPerSecond)) ∧
          InCalendar (dayOf (dt.nanos + nanos)) := by
  have hsecond : nanos / nanosPerSecond * nanosPerSecond ≤ -nanosPerSecond := by
    unfold nanosPerSecond
    omega
  have hfirst : ¬ dt.Stays (nanos / nanosPerSecond * nanosPerSecond) := by
    intro hstays
    have := hstays.2.2
    omega
  have hsum : dt.nanos + nanos / nanosPerSecond * nanosPerSecond + nanos % nanosPerSecond =
      dt.nanos + nanos := by
    unfold nanosPerSecond
    omega
  rw [twoSteps_isSome_iff hC hfirst, sumNanos_of_neg dt (by unfold nanosPerSecond at *; omega), hsum]
  refine ⟨fun hsteps => ⟨?_, hsteps⟩, And.right⟩
  by_cases hstays : dt.Stays nanos
  · rw [sumDay_stays hstays]
    exact inCalendar_dayNumber dt.date
  · rw [sumDay_moves hstays, sumNanos_of_neg dt h]
    exact hsteps.2

lemma twoSteps_of_small (h : 0 ≤ nanos) (hsmall : nanos < nanosPerSecond) :
    dt.twoSteps nanos = checkedAdd dt nanos := by
  rw [DateTime.twoSteps, Int.ediv_eq_zero_of_lt h hsmall, Int.zero_mul, checkedAdd_zero hC,
    Option.bind_some, Int.emod_eq_of_lt h hsmall]

lemma twoSteps_of_large (h : nanosPerSecond ≤ nanos) :
    (dt.twoSteps nanos).isSome = true ↔ InCalendar (dt.sumDay nanos) := by
  have hsecond : (nanosPerSecond : Int) ≤ nanos / nanosPerSecond * nanosPerSecond := by
    unfold nanosPerSecond at *
    omega
  have hnot : ∀ {n : Int}, nanosPerSecond ≤ n → ¬ dt.Stays n := by
    intro n hn hstays
    have hleap := hstays.1
    have := hstays.2.1
    omega
  have hsum : dt.sumNanos (nanos / nanosPerSecond * nanosPerSecond) + nanos % nanosPerSecond =
      dt.sumNanos nanos := by
    unfold DateTime.sumNanos nanosPerSecond at *
    split <;> split <;> omega
  rw [twoSteps_isSome_iff hC (hnot hsecond), hsum, ← sumDay_moves (hnot h)]
  refine ⟨And.right, fun hrange => ⟨?_, hrange⟩⟩
  -- the first step lies between the point in time and the sum
  rw [sumDay_moves (hnot h), ← hsum] at hrange
  have hdate := inCalendar_dayNumber dt.date
  have hstart : dt.timestamp * nanosPerSecond ≤
      dt.sumNanos (nanos / nanosPerSecond * nanosPerSecond) := by
    unfold DateTime.sumNanos DateTime.nanos nanosPerSecond at *
    split <;> omega
  unfold InCalendar dayOf DateTime.timestamp nanosPerSecond at *
  omega

lemma twoSteps_iff (dt : DateTime) (nanos : Int) :
    (dt.twoSteps nanos).isSome = true ↔ InCalendar (dt.sumDay nanos) ∧ ¬ SumLost dt nanos := by
  by_cases hneg : nanos < 0
  · rw [twoSteps_of_neg hC hneg, SumLost]
    tauto
  · rw [and_iff_left (fun hlost : SumLost dt nanos => hneg hlost.1)]
    by_cases hsmall : nanos < nanosPerSecond
    · rw [twoSteps_of_small hC (by omega) hsmall, checkedAdd_isSome_iff hC]
    · exact twoSteps_of_large hC (by omega)

/-- A duration with seconds that do not fit leads out of the range. -/
lemma not_inCalendar_sumDay (dt : DateTime) (h : ¬ Fits 64 (nanos / nanosPerSecond)) :
    ¬ InCalendar (dt.sumDay nanos) := by
  have hbounds := timestamp_bounds hC dt
  have hmin := hC.minYear_eq
  have hmax := hC.maxYear_eq
  have hfrac := dt.time.frac_lt
  have hstays : ¬ dt.Stays nanos := by
    intro hstays
    have := hstays.2.1
    have := hstays.2.2
    unfold Fits nanosPerSecond at *
    omega
  rw [sumDay_moves hstays]
  unfold InCalendar dayOf DateTime.sumNanos DateTime.nanos epochDay yearStart nanosPerSecond
    Fits at *
  split <;> omega

/-! ## The three additions -/

variable {Zone : Type}

theorem zonedAddDuration_answers_iff (value : ZonedDateTime Zone) (nanos : Int) :
    Answers (zonedAddDuration value nanos) (InCalendar (value.utc.sumDay nanos)) ↔
      (Fits 64 (nanos / nanosPerSecond) → SecondsFit (nanos / nanosPerSecond)) ∧
        ¬ SumLost value.utc nanos := by
  unfold zonedAddDuration
  by_cases hfits : Fits 64 (nanos / nanosPerSecond)
  case neg =>
    have hout := not_inCalendar_sumDay hC value.utc hfits
    simp only [if_neg hfits]
    exact iff_of_true hout ⟨fun h => absurd h hfits, fun h => hout h.2.1⟩
  case pos =>
    simp only [if_pos hfits]
    rw [hC.durationSeconds_eq]
    by_cases hseconds : SecondsFit (nanos / nanosPerSecond)
    case neg =>
      rw [if_neg hseconds]
      exact iff_of_false id (fun h => hseconds (h.1 hfits))
    case pos =>
      have hsteps := twoSteps_iff hC value.utc nanos
      have hlost : SumLost value.utc nanos → InCalendar (value.utc.sumDay nanos) := fun h => h.2.1
      rw [if_pos hseconds, and_iff_right (fun _ => hseconds)]
      change Answers (match value.utc.twoSteps nanos with
        | some next => .ok { value with utc := next }
        | none => .error (.error "datetime addition exceeds the supported range")) _ ↔ _
      cases hresult : value.utc.twoSteps nanos with
      | none =>
        rw [hresult] at hsteps
        tauto
      | some next =>
        rw [hresult] at hsteps
        have hrange := hsteps.mp rfl
        exact iff_of_true hrange.1 hrange.2

/-- An addition answers with a value if the exact sum is in the supported range and with an error
if it is not: for days if and only if they are a duration, for a period under the condition on
its months and days, and for a zoned point in time if and only if the seconds of the duration are
a duration, or too many for 64 bits, and the steps do not lose the sum. -/
theorem additions_answer_iff : (∀ (date : NaiveDate) (days : Int),
      Answers (dateAddDays date days) (InCalendar (date.1.dayNumber + days)) ↔
        SecondsFit (days * 86400)) ∧
    (∀ (date : NaiveDate) (period : Period),
      Answers (periodAddToDate period date) (InCalendar (sumDay date period)) ↔
        PeriodAnswers date period) ∧
    ∀ (value : ZonedDateTime Zone) (nanos : Int),
      Answers (zonedAddDuration value nanos) (InCalendar (value.utc.sumDay nanos)) ↔
        (Fits 64 (nanos / nanosPerSecond) → SecondsFit (nanos / nanosPerSecond)) ∧
          ¬ SumLost value.utc nanos :=
  ⟨dateAddDays_answers_iff hC, periodAddToDate_answers_iff hC, zonedAddDuration_answers_iff hC⟩

end Library

end Chrono

/-- Half a second after the start of the range. -/
def nearStart : ZonedDateTime Unit where
  utc := ⟨firstOf minYear (by decide), ⟨0, 500000000, by decide, by decide⟩⟩
  zone := ()

/-- The additions answer for a day, for a period of three months and for a second. -/
theorem additions_answer_epoch : ∃ period : Period,
    (period.years, period.months, period.days) = (0, 3, 0) ∧
      Answers (dateAddDays epoch 1) (InCalendar (epoch.1.dayNumber + 1)) ∧
      Answers (periodAddToDate period epoch) (InCalendar (sumDay epoch period)) ∧
      Answers (zonedAddDuration nearStart 1000000000)
        (InCalendar (nearStart.utc.sumDay 1000000000)) := by
  have hanswers := @additions_answer_iff _ gregorian_documented Unit
  refine ⟨⟨0, 3, 0, by decide, by decide, by decide⟩, rfl, (hanswers.1 _ _).mpr (by decide), ?_, ?_⟩
  · apply (hanswers.2.1 _ _).mpr
    rw [PeriodAnswers, if_pos (by decide)]
    decide
  · exact (hanswers.2.2 _ _).mpr ⟨fun _ => by decide, fun h => absurd h.1 (by decide)⟩

/-- Days, the days of a period and the seconds of a duration that are too many take the process
down. Four tenths of a second are not taken off from half a second after the start of the range,
though the sum is in it. -/
theorem additions_fail : dateAddDays epoch (2 ^ 63 - 1) = .error .aborted ∧
    (∃ period : Period, (period.years, period.months, period.days) = (0, 0, 2 ^ 63 - 1) ∧
      periodAddToDate period epoch = .error .aborted) ∧
    zonedAddDuration nearStart (10 ^ 25) = .error .aborted ∧
    InCalendar (nearStart.utc.sumDay (-400000000)) ∧ zonedAddDuration nearStart (-400000000) =
      .error (.error "datetime addition exceeds the supported range") := by
  refine ⟨rfl, ⟨⟨0, 0, 2 ^ 63 - 1, by decide, by decide, by decide⟩, rfl, rfl⟩, rfl, by decide, rfl⟩

end MuxRuntime.Datetime
