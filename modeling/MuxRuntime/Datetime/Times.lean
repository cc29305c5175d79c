import MuxRuntime.Datetime.Dates

/-!
# Points in time

A point in time counts as a number of nanoseconds. The number does not tell a leap second from
the second after it, and the way back from a number never gives a leap second.
-/

namespace MuxRuntime.Datetime

open Calendar Years Chrono

section Chrono

variable [Chrono]

/-! ## Accepted dates and times -/

/-- A number of a call as an unsigned number of 32 bits. -/
def unsigned (n : Int) (message : String) : Except String Nat :=
  if 0 ≤ n ∧ n < 2 ^ 32 then .ok n.toNat else .error message

def dateParts (year month day : Int) : Except String NaiveDate := do
  let year ← (checked 32 year).elim (.error "date year is out of range") .ok
  let month ← unsigned month "date month must be between 1 and 12"
  let day ← unsigned day "date day must be positive"
  (fromYmdOpt year month day).elim (.error "invalid calendar date") .ok

def timeParts (hour minute second nanos : Int) : Except String NaiveTime := do
  let hour ← unsigned hour "time hour is out of range"
  let minute ← unsigned minute "time minute is out of range"
  let second ← unsigned second "time second is out of range"
  let nanos ← unsigned nanos "time nanosecond is out of range"
  (fromHmsNanoOpt hour minute second nanos).elim (.error "invalid clock time") .ok

def datetimeFromDateTime (date : NaiveDate) (time : NaiveTime) : DateTime :=
  ⟨date, time⟩

/-! ## Nanoseconds -/

/-- The number of a point in time. -/
def unixNanos (dt : DateTime) : Except String Int :=
  match (checked 128 (timestamp dt * nanosPerSecond)).bind fun value =>
      checked 128 (value + dt.time.frac) with
  | some nanos => .ok nanos
  | none => .error "timestamp exceeds the supported range"

/-- The way back. -/
def datetimeFromNanos (nanos : Int) : Except String DateTime :=
  let seconds := nanos / nanosPerSecond
  let fraction := nanos % nanosPerSecond
  if Fits 64 seconds then
    match fromTimestamp seconds fraction.toNat with
    | some dt => .ok dt
    | none => .error "timestamp exceeds the supported range"
  else .error "timestamp exceeds the supported range"

def datetimeAddDuration (dt : DateTime) (nanos : Int) : Except String DateTime := do
  let current ← unixNanos dt
  match (checked 128 (current + nanos)).bind fun nanos => (datetimeFromNanos nanos).toOption with
  | some next => .ok next
  | none => .error "datetime addition exceeds the supported range"

/-! ## The number of a point in time -/

/-- What is asked of a point in time: a duration and its negation lead back to it, the zero
duration keeps it, and its number leads back to it. -/
structure Inverts (dt : DateTime) : Prop where
  negation : ∀ (nanos : Int) (next back : DateTime), Fits 128 nanos → Fits 128 (-nanos) →
    datetimeAddDuration dt nanos = .ok next → datetimeAddDuration next (-nanos) = .ok back →
    back = dt
  zero : datetimeAddDuration dt 0 = .ok dt
  number : (unixNanos dt).bind datetimeFromNanos = .ok dt

section Library

variable (hC : Documented)
include hC

lemma timestamp_bounds (dt : DateTime) : -2 ^ 46 ≤ dt.timestamp ∧ dt.timestamp < 2 ^ 46 := by
  have hdate := inCalendar_dayNumber dt.date
  have htime := dt.time.secs_lt
  have hmin := hC.minYear_eq
  have hmax := hC.maxYear_eq
  unfold InCalendar yearStart at hdate
  unfold DateTime.timestamp epochDay
  omega

lemma unixNanos_eq (dt : DateTime) : unixNanos dt = .ok dt.nanos := by
  have hbounds := timestamp_bounds hC dt
  have hfrac := dt.time.frac_lt
  unfold unixNanos
  rw [hC.timestamp_eq, checked_eq_some, Option.bind_some, checked_eq_some]
  · rfl
  all_goals
    unfold nanosPerSecond at *
    unfold Fits
    omega

variable {dt : DateTime}

/-- The point in time of a number of nanoseconds. -/
theorem datetimeFromNanos_eq_ok_iff {nanos : Int} :
    datetimeFromNanos nanos = .ok dt ↔ dt.nanos = nanos ∧ dt.Regular := by
  have hpos : (nanos % nanosPerSecond).toNat < nanosPerSecond := by
    unfold nanosPerSecond
    omega
  have hsplit : dt.nanos = nanos ∧ dt.Regular ↔
      dt.timestamp = nanos / nanosPerSecond ∧ dt.time.frac = (nanos % nanosPerSecond).toNat := by
    unfold DateTime.nanos DateTime.Regular nanosPerSecond
    omega
  rw [hsplit, ← hC.fromTimestamp_iff hpos]
  simp only [datetimeFromNanos]
  by_cases hfits : Fits 64 (nanos / nanosPerSecond)
  case pos =>
    rw [if_pos hfits]
    cases fromTimestamp (nanos / nanosPerSecond) (nanos % nanosPerSecond).toNat with
    | none => exact iff_of_false nofun nofun
    | some next => exact ⟨fun h => congrArg some (Except.ok.inj h), fun h => by rw [Option.some.inj h]⟩
  case neg =>
    -- the seconds of a point in time fit
    rw [if_neg hfits]
    refine iff_of_false nofun ?_
    intro hsome
    have hbounds := timestamp_bounds hC dt
    rw [((hC.fromTimestamp_iff hpos).mp hsome).1] at hbounds
    apply hfits
    unfold Fits
    omega

/-! ## Adding durations -/

lemma datetimeAddDuration_eq_ok_iff {next : DateTime} {nanos : Int} :
    datetimeAddDuration dt nanos = .ok next ↔ next.nanos = dt.nanos + nanos ∧ next.Regular := by
  rw [← datetimeFromNanos_eq_ok_iff hC]
  unfold datetimeAddDuration
  rw [unixNanos_eq hC]
  simp only [bind, Except.bind]
  by_cases hfits : Fits 128 (dt.nanos + nanos)
  case pos =>
    rw [checked_eq_some hfits, Option.bind_some]
    cases datetimeFromNanos (dt.nanos + nanos) with
    | error e => exact iff_of_false nofun nofun
    | ok next => exact Iff.rfl
  case neg =>
    rw [checked_eq_none hfits]
    refine iff_of_false nofun ?_
    intro hok
    have hnanos := ((datetimeFromNanos_eq_ok_iff hC).mp hok).1
    have hbounds := timestamp_bounds hC next
    have hfrac := next.time.frac_lt
    apply hfits
    rw [← hnanos]
    unfold DateTime.nanos nanosPerSecond Fits
    unfold nanosPerSecond at hfrac
    omega

/-- Points in time outside of leap seconds are told apart by their numbers. -/
lemma nanos_injective {first second : DateTime} (hfirst : first.Regular)
    (hsecond : second.Regular) (h : first.nanos = second.nanos) : first = second := by
  have hfirst := (datetimeFromNanos_eq_ok_iff hC).mpr ⟨rfl, hfirst⟩
  have hsecond := (datetimeFromNanos_eq_ok_iff hC).mpr ⟨h.symm, hsecond⟩
  rw [hfirst] at hsecond
  exact Except.ok.inj hsecond

/-- Of the points in time made of a date and a time, those that are not in a leap second have
the property, and no others. -/
theorem durations_invert_iff (date : NaiveDate) (time : NaiveTime) :
    Inverts (datetimeFromDateTime date time) ↔ time.frac < nanosPerSecond := by
  constructor
  · intro h
    exact ((datetimeAddDuration_eq_ok_iff hC).mp h.zero).2
  intro hregular
  change DateTime.Regular (datetimeFromDateTime date time) at hregular
  refine ⟨?_, ?_, ?_⟩
  · intro nanos next back _ _ hnext hback
    have hnext := (datetimeAddDuration_eq_ok_iff hC).mp hnext
    have hback := (datetimeAddDuration_eq_ok_iff hC).mp hback
    apply nanos_injective hC hback.2 hregular
    rw [hback.1, hnext.1, Int.add_neg_cancel_right]
  · exact (datetimeAddDuration_eq_ok_iff hC).mpr ⟨(Int.add_zero _).symm, hregular⟩
  · rw [unixNanos_eq hC]
    exact (datetimeFromNanos_eq_ok_iff hC).mpr ⟨rfl, hregular⟩

end Library

end Chrono

/-- Noon of the first day of the epoch. -/
theorem noon_inverts :
    Inverts (datetimeFromDateTime epoch ⟨43200, 0, by decide, by decide⟩) :=
  (durations_invert_iff gregorian_documented _ _).mpr (by decide)

/-- An accepted time of 23:59:59 and one and a half seconds, on the first day of the epoch. -/
theorem leap_second_moves : ∃ (date : NaiveDate) (time : NaiveTime) (next : DateTime),
      dateParts 1970 1 1 = .ok date ∧ timeParts 23 59 59 1500000000 = .ok time ∧
      datetimeAddDuration (datetimeFromDateTime date time) 0 = .ok next ∧
      (next.date.1.month, next.date.1.day, next.time.secs, next.time.frac) = (1, 2, 0, 500000000) ∧
      ¬ Inverts (datetimeFromDateTime date time) := by
  let time : NaiveTime := ⟨86399, 1500000000, by decide, by decide⟩
  let next : DateTime := ⟨⟨⟨1970, 1, 2, by decide, by decide, by decide, by decide⟩, by decide⟩,
      ⟨0, 500000000, by decide, by decide⟩⟩
  have hnext : datetimeAddDuration (datetimeFromDateTime epoch time) 0 = .ok next :=
    (datetimeAddDuration_eq_ok_iff gregorian_documented).mpr (by decide)
  refine ⟨epoch, time, next, by decide, by decide, hnext, rfl, ?_⟩
  intro h
  have hsame := hnext.symm.trans h.zero
  exact absurd (Except.ok.inj hsame) (by decide)

end MuxRuntime.Datetime
