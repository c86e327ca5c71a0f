import Uesi.Construction.Ymdhms
import Uesi.Proof.Libc.Instant

namespace Uesi.Clock

open Library
open Calendar (daysBeforeYear daysBeforeYear_base daysBeforeYear_succ daysBeforeYear_mono yearLength monYday monLengths
  InMonth Counting)

variable {dt : ClockYmdhms} {year s : Int} (leap : Bool)

/-- A date of the calendar and a time of the day. -/
structure ClockYmdhms.Valid (dt : ClockYmdhms) : Prop where
  firstMonth : 1 ≤ dt.mon
  lastMonth : dt.mon ≤ 12
  firstDay : 1 ≤ dt.day
  lastDay : (dt.day : Int) ≤ (daysinmonth (isleap dt.year)).getD (dt.mon - 1) 0
  hour : dt.hour < 24
  min : dt.min < 60
  sec : dt.sec < 60

/-- The date and the time that the clock chip shows. -/
def RtcTime.date (time : RtcTime) : ClockYmdhms :=
  ⟨time.year, time.month, time.day, time.weekday, time.hour, time.minute, time.second⟩

/-- The day of the year of a date. -/
def ClockYmdhms.yday (dt : ClockYmdhms) : Int := (monYday (isleap dt.year)).getD (dt.mon - 1) 0 + dt.day - 1

/-- The days from the epoch to a date. -/
def ClockYmdhms.days (dt : ClockYmdhms) : Int := daysBeforeYear (1970 + (dt.year - 1970 : Nat)) + dt.yday

/-- The seconds of the day. -/
def ClockYmdhms.seconds (dt : ClockYmdhms) : Int := dt.hour * 3600 + dt.min * 60 + dt.sec

theorem countedYearSeconds (count : Nat) :
    countedLoop (fun y secs => secs + (if isleap (1970 + y) then 366 else 365) * secday) count 0 =
      daysBeforeYear (1970 + count) * secday := by
  induction count with
  | zero =>
      rw [countedLoop_zero, Nat.cast_zero, add_zero, daysBeforeYear_base, zero_mul]
  | succ count ih =>
      rw [countedLoop_succ, ih]
      push_cast
      rw [← add_assoc, daysBeforeYear_succ, add_mul]
      rfl

/-- A loop over the months before a month that adds a multiple of their lengths. -/
theorem countedMonths (scale base : Int) {count : Nat} (few : count ≤ 11) :
    countedLoop (fun month total => total + (monLengths leap).getD month 0 * scale) count base =
      base + (monYday leap).getD count 0 * scale := by
  induction count with
  | zero =>
      have first : (monYday leap).getD 0 0 = 0 := by cases leap <;> rfl
      rw [countedLoop_zero, first, zero_mul, add_zero]
  | succ count ih =>
      rw [countedLoop_succ, ih (by omega), Calendar.monYday_succ leap count (by omega)]
      ring

theorem clockYmdhmsToSecs_eq (valid : dt.mon ≤ 12) : clockYmdhmsToSecs dt = dt.days * secday + dt.seconds := by
  have months := countedMonths (isleap dt.year) secday (daysBeforeYear (1970 + (dt.year - 1970 : Nat)) * secday)
    (show dt.mon - 1 ≤ 11 by omega)
  unfold clockYmdhmsToSecs ClockYmdhms.days ClockYmdhms.yday ClockYmdhms.seconds
  rw [countedYearSeconds]
  change countedLoop (fun month total => total + (monLengths (isleap dt.year)).getD month 0 * secday) _ _ +
    _ + _ + _ + _ = _
  rw [months]
  ring

theorem isLeapYear_eq (year : Nat) : isLeapYear year = isleap year := by
  have leap := Calendar.isleap_iff (year : Int)
  rw [Bool.eq_iff_iff]
  change _ ↔ Calendar.isleap (year : Int) = true
  rw [leap]
  simp only [isLeapYear, Bool.or_eq_true, Bool.and_eq_true, beq_iff_eq, bne_iff_ne]
  omega

/-- The clock chip's table of the months is the table of the conversions. -/
theorem daysInMonth_eq (year : Nat) {month : Nat} (few : month < 12) :
    (daysInMonth (month + 1) year : Int) = (monLengths (isleap year)).getD month 0 := by
  have table : ∀ leap : Bool, ∀ month < 12, ((if month + 1 < 1 ∨ 12 < month + 1 then 0
      else if month + 1 = 2 ∧ leap = true then 29
      else [31, 28, 31, 30, 31, 30, 31, 31, 30, 31, 30, 31].getD (month + 1 - 1) 0 : Nat) : Int) =
        (monLengths leap).getD month 0 := by decide
  unfold daysInMonth
  rw [isLeapYear_eq]
  exact table _ month few

theorem rtcGetTimestampTz_eq (tz : Timezone) {time : RtcTime} (valid : time.month ≤ 12) :
    rtcGetTimestampTz tz (some time) = time.date.days * secday + time.date.seconds + getTimezoneOffset tz time := by
  have years : countedLoop (fun y (timestamp : Int) => timestamp + if isLeapYear (1970 + y) then 366 else 365)
      (time.year - 1970) 0 = daysBeforeYear (1970 + (time.year - 1970 : Nat)) := by
    rw [← Calendar.countedYears]
    refine countedLoop_congr fun y _ timestamp => ?_
    rw [isLeapYear_eq]
    push_cast
    rfl
  have months : ∀ base : Int, countedLoop (fun m (timestamp : Int) => timestamp + daysInMonth (m + 1) time.year)
      (time.month - 1) base = base + (monYday (isleap time.year)).getD (time.month - 1) 0 := by
    intro base
    have counted := countedMonths (isleap time.year) 1 base (show time.month - 1 ≤ 11 by omega)
    rw [mul_one] at counted
    rw [← counted]
    refine countedLoop_congr fun m below timestamp => ?_
    rw [daysInMonth_eq time.year (by omega), mul_one]
  unfold rtcGetTimestampTz ClockYmdhms.days ClockYmdhms.yday ClockYmdhms.seconds RtcTime.date secday
  dsimp only
  rw [years, months]
  ring

/-- The table of the days before each month sums the lengths of the months. -/
theorem monYday_take : ∀ month ≤ 11,
    (monYday leap).getD month 0 = ((monLengths leap).take month).sum := by
  cases leap with
  | false => decide
  | true => decide

theorem monLengths_sum : ((monLengths leap).take 12).sum = if leap then 366 else 365 := by
  cases leap with
  | false => decide
  | true => decide

/-- The loop over the twelve months finds the month of a day of the year. -/
theorem findMonth_inMonth {days : Int} (low : 0 ≤ days) (high : days < yearLength year) :
    InMonth (isleap year) days (Calendar.findMonth (daysinmonth (isleap year)) 0 days).1
      ((Calendar.findMonth (daysinmonth (isleap year)) 0 days).2 + 1) := by
  obtain ⟨passed, few, found, positive, inside⟩ := Calendar.findMonth_eq (monLengths (isleap year)) 0 low
  have count : (monLengths (isleap year)).length = 12 := by
    cases isleap year <;> rfl
  rw [count] at few inside
  -- The loop breaks before it has taken away the whole year.
  have before : passed < 12 := by
    by_contra all
    obtain rfl : passed = 12 := by omega
    have whole : days < if isleap year then 366 else 365 := high
    rw [monLengths_sum] at positive
    omega
  have sum := monYday_take (isleap year) passed (by omega)
  have less := inside before
  change InMonth _ _ (Calendar.findMonth (monLengths (isleap year)) 0 days).1
    ((Calendar.findMonth (monLengths (isleap year)) 0 days).2 + 1)
  rw [found]
  refine ⟨by simp, ?_, ?_, ?_, ?_⟩
  · dsimp only
    omega
  · dsimp only
    omega
  · dsimp only
    rw [zero_add, Int.toNat_natCast]
    omega
  · dsimp only
    rw [zero_add, Int.toNat_natCast, sum]
    omega

/-- A day of a year lies in the years that its number allows. -/
theorem year_mem {day left : Int} (inside : 0 ≤ left ∧ left < yearLength year ∧ left + daysBeforeYear year = day)
    (low : 0 ≤ day) (high : day < daysBeforeYear 65536) : 1970 ≤ year ∧ year ≤ 65535 := by
  obtain ⟨positive, less, same⟩ := inside
  constructor
  · by_contra early
    have ordered := daysBeforeYear_mono (show year + 1 ≤ 1970 by omega)
    rw [daysBeforeYear_succ, daysBeforeYear_base] at ordered
    omega
  · by_contra late
    have ordered := daysBeforeYear_mono (show 65536 ≤ year by omega)
    omega

theorem uchar_of_mem {value : Int} (low : 0 ≤ value) (high : value < 256) : (uchar value : Int) = value := by
  unfold uchar
  omega

theorem ushort_of_mem {value : Int} (low : 0 ≤ value) (high : value < 65536) : (ushort value : Int) = value := by
  unfold ushort
  omega

/-- The seconds of a number as the divisions of `clock_secs_to_ymdhms` take them apart. -/
theorem secs_split (low : 0 ≤ s) :
    s.tmod 60 = s % 60 ∧ (s.tdiv 60).tmod 60 = s / 60 % 60 ∧ ((s.tdiv 60).tdiv 60).tmod 24 = s / 3600 % 24 ∧
      ((s.tdiv 60).tdiv 60).tdiv 24 = s / 86400 := by
  have minutes : 0 ≤ s / 60 := by omega
  have hours : 0 ≤ s / 60 / 60 := by omega
  rw [Int.tdiv_eq_ediv_of_nonneg low, Int.tmod_eq_emod_of_nonneg low, Int.tdiv_eq_ediv_of_nonneg minutes,
    Int.tmod_eq_emod_of_nonneg minutes, Int.tdiv_eq_ediv_of_nonneg hours, Int.tmod_eq_emod_of_nonneg hours]
  omega

/-- The structure that `clock_secs_to_ymdhms` fills when the loop over the years has left some days of a year. -/
def filled (s left year : Int) : ClockYmdhms :=
  let place := Calendar.findMonth (daysinmonth (isleap year)) 0 left
  { year := ushort year
    mon := uchar (place.1 + 1)
    day := uchar (place.2 + 1)
    wday := uchar ((s / 86400 + 4).tmod 7)
    hour := uchar (s / 3600 % 24)
    min := uchar (s / 60 % 60)
    sec := uchar (s % 60) }

theorem clockSecsToYmdhms_eq (low : 0 ≤ s) (high : s / 86400 < 2 ^ 31) (fuel : Nat) :
    clockSecsToYmdhms fuel s =
      (Calendar.yearLoop fuel (s / 86400, 1970)).map fun last => filled s last.1 last.2 := by
  obtain ⟨sec, min, hour, days⟩ := secs_split low
  have exactly : Calendar.int (s / 86400) = s / 86400 := Calendar.int_of_mem (by omega) high
  unfold clockSecsToYmdhms
  dsimp only
  rw [sec, min, hour, days, exactly]
  change (Calendar.yearLoop fuel (s / 86400, 1970)).bind _ = _
  cases Calendar.yearLoop fuel (s / 86400, 1970) with
  | none => rfl
  | some last => rfl

/-- What `clock_secs_to_ymdhms` shows for a number of seconds. -/
structure Shows (s : Int) (dt : ClockYmdhms) : Prop where
  valid : dt.Valid
  firstYear : 1970 ≤ dt.year
  lastYear : dt.year ≤ 65535
  weekday : (dt.wday : Int) = (s / 86400 + 4) % 7
  days : dt.days = s / 86400
  seconds : dt.seconds = s % 86400

theorem filled_shows {left : Int} (low : 0 ≤ s)
    (inside : 0 ≤ left ∧ left < yearLength year ∧ left + daysBeforeYear year = s / 86400) (early : 1970 ≤ year)
    (late : year ≤ 65535) : Shows s (filled s left year) := by
  obtain ⟨lowMonth, highMonth, firstDay, lastDay, sum⟩ := findMonth_inMonth inside.1 inside.2.1
  have short := Calendar.monLengths_le (isleap year) (Calendar.findMonth (daysinmonth (isleap year)) 0 left).1.toNat
    (by omega)
  have years : ((filled s left year).year : Int) = year := ushort_of_mem (by omega) (by omega)
  have month : ((filled s left year).mon : Int) = (Calendar.findMonth (daysinmonth (isleap year)) 0 left).1 + 1 :=
    uchar_of_mem (by omega) (by omega)
  have day : ((filled s left year).day : Int) = (Calendar.findMonth (daysinmonth (isleap year)) 0 left).2 + 1 :=
    uchar_of_mem (by omega) (by omega)
  have weekday : ((filled s left year).wday : Int) = (s / 86400 + 4).tmod 7 := by
    have nonneg := Int.tmod_eq_emod_of_nonneg (show 0 ≤ s / 86400 + 4 by omega) (b := 7)
    exact uchar_of_mem (by omega) (by omega)
  have hour : ((filled s left year).hour : Int) = s / 3600 % 24 := uchar_of_mem (by omega) (by omega)
  have min : ((filled s left year).min : Int) = s / 60 % 60 := uchar_of_mem (by omega) (by omega)
  have sec : ((filled s left year).sec : Int) = s % 60 := uchar_of_mem (by omega) (by omega)
  have index : (filled s left year).mon - 1 = (Calendar.findMonth (daysinmonth (isleap year)) 0 left).1.toNat := by
    omega
  have yday : (filled s left year).yday = left := by
    unfold ClockYmdhms.yday
    rw [years, index, day]
    exact sum
  refine ⟨⟨by omega, by omega, by omega, ?_, by omega, by omega, by omega⟩, by omega, by omega, ?_, ?_, ?_⟩
  · rw [years, index, day]
    exact lastDay
  · rw [weekday, Int.tmod_eq_emod_of_nonneg (by omega)]
  · have since : (1970 + ((filled s left year).year - 1970 : Nat) : Int) = year := by omega
    unfold ClockYmdhms.days
    rw [since, yday, ← inside.2.2, add_comm]
  · unfold ClockYmdhms.seconds
    rw [hour, min, sec]
    omega

theorem clockSecsToYmdhms_shows (low : 0 ≤ s) (high : s < daysBeforeYear 65536 * secday) :
    ∃ dt, (∀ fuel, (s / 86400).toNat ≤ fuel → clockSecsToYmdhms fuel s = some dt) ∧ Shows s dt := by
  have limit : daysBeforeYear 65536 < 2 ^ 31 := by decide
  have few : s / 86400 < daysBeforeYear 65536 := by
    unfold secday at high
    omega
  have day : s / 86400 + daysBeforeYear 1970 = s / 86400 := by rw [daysBeforeYear_base, add_zero]
  have start : Counting (s / 86400) (s / 86400, 1970) := ⟨by dsimp only; omega, by dsimp only; omega, day⟩
  have positive : 0 ≤ (s / 86400, (1970 : Int)).1 := by
    dsimp only
    omega
  obtain ⟨last, ran⟩ := Calendar.yearLoop_ends start positive le_rfl
  have inside := Calendar.yearLoop_spec start positive ran
  obtain ⟨early, late⟩ := year_mem inside positive few
  refine ⟨filled s last.1 last.2, fun fuel enough => ?_, filled_shows low inside early late⟩
  have more : Calendar.yearLoop fuel (s / 86400, 1970) = some last := whileLoop_mono ran enough
  rw [clockSecsToYmdhms_eq low (by omega), more]
  rfl

theorem since_epoch {year : Nat} (early : 1970 ≤ year) : (1970 + (year - 1970 : Nat) : Int) = year := by
  omega

/-- A month ends before a later month starts. -/
theorem monYday_add_le : ∀ second < 12, ∀ first < second,
    (monYday leap).getD first 0 + (monLengths leap).getD first 0 ≤ (monYday leap).getD second 0 := by
  cases leap with
  | false => decide
  | true => decide

theorem ClockYmdhms.Valid.yday_mem (valid : dt.Valid) : 0 ≤ dt.yday ∧ dt.yday < yearLength dt.year := by
  have december := Calendar.monYday_december (isleap dt.year)
  have start : ∀ leap : Bool, ∀ month ≤ 11, 0 ≤ (monYday leap).getD month 0 := by decide
  have nonneg := start (isleap dt.year) (dt.mon - 1) (by have := valid.lastMonth; omega)
  have first := valid.firstDay
  have last : (dt.day : Int) ≤ (monLengths (isleap dt.year)).getD (dt.mon - 1) 0 := valid.lastDay
  have ends : (monYday (isleap dt.year)).getD (dt.mon - 1) 0 + (monLengths (isleap dt.year)).getD (dt.mon - 1) 0 ≤
      if isleap dt.year then 366 else 365 := by
    rw [← december]
    by_cases final : dt.mon - 1 = 11
    · rw [final]
    · have step := monYday_add_le (isleap dt.year) 11 (by omega) (dt.mon - 1) (by have := valid.lastMonth; omega)
      have long := Calendar.monLengths_ge (isleap dt.year) 11 le_rfl
      omega
  change _ ∧ _ < if isleap dt.year then (366 : Int) else 365
  unfold ClockYmdhms.yday
  omega

/-- A day of the year has one month and one day of the month. -/
theorem ClockYmdhms.Valid.month_unique {first second : ClockYmdhms} (valid : first.Valid) (other : second.Valid)
    (year : first.year = second.year) (yday : first.yday = second.yday) :
    first.mon = second.mon ∧ first.day = second.day := by
  obtain ⟨low, high, least, most, -, -, -⟩ := valid
  obtain ⟨otherLow, otherHigh, otherLeast, otherMost, -, -, -⟩ := other
  have step := monYday_add_le (isleap second.year)
  unfold ClockYmdhms.yday at yday
  rw [year] at yday most
  change _ ≤ (monLengths (isleap second.year)).getD _ 0 at most otherMost
  have months : first.mon = second.mon := by
    rcases lt_trichotomy first.mon second.mon with before | same | after
    · have later := step (second.mon - 1) (by omega) (first.mon - 1) (by omega)
      omega
    · exact same
    · have later := step (first.mon - 1) (by omega) (second.mon - 1) (by omega)
      omega
  rw [months] at yday
  exact ⟨months, by omega⟩

/-- A day has one year and one day of the year. -/
theorem ClockYmdhms.Valid.year_unique {first second : ClockYmdhms} (valid : first.Valid) (other : second.Valid)
    (early : 1970 ≤ first.year) (otherEarly : 1970 ≤ second.year) (days : first.days = second.days) :
    first.year = second.year ∧ first.yday = second.yday := by
  have inside := valid.yday_mem
  have otherInside := other.yday_mem
  have step := daysBeforeYear_succ first.year
  have otherStep := daysBeforeYear_succ second.year
  unfold ClockYmdhms.days at days
  rw [since_epoch early, since_epoch otherEarly] at days
  have years : first.year = second.year := by
    rcases lt_trichotomy first.year second.year with before | same | after
    · have ordered := daysBeforeYear_mono (show (first.year : Int) + 1 ≤ second.year by omega)
      omega
    · exact same
    · have ordered := daysBeforeYear_mono (show (second.year : Int) + 1 ≤ first.year by omega)
      omega
  rw [years] at days
  exact ⟨years, by omega⟩

theorem ClockYmdhms.Valid.seconds_mem (valid : dt.Valid) : 0 ≤ dt.seconds ∧ dt.seconds < 86400 := by
  have hour := valid.hour
  have min := valid.min
  have sec := valid.sec
  unfold ClockYmdhms.seconds
  omega

/-- The seconds of a valid date are those of the years that the conversion can show. -/
theorem ClockYmdhms.Valid.clockYmdhmsToSecs_mem (valid : dt.Valid) (early : 1970 ≤ dt.year) (late : dt.year ≤ 65535) :
    0 ≤ clockYmdhmsToSecs dt ∧ clockYmdhmsToSecs dt < daysBeforeYear 65536 * secday ∧
      clockYmdhmsToSecs dt / 86400 = dt.days ∧ clockYmdhmsToSecs dt % 86400 = dt.seconds := by
  have inside := valid.yday_mem
  have seconds := valid.seconds_mem
  have least := daysBeforeYear_mono (show (1970 : Int) ≤ dt.year by omega)
  have most := daysBeforeYear_mono (show (dt.year : Int) + 1 ≤ 65536 by omega)
  rw [daysBeforeYear_base] at least
  rw [daysBeforeYear_succ] at most
  have days : dt.days = daysBeforeYear dt.year + dt.yday := by
    unfold ClockYmdhms.days
    rw [since_epoch early]
  rw [clockYmdhmsToSecs_eq valid.lastMonth]
  unfold secday
  omega

/-- The two conversions of the kernel are inverse to each other from 1970 to 65535, and the clock chip's time stamp
counts the same seconds. -/
theorem clock_roundTrip :
    (∀ s : Int, 0 ≤ s → s < daysBeforeYear 65536 * secday →
      ∃ dt, (∀ fuel, (s / 86400).toNat ≤ fuel → clockSecsToYmdhms fuel s = some dt) ∧ dt.Valid ∧
        (dt.wday : Int) = (s / 86400 + 4) % 7 ∧ clockYmdhmsToSecs dt = s) ∧
    (∀ dt : ClockYmdhms, dt.Valid → 1970 ≤ dt.year → dt.year ≤ 65535 → ∃ wday,
      ∀ fuel, (clockYmdhmsToSecs dt / 86400).toNat ≤ fuel →
        clockSecsToYmdhms fuel (clockYmdhmsToSecs dt) = some { dt with wday := wday }) ∧
    (∀ (tz : Timezone) (time : RtcTime), time.date.Valid →
      rtcGetTimestampTz tz (some time) = clockYmdhmsToSecs time.date + getTimezoneOffset tz time) := by
  refine ⟨fun s low high => ?_, fun dt valid early late => ?_, fun tz time valid => ?_⟩
  · obtain ⟨dt, ran, shows⟩ := clockSecsToYmdhms_shows low high
    refine ⟨dt, ran, shows.valid, shows.weekday, ?_⟩
    rw [clockYmdhmsToSecs_eq shows.valid.lastMonth, shows.days, shows.seconds]
    unfold secday
    omega
  · obtain ⟨low, high, days, seconds⟩ := valid.clockYmdhmsToSecs_mem early late
    obtain ⟨found, ran, shows⟩ := clockSecsToYmdhms_shows low high
    obtain ⟨year, yday⟩ := valid.year_unique shows.valid early shows.firstYear (by rw [shows.days, days])
    obtain ⟨month, day⟩ := valid.month_unique shows.valid year yday
    have time : dt.seconds = found.seconds := by rw [shows.seconds, seconds]
    obtain ⟨-, -, -, -, hour, min, sec⟩ := valid
    obtain ⟨-, -, -, -, foundHour, foundMin, foundSec⟩ := shows.valid
    unfold ClockYmdhms.seconds at time
    refine ⟨found.wday, fun fuel enough => ?_⟩
    rw [ran fuel enough, Option.some.injEq]
    obtain ⟨y, mo, d, w, h, mi, se⟩ := found
    dsimp only at year month day time foundHour foundMin foundSec ⊢
    rw [ClockYmdhms.mk.injEq]
    exact ⟨year.symm, month.symm, day.symm, rfl, by omega, by omega, by omega⟩
  · have read := rtcGetTimestampTz_eq tz (show time.month ≤ 12 from valid.lastMonth)
    rw [read, clockYmdhmsToSecs_eq valid.lastMonth]

/-- The last day of February 2000 is shown, recovered and counted by the clock chip. -/
theorem clock_roundTrip_leapDay :
    (∃ dt, (∀ fuel, 11016 ≤ fuel → clockSecsToYmdhms fuel 951782400 = some dt) ∧ dt.Valid ∧
      (dt.wday : Int) = 2 ∧ clockYmdhmsToSecs dt = 951782400) ∧
    (∃ wday, ∀ fuel, (clockYmdhmsToSecs ⟨2000, 2, 29, 2, 0, 0, 0⟩ / 86400).toNat ≤ fuel →
      clockSecsToYmdhms fuel (clockYmdhmsToSecs ⟨2000, 2, 29, 2, 0, 0, 0⟩) = some ⟨2000, 2, 29, wday, 0, 0, 0⟩) ∧
    rtcGetTimestampTz .cet (some ⟨0, 0, 0, 29, 2, 2000, 2⟩) =
      clockYmdhmsToSecs ⟨2000, 2, 29, 2, 0, 0, 0⟩ + 3600 := by
  have valid : (ClockYmdhms.mk 2000 2 29 2 0 0 0).Valid := ⟨by decide, by decide, by decide, by decide, by decide,
    by decide, by decide⟩
  exact ⟨clock_roundTrip.1 951782400 (by decide) (by decide),
    clock_roundTrip.2.1 ⟨2000, 2, 29, 2, 0, 0, 0⟩ valid (by decide) (by decide),
    clock_roundTrip.2.2 .cet ⟨0, 0, 0, 29, 2, 2000, 2⟩ valid⟩

end Uesi.Clock
