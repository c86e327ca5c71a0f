import Uesi.Construction.Libc.Calendar

namespace Uesi.Calendar

open Library

variable {state : Int × Int} {day seconds t : Int} {fuel : Nat} {tm : Tm} (year : Int) (leap : Bool)

/-- The number of days from the epoch to the start of a year, in the proleptic Gregorian calendar. -/
def daysBeforeYear (year : Int) : Int :=
  365 * (year - 1970) + (year - 1) / 4 - (year - 1) / 100 + (year - 1) / 400 - 477

theorem daysBeforeYear_base : daysBeforeYear 1970 = 0 := by decide

/-- A leap year is divisible by 4 and not by 100, or divisible by 400. -/
theorem isleap_iff : isleap year = true ↔ year % 4 = 0 ∧ (year % 100 ≠ 0 ∨ year % 400 = 0) := by
  have zero : ∀ divisor : Int, year.tmod divisor = 0 ↔ year % divisor = 0 := fun divisor => by
    rw [← Int.dvd_iff_tmod_eq_zero, Int.dvd_iff_emod_eq_zero]
  simp [isleap, zero]

theorem yearLength_eq : yearLength year = if year % 4 = 0 ∧ (year % 100 ≠ 0 ∨ year % 400 = 0) then 366 else 365 := by
  unfold yearLength
  exact if_congr (isleap_iff year) rfl rfl

theorem daysBeforeYear_succ : daysBeforeYear (year + 1) = daysBeforeYear year + yearLength year := by
  rw [yearLength_eq]
  unfold daysBeforeYear
  split_ifs <;> omega

theorem daysBeforeYear_cycles (cycles : Int) :
    daysBeforeYear (year + cycles * 400) = daysBeforeYear year + cycles * 146097 := by
  unfold daysBeforeYear
  omega

theorem yearLength_pos : 365 ≤ yearLength year := by
  unfold yearLength
  split_ifs <;> omega

theorem yearLength_le : yearLength year ≤ 366 := by
  unfold yearLength
  split_ifs <;> omega

theorem daysBeforeYear_mono {first second : Int} (ordered : first ≤ second) :
    daysBeforeYear first ≤ daysBeforeYear second := by
  unfold daysBeforeYear
  omega

/-- The loop of `timegm` and `mktime` counts the days before a year that is not before 1970. -/
theorem countedYears (count : Nat) :
    countedLoop (fun y days => days + yearLength (posixBaseYear + y)) count 0 = daysBeforeYear (1970 + count) := by
  induction count with
  | zero => exact daysBeforeYear_base.symm
  | succ count ih =>
      rw [countedLoop_succ, ih]
      push_cast
      rw [← add_assoc, daysBeforeYear_succ]
      rfl

/-- The month and the day of a day of the year. -/
structure InMonth (leap : Bool) (yday mon mday : Int) : Prop where
  low : 0 ≤ mon
  high : mon ≤ 11
  first : 1 ≤ mday
  last : mday ≤ (monLengths leap).getD mon.toNat 0
  day : (monYday leap).getD mon.toNat 0 + mday - 1 = yday

/-- The search takes away the lengths of the months that have passed. -/
theorem findMonth_eq (lengths : List Int) (month : Int) {days : Int} (low : 0 ≤ days) :
    ∃ passed ≤ lengths.length,
      findMonth lengths month days = (month + passed, days - (lengths.take passed).sum) ∧
      0 ≤ days - (lengths.take passed).sum ∧
      (passed < lengths.length → days - (lengths.take passed).sum < lengths.getD passed 0) := by
  induction lengths generalizing month days with
  | nil => exact ⟨0, le_rfl, by simp [findMonth], by simpa using low, fun never => absurd never (by simp)⟩
  | cons mdays rest ih =>
      rw [findMonth]
      split_ifs with here
      · exact ⟨0, Nat.zero_le _, by simp, by simpa using low, fun _ => by simpa using here⟩
      · obtain ⟨passed, few, found, positive, inside⟩ := ih (month + 1) (show 0 ≤ days - mdays by omega)
        have total : days - ((mdays :: rest).take (passed + 1)).sum = days - mdays - (rest.take passed).sum := by
          rw [List.take_succ_cons, List.sum_cons]
          omega
        refine ⟨passed + 1, Nat.succ_le_succ few, ?_, ?_, fun more => ?_⟩
        · rw [found, total]
          push_cast
          congr 1
          omega
        · rw [total]
          exact positive
        · rw [total, List.getD_cons_succ]
          exact inside (Nat.lt_of_succ_lt_succ more)

/-- The table of the days before each month agrees with the table of the lengths. -/
theorem monYday_eq : ∀ month ≤ 11,
    (monYday leap).getD month 0 = (((monLengths leap).take 11).take month).sum := by
  cases leap with
  | false => decide
  | true => decide

theorem monLengths_take : ∀ month < 11,
    ((monLengths leap).take 11).getD month 0 = (monLengths leap).getD month 0 := by
  cases leap with
  | false => decide
  | true => decide

/-- December ends the year. -/
theorem december : (((monLengths leap).take 11).take 11).sum + (monLengths leap).getD 11 0 =
    if leap then 366 else 365 := by
  cases leap with
  | false => decide
  | true => decide

theorem findMonth_spec {year days : Int} (low : 0 ≤ days) (high : days < yearLength year) :
    InMonth (isleap year) days (findMonth ((monLengths (isleap year)).take 11) 0 days).1
      ((findMonth ((monLengths (isleap year)).take 11) 0 days).2 + 1) := by
  obtain ⟨passed, few, found, positive, inside⟩ := findMonth_eq ((monLengths (isleap year)).take 11) 0 low
  have count : ((monLengths (isleap year)).take 11).length = 11 := by
    cases isleap year <;> rfl
  rw [count] at few inside
  have before := monYday_eq (isleap year) passed few
  rw [found]
  refine ⟨by simp, by simpa using few, by dsimp only; omega, ?_, ?_⟩
  · dsimp only
    rw [zero_add, Int.toNat_natCast]
    by_cases last : passed < 11
    · have less := inside last
      rw [monLengths_take _ passed last] at less
      omega
    · obtain rfl : passed = 11 := by omega
      rw [yearLength, ← december] at high
      omega
  · dsimp only
    rw [zero_add, Int.toNat_natCast, before]
    omega

theorem int_of_mem {value : Int} (low : -2 ^ 31 ≤ value) (high : value < 2 ^ 31) : int value = value := by
  unfold int
  omega

theorem int_mem (value : Int) : -2 ^ 31 ≤ int value ∧ int value < 2 ^ 31 := by
  unfold int
  omega

/-- The remainder of a division in C has the sign of the dividend. -/
theorem tdiv_cases (a : Int) {b : Int} (positive : 0 < b) :
    b * a.tdiv b + a.tmod b = a ∧ (0 ≤ a → 0 ≤ a.tmod b) ∧ (a ≤ 0 → a.tmod b ≤ 0) ∧ -b < a.tmod b ∧ a.tmod b < b := by
  refine ⟨Int.mul_tdiv_add_tmod a b, Int.tmod_nonneg b, fun negative => ?_, Int.lt_tmod_of_pos a positive,
    Int.tmod_lt_of_pos a positive⟩
  have opposite := Int.tmod_nonneg b (show 0 ≤ -a by omega)
  rw [Int.neg_tmod] at opposite
  omega

/-- The days and the seconds of the day from which `gmtime_r` starts. -/
theorem gmtimeR_split (t : Int) :
    (if int (t.tmod secsPerDay) < 0 then (int (int (t.tdiv secsPerDay) - 1), int (t.tmod secsPerDay) + secsPerDay)
      else (int (t.tdiv secsPerDay), int (t.tmod secsPerDay))) = (int (t / 86400), t % 86400) := by
  obtain ⟨sum, positive, negative, low, high⟩ := tdiv_cases t (show 0 < secsPerDay by decide)
  unfold secsPerDay at *
  have same : int (t.tmod 86400) = t.tmod 86400 := int_of_mem (by omega) (by omega)
  rw [same]
  split_ifs with below
  · refine Prod.ext ?_ ?_
    · change int (int (t.tdiv 86400) - 1) = int (t / 86400)
      rw [show t / 86400 = t.tdiv 86400 - 1 by omega]
      unfold int
      omega
    · change t.tmod 86400 + 86400 = t % 86400
      omega
  · refine Prod.ext ?_ ?_
    · change int (t.tdiv 86400) = int (t / 86400)
      rw [show t / 86400 = t.tdiv 86400 by omega]
    · change t.tmod 86400 = t % 86400
      omega

/-- A round of the first loop keeps the day and leaves less than two cycles. -/
theorem skipCycles_spec (low : -2 ^ 31 ≤ state.1) (high : state.1 < 2 ^ 31) :
    0 ≤ (skipCycles state).1 ∧ (skipCycles state).1 ≤ 146097 ∧ (0 ≤ state.1 → (skipCycles state).1 < 146097) ∧
      (skipCycles state).1 + daysBeforeYear (skipCycles state).2 = state.1 + daysBeforeYear state.2 := by
  obtain ⟨days, year⟩ := state
  obtain ⟨sum, positive, negative, above, below⟩ := tdiv_cases days (show (0 : Int) < 146097 by decide)
  obtain ⟨cycles, given⟩ : ∃ cycles, cycles = if days < 0 then days.tdiv 146097 - 1 else days.tdiv 146097 := ⟨_, rfl⟩
  have next : skipCycles (days, year) = (int (days - int (cycles * 146097)), year + cycles * 400) := by
    rw [given]
    rfl
  dsimp only at low high
  have left : 0 ≤ days - cycles * 146097 ∧ days - cycles * 146097 ≤ 146097 ∧
      (0 ≤ days → days - cycles * 146097 < 146097) := by
    split_ifs at given <;> omega
  have exactly : int (days - int (cycles * 146097)) = days - cycles * 146097 := by
    unfold int
    omega
  rw [next]
  dsimp only
  rw [exactly, daysBeforeYear_cycles]
  exact ⟨left.1, left.2.1, left.2.2, by omega⟩

/-- What the loops of `gmtime_r` keep: the days that are left and the year make up the day. -/
structure Counting (day : Int) (state : Int × Int) : Prop where
  low : -2 ^ 31 ≤ state.1
  high : state.1 < 2 ^ 31
  day : state.1 + daysBeforeYear state.2 = day

theorem Counting.skipCycles (counting : Counting day state) : Counting day (Calendar.skipCycles state) := by
  obtain ⟨positive, small, _, same⟩ := skipCycles_spec counting.low counting.high
  exact ⟨by omega, by omega, same.trans counting.day⟩

/-- The rounds that are left of the first loop. -/
def cyclesLeft (state : Int × Int) : Nat := if state.1 < 0 then 2 else if 146097 ≤ state.1 then 1 else 0

theorem Counting.cyclesLeft_lt (counting : Counting day state) (goes : state.1 < 0 ∨ 146097 ≤ state.1) :
    cyclesLeft (Calendar.skipCycles state) < cyclesLeft state := by
  obtain ⟨positive, small, inside, _⟩ := skipCycles_spec counting.low counting.high
  unfold cyclesLeft
  by_cases negative : state.1 < 0
  · rw [if_pos negative, if_neg (show ¬ (Calendar.skipCycles state).1 < 0 by omega)]
    split_ifs <;> omega
  · have less := inside (by omega)
    rw [if_neg negative, if_pos (goes.resolve_left negative),
      if_neg (show ¬ (Calendar.skipCycles state).1 < 0 by omega),
      if_neg (show ¬ 146097 ≤ (Calendar.skipCycles state).1 by omega)]
    exact Nat.zero_lt_one

/-- The first loop of `gmtime_r`. -/
def cycleLoop (fuel : Nat) (days : Int) : Option (Int × Int) :=
  whileLoop (fun state => decide (state.1 < 0 ∨ 146097 ≤ state.1)) skipCycles fuel (days, posixBaseYear)

/-- The second loop of `gmtime_r`. -/
def yearLoop (fuel : Nat) (state : Int × Int) : Option (Int × Int) :=
  whileLoop (fun state => decide (yearLength state.2 ≤ state.1))
    (fun state => (state.1 - yearLength state.2, state.2 + 1)) fuel state

theorem Counting.start (t : Int) : Counting (int t) (int t, posixBaseYear) where
  low := (int_mem t).1
  high := (int_mem t).2
  day := by
    change int t + daysBeforeYear 1970 = int t
    rw [daysBeforeYear_base, add_zero]

theorem cycleLoop_spec {last : Int × Int} (ran : cycleLoop fuel (int t) = some last) :
    Counting (int t) last ∧ 0 ≤ last.1 ∧ last.1 < 146097 := by
  obtain ⟨counting, done⟩ := whileLoop_invariant (Counting (int t)) (fun _ counting _ => counting.skipCycles)
    (Counting.start t) ran
  have stops := of_decide_eq_false done
  exact ⟨counting, by omega, by omega⟩

theorem cycleLoop_ends (enough : 2 ≤ fuel) (t : Int) : ∃ last, cycleLoop fuel (int t) = some last := by
  refine whileLoop_ends (Counting (int t)) cyclesLeft (fun _ counting _ => counting.skipCycles)
    (fun _ counting goes => counting.cyclesLeft_lt (of_decide_eq_true goes)) (Counting.start t) ?_
  unfold cyclesLeft
  split_ifs <;> omega

theorem Counting.nextYear (counting : Counting day state) (goes : yearLength state.2 ≤ state.1) :
    Counting day (state.1 - yearLength state.2, state.2 + 1) ∧ 0 ≤ state.1 - yearLength state.2 := by
  have long := yearLength_pos state.2
  have same := counting.day
  have high := counting.high
  refine ⟨⟨?_, ?_, ?_⟩, ?_⟩
  · dsimp only
    omega
  · dsimp only
    omega
  · dsimp only
    rw [daysBeforeYear_succ]
    omega
  · omega

theorem yearLoop_spec {last : Int × Int} (counting : Counting day state) (positive : 0 ≤ state.1)
    (ran : yearLoop fuel state = some last) :
    0 ≤ last.1 ∧ last.1 < yearLength last.2 ∧ last.1 + daysBeforeYear last.2 = day := by
  obtain ⟨kept, done⟩ := whileLoop_invariant (fun state => Counting day state ∧ 0 ≤ state.1)
    (fun _ held goes => held.1.nextYear (of_decide_eq_true goes)) ⟨counting, positive⟩ ran
  exact ⟨kept.2, Int.not_le.mp (of_decide_eq_false done), kept.1.day⟩

theorem yearLoop_ends (counting : Counting day state) (positive : 0 ≤ state.1) (enough : state.1.toNat ≤ fuel) :
    ∃ last, yearLoop fuel state = some last := by
  refine whileLoop_ends (fun state => Counting day state ∧ 0 ≤ state.1) (fun state => state.1.toNat)
    (fun _ held goes => held.1.nextYear (of_decide_eq_true goes)) (fun state held goes => ?_)
    ⟨counting, positive⟩ enough
  have long := yearLength_pos state.2
  have enoughDays : yearLength state.2 ≤ state.1 := of_decide_eq_true goes
  dsimp only
  omega

/-- A broken-down time of a day and of seconds of the day. -/
structure BrokenDown (day seconds : Int) (tm : Tm) : Prop where
  positive : 0 ≤ tm.yday
  inside : tm.yday < yearLength (tm.year + epochYear)
  day : tm.yday + daysBeforeYear (tm.year + epochYear) = day
  month : InMonth (isleap (tm.year + epochYear)) tm.yday tm.mon tm.mday
  hour : 0 ≤ tm.hour ∧ tm.hour ≤ 23
  min : 0 ≤ tm.min ∧ tm.min ≤ 59
  sec : 0 ≤ tm.sec ∧ tm.sec ≤ 59
  seconds : tm.hour * 3600 + tm.min * 60 + tm.sec = seconds

/-- The structure that `gmtime_r` fills from its loops. -/
theorem gmtimeR_eq (fuel : Nat) (t : Int) :
    gmtimeR fuel t = (cycleLoop fuel (int (t / 86400))).bind fun cycle => (yearLoop fuel cycle).bind fun last => some
      { sec := ((t % 86400).tmod 3600).tmod 60
        min := ((t % 86400).tmod 3600).tdiv 60
        hour := (t % 86400).tdiv 3600
        mday := (findMonth ((monLengths (isleap last.2)).take 11) 0 last.1).2 + 1
        mon := (findMonth ((monLengths (isleap last.2)).take 11) 0 last.1).1
        year := last.2 - epochYear
        wday :=
          if (int (epochWday + int (t / 86400))).tmod 7 < 0 then (int (epochWday + int (t / 86400))).tmod 7 + 7
          else (int (epochWday + int (t / 86400))).tmod 7
        yday := last.1
        isdst := 0
        gmtoff := 0
        zone := "UTC" } := by
  unfold gmtimeR
  dsimp only
  rw [gmtimeR_split]
  rfl

/-- A broken-down time that `gmtime_r` returns. -/
theorem gmtimeR_spec (ran : gmtimeR fuel t = some tm) : BrokenDown (int (t / 86400)) (t % 86400) tm := by
  rw [gmtimeR_eq] at ran
  obtain ⟨cycle, first, rest⟩ := Option.bind_eq_some_iff.mp ran
  obtain ⟨last, second, given⟩ := Option.bind_eq_some_iff.mp rest
  obtain rfl := Option.some.inj given
  obtain ⟨counting, positive, _⟩ := cycleLoop_spec first
  obtain ⟨low, high, day⟩ := yearLoop_spec counting positive second
  have year : last.2 - epochYear + epochYear = last.2 := by omega
  obtain ⟨sum, below, _, _, above⟩ := tdiv_cases (t % 86400) (show (0 : Int) < 3600 by decide)
  obtain ⟨inner, least, _, _, most⟩ := tdiv_cases ((t % 86400).tmod 3600) (show (0 : Int) < 60 by decide)
  refine ⟨low, ?_, ?_, ?_, ?_, ?_, ?_, ?_⟩
  · dsimp only
    rw [year]
    exact high
  · dsimp only
    rw [year]
    exact day
  · dsimp only
    rw [year]
    exact findMonth_spec low high
  all_goals dsimp only; omega

theorem gmtimeR_returns (enough : 146097 ≤ fuel) (t : Int) : ∃ tm, gmtimeR fuel t = some tm := by
  rw [gmtimeR_eq]
  obtain ⟨cycle, first⟩ := cycleLoop_ends (show 2 ≤ fuel by omega) (t / 86400)
  obtain ⟨counting, positive, small⟩ := cycleLoop_spec first
  obtain ⟨last, second⟩ := yearLoop_ends counting positive (show cycle.1.toNat ≤ fuel by omega)
  rw [first, Option.bind_some, second, Option.bind_some]
  exact ⟨_, rfl⟩

/-- No loop of `__normalize_tm` makes a round when all fields are in their ranges. -/
theorem normalizeTm_done (sec : 0 ≤ tm.sec ∧ tm.sec < 60) (min : 0 ≤ tm.min ∧ tm.min < 60)
    (hour : 0 ≤ tm.hour ∧ tm.hour < 24) (mon : 0 ≤ tm.mon ∧ tm.mon < 12)
    (mday : 1 ≤ tm.mday ∧ tm.mday ≤ tm.monthLength) (fuel : Nat) : normalizeTm fuel tm = some tm.setDays := by
  have stays : ∀ {test : Tm → Bool} {body : Tm → Tm}, test tm = false → whileLoop test body fuel tm = some tm :=
    fun done => whileLoop_done fuel done
  unfold normalizeTm
  simp only [Option.bind_eq_bind]
  rw [stays (decide_eq_false (by omega)), Option.bind_some, stays (decide_eq_false (by omega)), Option.bind_some,
    stays (decide_eq_false (by omega)), Option.bind_some, stays (decide_eq_false (by omega)), Option.bind_some,
    stays (decide_eq_false (by omega)), Option.bind_some, stays (decide_eq_false (by omega)), Option.bind_some,
    stays (decide_eq_false (by omega)), Option.bind_some, stays (decide_eq_false (by omega)), Option.bind_some,
    stays (decide_eq_false (by omega)), Option.bind_some, stays (decide_eq_false (by omega)), Option.bind_some]
  rfl

/-- A broken-down time is normalised already. -/
theorem BrokenDown.normalizeTm (broken : BrokenDown day seconds tm) (fuel : Nat) :
    Calendar.normalizeTm fuel tm = some tm.setDays := by
  have hour := broken.hour
  have min := broken.min
  have sec := broken.sec
  have low := broken.month.low
  have high := broken.month.high
  have last : tm.mday ≤ tm.monthLength := by
    unfold Tm.monthLength daysinmonth
    rw [if_neg (by omega)]
    exact broken.month.last
  exact normalizeTm_done (by omega) (by omega) (by omega) (by omega) ⟨broken.month.first, last⟩ fuel

/-- The seconds that `timegm` and `mktime` count. They leave out the years before 1970. -/
theorem BrokenDown.countSeconds (broken : BrokenDown day seconds tm) :
    (Calendar.countSeconds tm.setDays).2 =
      (max 0 (daysBeforeYear (tm.year + epochYear)) + tm.yday) * 86400 + seconds := by
  have years : countedLoop (fun y days => days + yearLength (posixBaseYear + y))
      (tm.year + epochYear - posixBaseYear).toNat 0 = max 0 (daysBeforeYear (tm.year + epochYear)) := by
    rw [countedYears]
    by_cases late : 1970 ≤ tm.year + epochYear
    · have more := daysBeforeYear_mono late
      rw [daysBeforeYear_base] at more
      rw [max_eq_right more]
      congr 1
      unfold posixBaseYear
      omega
    · have less := daysBeforeYear_mono (show tm.year + epochYear ≤ 1970 by omega)
      rw [daysBeforeYear_base] at less
      rw [max_eq_left less, show (tm.year + epochYear - posixBaseYear).toNat = 0 by unfold posixBaseYear; omega]
      exact daysBeforeYear_base
  have day := broken.month.day
  have total := broken.seconds
  unfold Calendar.countSeconds Tm.setDays
  dsimp only
  rw [years]
  unfold secsPerDay
  omega

/-- The seconds are those of the time if and only if its days are a natural number that fits in an `int`. -/
theorem BrokenDown.countSeconds_eq_iff (broken : BrokenDown (int (t / 86400)) (t % 86400) tm) :
    (Calendar.countSeconds tm.setDays).2 = t ↔ 0 ≤ t ∧ t / 86400 < 2 ^ 31 := by
  rw [broken.countSeconds]
  have day := broken.day
  have positive := broken.positive
  have inside := broken.inside
  have range := int_mem (t / 86400)
  have long := yearLength_le (tm.year + epochYear)
  constructor
  · intro same
    rcases le_total 0 (daysBeforeYear (tm.year + epochYear)) with late | early
    · rw [max_eq_right late] at same
      omega
    · rw [max_eq_left early] at same
      omega
  · rintro ⟨late, few⟩
    rw [int_of_mem (by omega) few] at day
    have after : 0 ≤ daysBeforeYear (tm.year + epochYear) := by
      by_contra before
      have next := daysBeforeYear_succ (tm.year + epochYear)
      -- A year that starts before the epoch ends at the epoch or before it.
      have early : tm.year + epochYear + 1 ≤ 1970 := by
        by_contra later
        have more := daysBeforeYear_mono (show 1970 ≤ tm.year + epochYear by omega)
        rw [daysBeforeYear_base] at more
        omega
      have bound := daysBeforeYear_mono early
      rw [daysBeforeYear_base] at bound
      omega
    rw [max_eq_right after]
    omega

/-- The fields of a broken-down time are in their ranges, and the day of the year agrees with the month. -/
structure FieldsInRange (tm : Tm) : Prop where
  mon : 0 ≤ tm.mon ∧ tm.mon ≤ 11
  mday : 1 ≤ tm.mday ∧ tm.mday ≤ 31
  hour : 0 ≤ tm.hour ∧ tm.hour ≤ 23
  min : 0 ≤ tm.min ∧ tm.min ≤ 59
  sec : 0 ≤ tm.sec ∧ tm.sec ≤ 59
  yday : tm.yday = (monYday (isleap (tm.year + epochYear))).getD tm.mon.toNat 0 + tm.mday - 1

theorem monLengths_le : ∀ month ≤ 11, (monLengths leap).getD month 0 ≤ 31 := by
  cases leap with
  | false => decide
  | true => decide

theorem BrokenDown.fieldsInRange (broken : BrokenDown day seconds tm) :
    FieldsInRange tm where
  mon := ⟨broken.month.low, broken.month.high⟩
  mday := ⟨broken.month.first, broken.month.last.trans (monLengths_le _ _ (Int.toNat_le.mpr broken.month.high))⟩
  hour := broken.hour
  min := broken.min
  sec := broken.sec
  yday := broken.month.day.symm

/-- The structures that `gmtime_r` and `localtime_r` fill are in range and lead back to the time. -/
def RoundTrips (zone : Zone) (t : Int) : Prop :=
  ∃ fuel utc civil, gmtimeR fuel t = some utc ∧ localtimeR zone fuel t = some civil ∧ FieldsInRange utc ∧
    FieldsInRange civil ∧ (∃ after, timegm fuel utc = some (t, after)) ∧
    ∃ after, mktime zone fuel civil = some (t, after)

/-- Adding the offset of the zone undoes its subtraction, and nothing else does. -/
theorem long_add_eq_iff {offset : Int} (low : -2 ^ 63 ≤ t) (high : t < 2 ^ 63) (least : -2 ^ 63 ≤ seconds)
    (most : seconds < 2 ^ 63) : long (seconds + offset) = t ↔ seconds = long (t - offset) := by
  unfold long
  omega

theorem BrokenDown.timegm (broken : BrokenDown day seconds tm) (fuel : Nat) :
    ∃ after, Calendar.timegm fuel tm = some ((Calendar.countSeconds tm.setDays).2, after) := by
  unfold Calendar.timegm
  rw [broken.normalizeTm fuel]
  exact ⟨_, rfl⟩

theorem BrokenDown.mktime (broken : BrokenDown day seconds tm) (zone : Zone) (fuel : Nat) :
    ∃ after, Calendar.mktime zone fuel tm =
      some (long ((Calendar.countSeconds tm.setDays).2 + zone.timezone), after) := by
  unfold Calendar.mktime
  rw [broken.normalizeTm fuel]
  exact ⟨_, rfl⟩

/-- The counted seconds are far from the ends of `time_t`. -/
theorem BrokenDown.countSeconds_range (broken : BrokenDown (int (t / 86400)) (t % 86400) tm) :
    -2 ^ 63 ≤ (Calendar.countSeconds tm.setDays).2 ∧ (Calendar.countSeconds tm.setDays).2 < 2 ^ 63 := by
  rw [broken.countSeconds]
  have day := broken.day
  have positive := broken.positive
  have inside := broken.inside
  have range := int_mem (t / 86400)
  have long := yearLength_le (tm.year + epochYear)
  rcases le_total 0 (daysBeforeYear (tm.year + epochYear)) with late | early
  · rw [max_eq_right late]
    omega
  · rw [max_eq_left early]
    omega

/-- What `localtime_r` returns is the broken-down time of the shifted time. -/
theorem localtimeR_spec {zone : Zone} (ran : localtimeR zone fuel t = some tm) :
    BrokenDown (int (long (t - zone.timezone) / 86400)) (long (t - zone.timezone) % 86400) tm := by
  obtain ⟨utc, given, rest⟩ := Option.bind_eq_some_iff.mp ran
  obtain rfl := Option.some.inj rest
  have broken := gmtimeR_spec given
  exact ⟨broken.positive, broken.inside, broken.day, broken.month, broken.hour, broken.min, broken.sec, broken.seconds⟩

theorem localtimeR_returns (enough : 146097 ≤ fuel) (zone : Zone) (t : Int) :
    ∃ tm, localtimeR zone fuel t = some tm := by
  obtain ⟨utc, given⟩ := gmtimeR_returns enough (long (t - zone.timezone))
  unfold localtimeR
  rw [given]
  exact ⟨_, rfl⟩

/-- For every time whose day count fits in an `int` and every offset, the round trips lead back to the time with
all fields in range if and only if the time is not before the epoch, the local time is not before it either, and
its day count fits in an `int`. -/
theorem roundTrips_iff (zone : Zone) (t : Int) (low : -2 ^ 31 ≤ t / 86400) (high : t / 86400 < 2 ^ 31) :
    RoundTrips zone t ↔
      0 ≤ t ∧ 0 ≤ long (t - zone.timezone) ∧ long (t - zone.timezone) / 86400 < 2 ^ 31 := by
  constructor
  · rintro ⟨fuel, utc, civil, first, second, _, _, ⟨_, direct⟩, ⟨_, shifted⟩⟩
    have broken := gmtimeR_spec first
    have localBroken := localtimeR_spec second
    obtain ⟨_, back⟩ := broken.timegm fuel
    obtain ⟨_, localBack⟩ := localBroken.mktime zone fuel
    have seconds := (Prod.mk.inj (Option.some.inj (back.symm.trans direct))).1
    have localSeconds := (Prod.mk.inj (Option.some.inj (localBack.symm.trans shifted))).1
    obtain ⟨least, most⟩ := localBroken.countSeconds_range
    rw [long_add_eq_iff (by omega) (by omega) least most] at localSeconds
    exact ⟨(broken.countSeconds_eq_iff.mp seconds).1, localBroken.countSeconds_eq_iff.mp localSeconds⟩
  · rintro ⟨late, localLate, few⟩
    obtain ⟨utc, first⟩ := gmtimeR_returns le_rfl t
    obtain ⟨civil, second⟩ := localtimeR_returns le_rfl zone t
    have broken := gmtimeR_spec first
    have localBroken := localtimeR_spec second
    obtain ⟨after, back⟩ := broken.timegm 146097
    obtain ⟨localAfter, localBack⟩ := localBroken.mktime zone 146097
    obtain ⟨least, most⟩ := localBroken.countSeconds_range
    have seconds := broken.countSeconds_eq_iff.mpr ⟨late, high⟩
    have localSeconds := (long_add_eq_iff (by omega) (by omega) least most).mpr
      (localBroken.countSeconds_eq_iff.mpr ⟨localLate, few⟩)
    rw [seconds] at back
    rw [localSeconds] at localBack
    exact ⟨146097, utc, civil, first, second, broken.fieldsInRange, localBroken.fieldsInRange, ⟨after, back⟩,
      ⟨localAfter, localBack⟩⟩

/-- The last second of the year 2000 in Central Europe. -/
theorem roundTrips_cet : RoundTrips ⟨-3600, 1, ("CET", "CEST")⟩ 978303599 :=
  (roundTrips_iff ⟨-3600, 1, ("CET", "CEST")⟩ 978303599 (by decide) (by decide)).mpr (by decide)

/-- The last second before the epoch is turned into the last second of the year 1970. -/
theorem timegm_before_epoch :
    ((gmtimeR 400 (-1)).bind fun utc => (timegm 400 utc).map Prod.fst) = some 31535999 ∧
      ¬ RoundTrips ⟨0, 0, ("UTC", "UTC")⟩ (-1) := by
  refine ⟨by decide +kernel, ?_⟩
  rintro ⟨fuel, utc, _, ran, _, _, _, ⟨_, direct⟩, _⟩
  have broken := gmtimeR_spec ran
  obtain ⟨_, back⟩ := broken.timegm fuel
  have seconds := (Prod.mk.inj (Option.some.inj (back.symm.trans direct))).1
  exact absurd (broken.countSeconds_eq_iff.mp seconds).1 (by decide)

end Uesi.Calendar
