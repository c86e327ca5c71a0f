import Uesi.Proof.Libc.Calendar

namespace Uesi.Calendar

open Library

/-- The days from the epoch to the first day of a month, where the months go on into the years before and
behind. -/
def daysBeforeMonth (year mon : Int) : Int :=
  daysBeforeYear (year + mon / 12) + (monYday (isleap (year + mon / 12))).getD (mon % 12).toNat 0

/-- The length of a month, where the months go on into the years before and behind. -/
def lengthOfMonth (year mon : Int) : Int :=
  (monLengths (isleap (year + mon / 12))).getD (mon % 12).toNat 0

/-- The seconds from the start of 1900 to a broken-down time in the proleptic Gregorian calendar. -/
def Tm.instant (tm : Tm) : Int :=
  (daysBeforeMonth (tm.year + epochYear) tm.mon + tm.mday - 1 - daysBeforeYear 1900) * 86400 +
    tm.hour * 3600 + tm.min * 60 + tm.sec

/-- Twelve months make a year. -/
theorem daysBeforeMonth_congr {year mon otherYear other : Int}
    (same : 12 * year + mon = 12 * otherYear + other) :
    daysBeforeMonth year mon = daysBeforeMonth otherYear other := by
  have years : year + mon / 12 = otherYear + other / 12 := by omega
  have months : mon % 12 = other % 12 := by omega
  unfold daysBeforeMonth
  rw [years, months]

/-- The table of the days before each month steps by the lengths of the months. -/
theorem monYday_succ (leap : Bool) : ∀ month < 11,
    (monYday leap).getD (month + 1) 0 = (monYday leap).getD month 0 + (monLengths leap).getD month 0 := by
  cases leap with
  | false => decide
  | true => decide

/-- December ends with the year. -/
theorem monYday_december (leap : Bool) :
    (monYday leap).getD 11 0 + (monLengths leap).getD 11 0 = if leap then 366 else 365 := by
  cases leap with
  | false => decide
  | true => decide

theorem daysBeforeMonth_succ (year mon : Int) :
    daysBeforeMonth year (mon + 1) = daysBeforeMonth year mon + lengthOfMonth year mon := by
  unfold daysBeforeMonth lengthOfMonth
  by_cases last : mon % 12 = 11
  · have years : year + (mon + 1) / 12 = year + mon / 12 + 1 := by omega
    have months : (mon + 1) % 12 = 0 := by omega
    have ends := monYday_december (isleap (year + mon / 12))
    have first : ∀ leap, (monYday leap).getD 0 0 = 0 := by decide
    rw [years, months, last, daysBeforeYear_succ]
    unfold yearLength
    rw [show (0 : Int).toNat = 0 from rfl, show (11 : Int).toNat = 11 from rfl, first]
    omega
  · have years : year + (mon + 1) / 12 = year + mon / 12 := by omega
    have months : ((mon + 1) % 12).toNat = (mon % 12).toNat + 1 := by omega
    rw [years, months, monYday_succ _ _ (by omega)]
    omega

theorem monLengths_ge (leap : Bool) : ∀ month ≤ 11, 28 ≤ (monLengths leap).getD month 0 := by
  cases leap with
  | false => decide
  | true => decide

/-- The length of a month in its range. -/
theorem Tm.monthLength_eq {tm : Tm} (low : 0 ≤ tm.mon) (high : tm.mon < 12) :
    tm.monthLength = lengthOfMonth (tm.year + epochYear) tm.mon ∧ 28 ≤ tm.monthLength := by
  have years : tm.mon / 12 = 0 := by omega
  have months : tm.mon % 12 = tm.mon := by omega
  unfold Tm.monthLength daysinmonth lengthOfMonth
  rw [if_neg (by omega), years, months, add_zero]
  exact ⟨rfl, monLengths_ge _ _ (by omega)⟩

/-- Two loops that borrow from the next larger unit and carry into it leave a unit in its range and keep what
each of their rounds keeps. -/
theorem carry_settles (low : Tm → Int) (unit : Int) (positive : 0 < unit) (borrow carry : Tm → Tm)
    (borrowLow : ∀ tm, low (borrow tm) = low tm + unit) (carryLow : ∀ tm, low (carry tm) = low tm - unit)
    (invariant : Tm → Prop) (borrowKeeps : ∀ tm, invariant tm → invariant (borrow tm))
    (carryKeeps : ∀ tm, invariant tm → invariant (carry tm)) {tm : Tm} (initial : invariant tm) :
    ∃ fuel middle last, (∀ more, fuel ≤ more →
        whileLoop (fun tm => decide (low tm < 0)) borrow more tm = some middle ∧
        whileLoop (fun tm => decide (unit ≤ low tm)) carry more middle = some last) ∧
      invariant last ∧ 0 ≤ low last ∧ low last < unit := by
  obtain ⟨middle, first, kept, stopped⟩ := @whileLoop_settles Tm (fun tm => decide (low tm < 0)) borrow invariant
    (fun tm => (-low tm).toNat) (fun tm held _ => borrowKeeps tm held) (fun tm _ goes => by
      have below : low tm < 0 := of_decide_eq_true goes
      have raised := borrowLow tm
      omega) tm initial
  have above : 0 ≤ low middle := Int.not_lt.mp (of_decide_eq_false stopped)
  obtain ⟨last, second, ⟨held, least⟩, ended⟩ := @whileLoop_settles Tm (fun tm => decide (unit ≤ low tm)) carry
    (fun tm => invariant tm ∧ 0 ≤ low tm) (fun tm => (low tm).toNat) (fun tm held goes => by
      have enough : unit ≤ low tm := of_decide_eq_true goes
      have lowered := carryLow tm
      exact ⟨carryKeeps tm held.1, by omega⟩) (fun tm held goes => by
      have enough : unit ≤ low tm := of_decide_eq_true goes
      have lowered := carryLow tm
      omega) middle ⟨kept, above⟩
  refine ⟨max (-low tm).toNat (low middle).toNat, middle, last, ?_, held, least,
    Int.not_le.mp (of_decide_eq_false ended)⟩
  intro more enough
  exact ⟨first more (by omega), second more (by omega)⟩

/-- What the loops of `__normalize_tm` have reached: the instant of the start, with the smaller units in their
ranges. -/
structure Reached (instant : Int) (tm : Tm) : Prop where
  instant : tm.instant = instant
  sec : 0 ≤ tm.sec ∧ tm.sec < 60
  min : 0 ≤ tm.min ∧ tm.min < 60
  hour : 0 ≤ tm.hour ∧ tm.hour < 24
  mon : 0 ≤ tm.mon ∧ tm.mon < 12

/-- A month earlier with more days, by the length of that month, is the same instant. -/
theorem Reached.moveMonth {instant : Int} {tm next : Tm} (held : Reached instant tm)
    (mon : 0 ≤ next.mon ∧ next.mon < 12) (sec : next.sec = tm.sec) (min : next.min = tm.min)
    (hour : next.hour = tm.hour)
    (days : daysBeforeMonth (next.year + epochYear) next.mon + next.mday =
      daysBeforeMonth (tm.year + epochYear) tm.mon + tm.mday) : Reached instant next where
  instant := by
    rw [← held.instant]
    unfold Tm.instant
    rw [sec, min, hour]
    omega
  sec := sec ▸ held.sec
  min := min ▸ held.min
  hour := hour ▸ held.hour
  mon := mon

/-- A round of the loop for a day before the month keeps the instant and adds at least 28 days. -/
theorem Reached.previousMonth {instant : Int} {tm : Tm} (held : Reached instant tm) :
    Reached instant { tm.previousMonth with mday := tm.mday + tm.previousMonth.monthLength } ∧
      28 ≤ tm.previousMonth.monthLength := by
  have low := held.mon.1
  have high := held.mon.2
  have range : 0 ≤ tm.previousMonth.mon ∧ tm.previousMonth.mon < 12 := by
    unfold Tm.previousMonth
    split <;> dsimp only <;> omega
  have months : 12 * (tm.previousMonth.year + epochYear) + (tm.previousMonth.mon + 1) =
      12 * (tm.year + epochYear) + tm.mon := by
    unfold Tm.previousMonth
    split <;> dsimp only <;> omega
  obtain ⟨length, long⟩ := Tm.monthLength_eq range.1 range.2
  have step := daysBeforeMonth_succ (tm.previousMonth.year + epochYear) tm.previousMonth.mon
  rw [daysBeforeMonth_congr months] at step
  refine ⟨held.moveMonth range ?_ ?_ ?_ (by dsimp only; omega), long⟩
  all_goals
    unfold Tm.previousMonth
    split <;> rfl

/-- A round of the loop for a day behind the month keeps the instant and takes away at least 28 days. -/
theorem Reached.nextMonth {instant : Int} {tm : Tm} (held : Reached instant tm) :
    Reached instant { tm.nextMonth with mday := tm.mday - tm.monthLength } ∧ 28 ≤ tm.monthLength := by
  have low := held.mon.1
  have high := held.mon.2
  have range : 0 ≤ tm.nextMonth.mon ∧ tm.nextMonth.mon < 12 := by
    unfold Tm.nextMonth
    split <;> dsimp only <;> omega
  have months : 12 * (tm.nextMonth.year + epochYear) + tm.nextMonth.mon =
      12 * (tm.year + epochYear) + (tm.mon + 1) := by
    unfold Tm.nextMonth
    split
    · dsimp only
      omega
    · dsimp only
  obtain ⟨length, long⟩ := Tm.monthLength_eq low high
  have step := daysBeforeMonth_succ (tm.year + epochYear) tm.mon
  rw [← daysBeforeMonth_congr months] at step
  refine ⟨held.moveMonth range ?_ ?_ ?_ (by dsimp only; omega), long⟩
  all_goals
    unfold Tm.nextMonth
    split <;> rfl

/-- The fields of a normalised time are in their calendar ranges, and the day of the year agrees with the month. -/
structure Normalized (tm : Tm) : Prop where
  sec : 0 ≤ tm.sec ∧ tm.sec < 60
  min : 0 ≤ tm.min ∧ tm.min < 60
  hour : 0 ≤ tm.hour ∧ tm.hour < 24
  mon : 0 ≤ tm.mon ∧ tm.mon < 12
  mday : 1 ≤ tm.mday ∧ tm.mday ≤ tm.monthLength
  yday : tm.yday = (monYday (isleap (tm.year + epochYear))).getD tm.mon.toNat 0 + tm.mday - 1

/-- The two loops over the days leave the day in its month. -/
theorem Reached.days_settle {instant : Int} {tm : Tm} (held : Reached instant tm) :
    ∃ fuel middle last, (∀ more, fuel ≤ more →
        whileLoop (fun tm => decide (tm.mday < 1))
          (fun tm => { tm.previousMonth with mday := tm.mday + tm.previousMonth.monthLength }) more tm = some middle ∧
        whileLoop (fun tm => decide (tm.monthLength < tm.mday))
          (fun tm => { tm.nextMonth with mday := tm.mday - tm.monthLength }) more middle = some last) ∧
      Reached instant last ∧ 1 ≤ last.mday ∧ last.mday ≤ last.monthLength := by
  obtain ⟨middle, first, kept, stopped⟩ := @whileLoop_settles Tm (fun tm => decide (tm.mday < 1))
    (fun tm => { tm.previousMonth with mday := tm.mday + tm.previousMonth.monthLength }) (Reached instant)
    (fun tm => (1 - tm.mday).toNat) (fun tm held _ => held.previousMonth.1) (fun tm held goes => by
      have below : tm.mday < 1 := of_decide_eq_true goes
      have long := held.previousMonth.2
      dsimp only
      omega) tm held
  have above : ¬ middle.mday < 1 := of_decide_eq_false stopped
  obtain ⟨last, second, ⟨reached, least⟩, ended⟩ := @whileLoop_settles Tm
    (fun tm => decide (tm.monthLength < tm.mday))
    (fun tm => { tm.nextMonth with mday := tm.mday - tm.monthLength })
    (fun tm => Reached instant tm ∧ 1 ≤ tm.mday) (fun tm => tm.mday.toNat) (fun tm held goes => by
      have behind : tm.monthLength < tm.mday := of_decide_eq_true goes
      exact ⟨held.1.nextMonth.1, by dsimp only; omega⟩) (fun tm held goes => by
      have behind : tm.monthLength < tm.mday := of_decide_eq_true goes
      have long := held.1.nextMonth.2
      dsimp only
      omega) middle ⟨kept, by omega⟩
  refine ⟨max (1 - tm.mday).toNat middle.mday.toNat, middle, last, ?_, reached, least,
    Int.not_lt.mp (of_decide_eq_false ended)⟩
  intro more enough
  exact ⟨first more (by omega), second more (by omega)⟩

/-- The ten loops of `__normalize_tm` end, keep the instant and leave all fields in their ranges. -/
theorem normalizeTm_settles (tm : Tm) :
    ∃ fuel last, (∀ more, fuel ≤ more → normalizeTm more tm = some last.setDays) ∧
      Reached tm.instant last ∧ 1 ≤ last.mday ∧ last.mday ≤ last.monthLength := by
  obtain ⟨fuelSec, middleSec, first, ranSec, keptSec, lowSec, highSec⟩ := carry_settles (·.sec) 60 (by decide)
    (fun tm => { tm with sec := tm.sec + 60, min := tm.min - 1 })
    (fun tm => { tm with sec := tm.sec - 60, min := tm.min + 1 }) (fun _ => rfl) (fun _ => rfl)
    (fun now => now.instant = tm.instant)
    (fun now same => by rw [← same]; unfold Tm.instant; dsimp only; omega)
    (fun now same => by rw [← same]; unfold Tm.instant; dsimp only; omega) rfl
  obtain ⟨fuelMin, middleMin, second, ranMin, ⟨keptMin, secMin⟩, lowMin, highMin⟩ := carry_settles (·.min) 60 (by decide)
    (fun tm => { tm with min := tm.min + 60, hour := tm.hour - 1 })
    (fun tm => { tm with min := tm.min - 60, hour := tm.hour + 1 }) (fun _ => rfl) (fun _ => rfl)
    (fun now => now.instant = tm.instant ∧ 0 ≤ now.sec ∧ now.sec < 60)
    (fun now held => ⟨by rw [← held.1]; unfold Tm.instant; dsimp only; omega, held.2⟩)
    (fun now held => ⟨by rw [← held.1]; unfold Tm.instant; dsimp only; omega, held.2⟩) ⟨keptSec, lowSec, highSec⟩
  obtain ⟨fuelHour, middleHour, third, ranHour, ⟨keptHour, secHour, minHour⟩, lowHour, highHour⟩ :=
    carry_settles (·.hour) 24 (by decide)
    (fun tm => { tm with hour := tm.hour + 24, mday := tm.mday - 1 })
    (fun tm => { tm with hour := tm.hour - 24, mday := tm.mday + 1 }) (fun _ => rfl) (fun _ => rfl)
    (fun now => now.instant = tm.instant ∧ (0 ≤ now.sec ∧ now.sec < 60) ∧ 0 ≤ now.min ∧ now.min < 60)
    (fun now held => ⟨by rw [← held.1]; unfold Tm.instant; dsimp only; omega, held.2⟩)
    (fun now held => ⟨by rw [← held.1]; unfold Tm.instant; dsimp only; omega, held.2⟩)
    ⟨keptMin, secMin, lowMin, highMin⟩
  obtain ⟨fuelMon, middleMon, fourth, ranMon, ⟨keptMon, secMon, minMon, hourMon⟩, lowMon, highMon⟩ :=
    carry_settles (·.mon) 12 (by decide) (fun tm => { tm with mon := tm.mon + 12, year := tm.year - 1 })
    (fun tm => { tm with mon := tm.mon - 12, year := tm.year + 1 }) (fun _ => rfl) (fun _ => rfl)
    (fun now => now.instant = tm.instant ∧ (0 ≤ now.sec ∧ now.sec < 60) ∧ (0 ≤ now.min ∧ now.min < 60) ∧
      0 ≤ now.hour ∧ now.hour < 24)
    (fun now held => ⟨by
      rw [← held.1]
      unfold Tm.instant
      dsimp only
      rw [daysBeforeMonth_congr (show 12 * (now.year - 1 + epochYear) + (now.mon + 12) =
        12 * (now.year + epochYear) + now.mon by omega)], held.2⟩)
    (fun now held => ⟨by
      rw [← held.1]
      unfold Tm.instant
      dsimp only
      rw [daysBeforeMonth_congr (show 12 * (now.year + 1 + epochYear) + (now.mon - 12) =
        12 * (now.year + epochYear) + now.mon by omega)], held.2⟩)
    ⟨keptHour, secHour, minHour, lowHour, highHour⟩
  obtain ⟨fuelDay, middleDay, last, ranDay, reached, least, most⟩ :=
    Reached.days_settle ⟨keptMon, secMon, minMon, hourMon, lowMon, highMon⟩
  refine ⟨max fuelSec (max fuelMin (max fuelHour (max fuelMon fuelDay))), last, ?_, reached, least, most⟩
  intro more enough
  obtain ⟨downSec, upSec⟩ := ranSec more (by omega)
  obtain ⟨downMin, upMin⟩ := ranMin more (by omega)
  obtain ⟨downHour, upHour⟩ := ranHour more (by omega)
  obtain ⟨downMon, upMon⟩ := ranMon more (by omega)
  obtain ⟨downDay, upDay⟩ := ranDay more (by omega)
  unfold normalizeTm
  simp only [Option.bind_eq_bind]
  rw [downSec, Option.bind_some, upSec, Option.bind_some, downMin, Option.bind_some, upMin, Option.bind_some, downHour,
    Option.bind_some, upHour, Option.bind_some, downMon, Option.bind_some, upMon, Option.bind_some, downDay,
    Option.bind_some, upDay, Option.bind_some]
  rfl

/-- For every broken-down time, `__normalize_tm` ends with a time whose fields are in their calendar ranges and
that denotes the same instant, and a second call changes none of these fields. -/
theorem normalizeTm_normalizes (tm : Tm) :
    ∃ fuel last, (∀ more, fuel ≤ more → normalizeTm more tm = some last) ∧ Normalized last ∧
      last.instant = tm.instant ∧ ∀ more, ∃ again, normalizeTm more last = some again ∧
        again.sec = last.sec ∧ again.min = last.min ∧ again.hour = last.hour ∧ again.mday = last.mday ∧
        again.mon = last.mon ∧ again.year = last.year ∧ again.yday = last.yday := by
  obtain ⟨fuel, last, ran, reached, least, most⟩ := normalizeTm_settles tm
  have normal : Normalized last.setDays :=
    ⟨reached.sec, reached.min, reached.hour, reached.mon, ⟨least, most⟩, rfl⟩
  refine ⟨fuel, last.setDays, ran, normal, reached.instant, ?_⟩
  intro more
  exact ⟨last.setDays.setDays,
    normalizeTm_done normal.sec normal.min normal.hour normal.mon normal.mday more, rfl, rfl, rfl, rfl, rfl, rfl, rfl⟩

/-- The second before the first of March 2000 is the last second of a leap day. -/
example : (normalizeTm 10 ⟨-1, 0, 0, 1, 2, 100, 0, 0, 0, 0, "UTC"⟩).map
    (fun tm => [tm.year, tm.mon, tm.mday, tm.hour, tm.min, tm.sec, tm.yday]) =
      some [100, 1, 29, 23, 59, 59, 59] := by decide +kernel

end Uesi.Calendar
