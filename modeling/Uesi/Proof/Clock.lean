import Uesi.Construction.Clock

namespace Uesi.Clock

open Library

/-- A time is not earlier than another one. -/
def Timespec.NotEarlier (later earlier : Timespec) : Prop :=
  earlier.sec < later.sec ∨ earlier.sec = later.sec ∧ earlier.nsec ≤ later.nsec

/-- The clock shows the elapsed ticks as whole nanoseconds. -/
def ReportsElapsed (time : Timekeeping) (tsc : Nat) (report : Timespec) : Prop :=
  report.sec * 1000000000 + report.nsec = ((tsc - time.tscAtBoot) * 1000000000 / time.frequencyHz : Nat) ∧
    report.nsec < 1000000000

/-- `CLOCK_MONOTONIC` shows the elapsed time at two readings and does not go back between them. -/
def Monotonic (time : Timekeeping) (first second : Nat) : Prop :=
  ∃ earlier later, clockTime time 1 first = .ok earlier ∧ clockTime time 1 second = .ok later ∧
    ReportsElapsed time first earlier ∧ ReportsElapsed time second later ∧ later.NotEarlier earlier

variable {time : Timekeeping}

theorem clockTime_monotonic (time : Timekeeping) (tsc : Nat) : clockTime time 1 tsc = .ok (nanouptime time tsc) := rfl

/-- The report of a number of nanoseconds has it as its value. -/
theorem nsecToTimespec_value (ns : Nat) :
    (nsecToTimespec ns).sec * 1000000000 + (nsecToTimespec ns).nsec = (ns : Int) := by
  unfold nsecToTimespec
  dsimp only
  omega

theorem nsecToTimespec_notEarlier {first second : Nat} (ordered : first ≤ second) :
    (nsecToTimespec second).NotEarlier (nsecToTimespec first) := by
  unfold nsecToTimespec Timespec.NotEarlier
  dsimp only
  omega

/-- A product that does not fit into 64 bits loses at least one second of any frequency up to 10 GHz. -/
theorem tscToNs_eq_iff {ticks : Nat} (low : 1000000 ≤ time.frequencyHz) (high : time.frequencyHz ≤ 10000000000) :
    tscToNs time ticks = ticks * 1000000000 / time.frequencyHz ↔ ticks * 1000000000 < 2 ^ 64 := by
  have positive : 0 < time.frequencyHz := by omega
  unfold tscToNs
  rw [if_neg positive.ne']
  constructor
  · intro same
    by_contra large
    have wraps : 1 ≤ ticks * 1000000000 / 2 ^ 64 := Nat.div_pos (by omega) (by decide)
    have more : ticks * 1000000000 % 2 ^ 64 + time.frequencyHz ≤ ticks * 1000000000 := by omega
    have next := Nat.div_le_div_right (c := time.frequencyHz) more
    rw [Nat.add_div_right _ positive] at next
    omega
  · intro fits
    rw [Nat.mod_eq_of_lt fits]

theorem reportsElapsed_iff {tsc : Nat} (low : 1000000 ≤ time.frequencyHz) (high : time.frequencyHz ≤ 10000000000)
    (booted : time.tscAtBoot ≤ tsc) (word : tsc < 2 ^ 64) :
    ReportsElapsed time tsc (nanouptime time tsc) ↔ (tsc - time.tscAtBoot) * 1000000000 < 2 ^ 64 := by
  unfold ReportsElapsed nanouptime
  rw [nsecToTimespec_value, sub64_of_le word booted, Nat.cast_inj, tscToNs_eq_iff low high]
  exact and_iff_left (Nat.mod_lt _ (by decide))

/-- For every frequency from 1 MHz to 10 GHz and every two readings in order, the clock is exact and monotonic if
and only if the elapsed ticks times 10^9 fit in 64 bits. -/
theorem clockMonotonic_iff (time : Timekeeping) (first second : Nat) (low : 1000000 ≤ time.frequencyHz)
    (high : time.frequencyHz ≤ 10000000000) (booted : time.tscAtBoot ≤ first) (ordered : first ≤ second)
    (word : second < 2 ^ 64) :
    Monotonic time first second ↔ (second - time.tscAtBoot) * 1000000000 < 2 ^ 64 := by
  have firstIff := reportsElapsed_iff low high booted (lt_of_le_of_lt ordered word)
  have secondIff := reportsElapsed_iff low high (booted.trans ordered) word
  constructor
  · rintro ⟨earlier, later, _, shown, _, exactly, _⟩
    rw [clockTime_monotonic] at shown
    obtain rfl := Except.ok.inj shown
    exact secondIff.mp exactly
  · intro small
    have fewer := Nat.mul_le_mul_right 1000000000 (Nat.sub_le_sub_right ordered time.tscAtBoot)
    have less := lt_of_le_of_lt fewer small
    refine ⟨_, _, clockTime_monotonic time first, clockTime_monotonic time second, firstIff.mpr less,
      secondIff.mpr small, nsecToTimespec_notEarlier ?_⟩
    have firstTicks : sub64 first time.tscAtBoot = first - time.tscAtBoot :=
      sub64_of_le (lt_of_le_of_lt ordered word) booted
    have secondTicks : sub64 second time.tscAtBoot = second - time.tscAtBoot := sub64_of_le word (booted.trans ordered)
    rw [firstTicks, secondTicks, (tscToNs_eq_iff low high).mpr less, (tscToNs_eq_iff low high).mpr small]
    exact Nat.div_le_div_right fewer

/-- A second after boot at 1 GHz the clock is exact. -/
theorem clockMonotonic_second :
    Monotonic ⟨1000000000, 5, ⟨0, 0⟩⟩ 5 1000000005 :=
  (clockMonotonic_iff ⟨1000000000, 5, ⟨0, 0⟩⟩ 5 1000000005 (by decide) (by decide) (by decide) (by decide)
    (by decide)).mpr (by decide)

/-- At 1 GHz the clock shows 18 seconds after 18446744073 ticks and 0 seconds one tick later. -/
theorem clockMonotonic_goes_back :
    clockTime ⟨1000000000, 0, ⟨0, 0⟩⟩ 1 18446744073 = .ok ⟨18, 446744073⟩ ∧
      clockTime ⟨1000000000, 0, ⟨0, 0⟩⟩ 1 18446744074 = .ok ⟨0, 0⟩ ∧
      ¬ Monotonic ⟨1000000000, 0, ⟨0, 0⟩⟩ 18446744073 18446744074 := by
  refine ⟨rfl, rfl, ?_⟩
  rintro ⟨earlier, later, before, after, _, _, order⟩
  obtain rfl : (⟨18, 446744073⟩ : Timespec) = earlier := Except.ok.inj before
  obtain rfl : (⟨0, 0⟩ : Timespec) = later := Except.ok.inj after
  exact absurd order (by simp [Timespec.NotEarlier])

/-- The time in parts of 2^-64 of a second. -/
def Bintime.parts (time : Bintime) : Int := time.sec * 2 ^ 64 + time.frac

/-- The carry of `bintimeadd` is exact. -/
theorem bintimeadd_parts {first second : Bintime} (word : first.frac < 2 ^ 64) (other : second.frac < 2 ^ 64) :
    (bintimeadd first second).parts = first.parts + second.parts ∧ (bintimeadd first second).frac < 2 ^ 64 := by
  unfold bintimeadd Bintime.parts add64
  dsimp only
  split_ifs <;> omega

/-- The borrow of `bintimesub` is exact. -/
theorem bintimesub_parts {first second : Bintime} (word : first.frac < 2 ^ 64) (other : second.frac < 2 ^ 64) :
    (bintimesub first second).parts = first.parts - second.parts ∧ (bintimesub first second).frac < 2 ^ 64 := by
  unfold bintimesub Bintime.parts sub64
  dsimp only
  split_ifs <;> omega

/-- The uptime counts each nanosecond as 18446744073 parts. -/
theorem binuptime_parts (time : Timekeeping) (tsc : Nat) :
    (binuptime time tsc).frac < 2 ^ 64 ∧
      (binuptime time tsc).parts = (tscToNs time (sub64 tsc time.tscAtBoot) / 1000000000 : Nat) * 2 ^ 64 +
        (tscToNs time (sub64 tsc time.tscAtBoot) % 1000000000 : Nat) * 18446744073 := by
  unfold binuptime Bintime.parts
  dsimp only
  omega

theorem timespecToBintime_parts (sec : Int) {nsec : Int} (low : 0 ≤ nsec) (high : nsec < 1000000000) :
    (timespecToBintime sec nsec).frac < 2 ^ 64 ∧
      (timespecToBintime sec nsec).parts = sec * 2 ^ 64 + nsec * 18446744073 := by
  unfold timespecToBintime Bintime.parts
  dsimp only
  omega

/-- The conversion back loses less than a nanosecond and 10^9 parts of 2^-32. -/
theorem bintimeToTimespec_bounds {time : Bintime} (word : time.frac < 2 ^ 64) :
    (bintimeToTimespec time).sec = time.sec ∧ (bintimeToTimespec time).nsec < 1000000000 ∧
      (bintimeToTimespec time).nsec * 2 ^ 64 ≤ time.frac * 1000000000 ∧
      time.frac * 1000000000 < (bintimeToTimespec time).nsec * 2 ^ 64 + 2 ^ 64 + 1000000000 * 2 ^ 32 := by
  unfold bintimeToTimespec
  dsimp only
  omega

/-- The clock shows a time that was set and the uptime since then, or one nanosecond less. -/
def ShowsSet (sec nsec first second : Int) (shown : Timespec) : Prop :=
  shown.nsec < 1000000000 ∧
    (shown.sec * 1000000000 + shown.nsec = sec * 1000000000 + nsec + (second - first) ∨
      shown.sec * 1000000000 + shown.nsec = sec * 1000000000 + nsec + (second - first) - 1)

/-- After a successful `settime` the clock shows the time that was set and the uptime since then, or one nanosecond
less. -/
theorem nanotime_settime (time : Timekeeping) (sec nsec : Int) (tsc later : Nat)
    (succeeds : (settime time sec nsec tsc).1 = 0) :
    ShowsSet sec nsec (tscToNs time (sub64 tsc time.tscAtBoot)) (tscToNs time (sub64 later time.tscAtBoot))
      (nanotime (settime time sec nsec tsc).2 later) := by
  have valid : timespecisvalid nsec = true := by
    by_contra wrong
    rw [Bool.not_eq_true] at wrong
    simp [settime, wrong] at succeeds
  have range : 0 ≤ nsec ∧ nsec < 1000000000 := by simpa [timespecisvalid] using valid
  have set : (settime time sec nsec tsc).2 =
      { time with boottime := bintimesub (timespecToBintime sec nsec) (binuptime time tsc) } := by
    simp [settime, valid]
  rw [set]
  obtain ⟨wordSet, partsSet⟩ := timespecToBintime_parts sec range.1 range.2
  obtain ⟨wordFirst, partsFirst⟩ := binuptime_parts time tsc
  obtain ⟨wordSecond, partsSecond⟩ := binuptime_parts time later
  obtain ⟨partsBoot, wordBoot⟩ := bintimesub_parts wordSet wordFirst
  obtain ⟨partsNow, wordNow⟩ := bintimeadd_parts wordBoot wordSecond
  obtain ⟨seconds, below, least, most⟩ := bintimeToTimespec_bounds wordNow
  change ShowsSet _ _ _ _ (bintimeToTimespec (bintimeadd _ (binuptime time later)))
  rw [partsBoot, partsSet, partsFirst, partsSecond] at partsNow
  unfold Bintime.parts at partsNow
  unfold ShowsSet
  rw [seconds]
  generalize (bintimeToTimespec _).nsec = shown at *
  generalize bintimeadd _ _ = now at *
  generalize tscToNs time (sub64 tsc time.tscAtBoot) = first at *
  generalize tscToNs time (sub64 later time.tscAtBoot) = second at *
  refine ⟨below, ?_⟩
  omega

/-- A clock that is set to 100 seconds two nanoseconds after boot. -/
theorem nanotime_settime_hundred :
    ShowsSet 100 5 2 1000000002 (nanotime (settime ⟨1000000000, 0, ⟨0, 0⟩⟩ 100 5 2).2 1000000002) :=
  nanotime_settime ⟨1000000000, 0, ⟨0, 0⟩⟩ 100 5 2 1000000002 rfl

end Uesi.Clock
