import Uesi.Construction.Errno
import Uesi.Library.Word64

namespace Uesi.Clock

open Library

/-- This is `struct timespec`. -/
structure Timespec where
  sec : Int
  nsec : Nat
  deriving DecidableEq, Repr

/-- This is `struct bintime`, where `frac` counts parts of 2^-64 of a second. -/
structure Bintime where
  sec : Int
  frac : Nat
  deriving DecidableEq, Repr

/-- What `tsc_init` and `timekeeping_init` leave behind: the frequency of the counter, its value at boot and the
time of the boot. -/
structure Timekeeping where
  frequencyHz : Nat
  tscAtBoot : Nat
  boottime : Bintime

def tscToNs (time : Timekeeping) (ticks : Nat) : Nat :=
  if time.frequencyHz = 0 then 0 else ticks * 1000000000 % 2 ^ 64 / time.frequencyHz

def nsecToTimespec (ns : Nat) : Timespec := ⟨(ns / 1000000000 : Nat), ns % 1000000000⟩

/-- This is `nanouptime` with the value that `tsc_read` returns. -/
def nanouptime (time : Timekeeping) (tsc : Nat) : Timespec :=
  nsecToTimespec (tscToNs time (sub64 tsc time.tscAtBoot))

/-- This is `binuptime` with the value that `tsc_read` returns. -/
def binuptime (time : Timekeeping) (tsc : Nat) : Bintime :=
  let ns := tscToNs time (sub64 tsc time.tscAtBoot)
  ⟨(ns / 1000000000 : Nat), ns % 1000000000 * 18446744073 % 2 ^ 64⟩

def bintimeadd (first second : Bintime) : Bintime :=
  let frac := add64 first.frac second.frac
  ⟨first.sec + second.sec + if frac < first.frac then 1 else 0, frac⟩

def bintimesub (first second : Bintime) : Bintime :=
  let frac := sub64 first.frac second.frac
  ⟨first.sec - second.sec - if frac > first.frac then 1 else 0, frac⟩

def bintimeToTimespec (time : Bintime) : Timespec := ⟨time.sec, time.frac / 2 ^ 32 * 1000000000 / 2 ^ 32⟩

/-- This is `nanotime` with the value that `tsc_read` returns. -/
def nanotime (time : Timekeeping) (tsc : Nat) : Timespec :=
  bintimeToTimespec (bintimeadd time.boottime (binuptime time tsc))

def timespecisvalid (nsec : Int) : Bool := 0 ≤ nsec && nsec < 1000000000

def timespecToBintime (sec nsec : Int) : Bintime := ⟨sec, (nsec % 2 ^ 64).toNat * 18446744073 % 2 ^ 64⟩

/-- This is `settime` with the value that `tsc_read` returns. -/
def settime (time : Timekeeping) (sec nsec : Int) (tsc : Nat) : Int × Timekeeping :=
  if !timespecisvalid nsec then (-1, time)
  else (0, { time with boottime := bintimesub (timespecToBintime sec nsec) (binuptime time tsc) })

/-- The time that `sys_clock_gettime` copies out for a clock. -/
def clockTime (time : Timekeeping) (clockId : Int) (tsc : Nat) : Except Errno Timespec :=
  if clockId = 0 then .ok (nanotime time tsc)
  else if clockId = 1 ∨ clockId = 4 ∨ clockId = 7 then .ok (nanouptime time tsc)
  else .error .einval

end Uesi.Clock
