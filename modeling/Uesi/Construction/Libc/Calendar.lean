import Uesi.Library.Loop
import Uesi.Library.While

namespace Uesi.Calendar

open Library

/-- The value that an `int` holds after an operation with the given result. -/
def int (value : Int) : Int := (value + 2 ^ 31) % 2 ^ 32 - 2 ^ 31

/-- The value that a `long` or a `time_t` holds after an operation with the given result. -/
def long (value : Int) : Int := (value + 2 ^ 63) % 2 ^ 64 - 2 ^ 63

def epochYear : Int := 1900

def posixBaseYear : Int := 1970

def secsPerDay : Int := 86400

def epochWday : Int := 4

/-- This is `struct tm`. -/
structure Tm where
  sec : Int
  min : Int
  hour : Int
  mday : Int
  mon : Int
  year : Int
  wday : Int
  yday : Int
  isdst : Int
  gmtoff : Int
  zone : String
  deriving DecidableEq, Repr

/-- The variables `timezone`, `daylight` and `tzname`. -/
structure Zone where
  timezone : Int
  daylight : Int
  tzname : String × String

def isleap (year : Int) : Bool := year.tmod 4 == 0 && (year.tmod 100 != 0 || year.tmod 400 == 0)

def monLengths (leap : Bool) : List Int :=
  if leap then [31, 29, 31, 30, 31, 30, 31, 31, 30, 31, 30, 31]
  else [31, 28, 31, 30, 31, 30, 31, 31, 30, 31, 30, 31]

def monYday (leap : Bool) : List Int :=
  if leap then [0, 31, 60, 91, 121, 152, 182, 213, 244, 274, 305, 335]
  else [0, 31, 59, 90, 120, 151, 181, 212, 243, 273, 304, 334]

/-- The number of days of a year. -/
def yearLength (year : Int) : Int := if isleap year then 366 else 365

def daysinmonth (month year : Int) : Int :=
  if month < 0 ∨ 11 < month then 0 else (monLengths (isleap year)).getD month.toNat 0

/-- One round of the loop of `gmtime_r` over the cycles of 400 years, on the days that are left and the year. -/
def skipCycles (state : Int × Int) : Int × Int :=
  let cycles := state.1.tdiv 146097
  let cycles := if state.1 < 0 then cycles - 1 else cycles
  (int (state.1 - int (cycles * 146097)), state.2 + cycles * 400)

/-- The loop of `gmtime_r` over the lengths of the first eleven months: the month and the days that are left. -/
def findMonth : List Int → Int → Int → Int × Int
  | [], month, days => (month, days)
  | mdays :: rest, month, days => if days < mdays then (month, days) else findMonth rest (month + 1) (days - mdays)

/-- This is `gmtime_r`, where each loop may make as many rounds as the fuel allows. -/
def gmtimeR (fuel : Nat) (t : Int) : Option Tm := do
  let days := int (t.tdiv secsPerDay)
  let rem := int (t.tmod secsPerDay)
  let (days, rem) := if rem < 0 then (int (days - 1), rem + secsPerDay) else (days, rem)
  let wday := (int (epochWday + days)).tmod 7
  let (days, year) ← whileLoop (fun state => decide (state.1 < 0 ∨ 146097 ≤ state.1)) skipCycles fuel
    (days, posixBaseYear)
  let (days, year) ← whileLoop (fun state => decide (yearLength state.2 ≤ state.1))
    (fun state => (state.1 - yearLength state.2, state.2 + 1)) fuel (days, year)
  let (month, left) := findMonth ((monLengths (isleap year)).take 11) 0 days
  return {
    sec := (rem.tmod 3600).tmod 60
    min := (rem.tmod 3600).tdiv 60
    hour := rem.tdiv 3600
    mday := left + 1
    mon := month
    year := year - epochYear
    wday := if wday < 0 then wday + 7 else wday
    yday := days
    isdst := 0
    gmtoff := 0
    zone := "UTC" }

def localtimeR (zone : Zone) (fuel : Nat) (t : Int) : Option Tm := do
  let tm ← gmtimeR fuel (long (t - zone.timezone))
  return { tm with
    isdst := zone.daylight
    gmtoff := -zone.timezone
    zone := if zone.daylight ≠ 0 then zone.tzname.2 else zone.tzname.1 }

/-- The month before, in the year before if need be. -/
def Tm.previousMonth (tm : Tm) : Tm :=
  if tm.mon - 1 < 0 then { tm with mon := 11, year := tm.year - 1 } else { tm with mon := tm.mon - 1 }

/-- The month behind, in the year behind if need be. -/
def Tm.nextMonth (tm : Tm) : Tm :=
  if 12 ≤ tm.mon + 1 then { tm with mon := 0, year := tm.year + 1 } else { tm with mon := tm.mon + 1 }

/-- The length of the month. -/
def Tm.monthLength (tm : Tm) : Int := daysinmonth tm.mon (tm.year + epochYear)

/-- The last part of `__normalize_tm` computes the day of the year and the day of the week. -/
def Tm.setDays (tm : Tm) : Tm :=
  let yday := (monYday (isleap (tm.year + epochYear))).getD tm.mon.toNat 0 + tm.mday - 1
  let days := countedLoop (fun y days => int (days + yearLength (y + epochYear))) tm.year.toNat 0
  { tm with yday := yday, wday := (int (int (days + yday) + 1)).tmod 7 }

def normalizeTm (fuel : Nat) (tm : Tm) : Option Tm := do
  let tm ← whileLoop (fun tm => decide (tm.sec < 0)) (fun tm => { tm with sec := tm.sec + 60, min := tm.min - 1 })
    fuel tm
  let tm ← whileLoop (fun tm => decide (60 ≤ tm.sec)) (fun tm => { tm with sec := tm.sec - 60, min := tm.min + 1 })
    fuel tm
  let tm ← whileLoop (fun tm => decide (tm.min < 0)) (fun tm => { tm with min := tm.min + 60, hour := tm.hour - 1 })
    fuel tm
  let tm ← whileLoop (fun tm => decide (60 ≤ tm.min)) (fun tm => { tm with min := tm.min - 60, hour := tm.hour + 1 })
    fuel tm
  let tm ← whileLoop (fun tm => decide (tm.hour < 0))
    (fun tm => { tm with hour := tm.hour + 24, mday := tm.mday - 1 }) fuel tm
  let tm ← whileLoop (fun tm => decide (24 ≤ tm.hour))
    (fun tm => { tm with hour := tm.hour - 24, mday := tm.mday + 1 }) fuel tm
  let tm ← whileLoop (fun tm => decide (tm.mon < 0)) (fun tm => { tm with mon := tm.mon + 12, year := tm.year - 1 })
    fuel tm
  let tm ← whileLoop (fun tm => decide (12 ≤ tm.mon)) (fun tm => { tm with mon := tm.mon - 12, year := tm.year + 1 })
    fuel tm
  let tm ← whileLoop (fun tm => decide (tm.mday < 1))
    (fun tm => { tm.previousMonth with mday := tm.mday + tm.previousMonth.monthLength }) fuel tm
  let tm ← whileLoop (fun tm => decide (tm.monthLength < tm.mday))
    (fun tm => { tm.nextMonth with mday := tm.mday - tm.monthLength }) fuel tm
  return tm.setDays

/-- The common part of `timegm` and `mktime` behind the normalisation: the days and the seconds since the epoch. -/
def countSeconds (tm : Tm) : Int × Int :=
  let year := tm.year + epochYear
  let days := countedLoop (fun y days => days + yearLength (posixBaseYear + y)) (year - posixBaseYear).toNat 0
  let days := days + (monYday (isleap year)).getD tm.mon.toNat 0
  let days := days + (tm.mday - 1)
  (days, days * secsPerDay + tm.hour * 3600 + tm.min * 60 + tm.sec)

/-- The fields that `timegm` and `mktime` set at their end. -/
def Tm.setCounted (tm : Tm) (days : Int) : Tm :=
  let wday := (epochWday + days).tmod 7
  { tm with
    wday := if wday < 0 then wday + 7 else wday
    yday := (monYday (isleap (tm.year + epochYear))).getD tm.mon.toNat 0 + tm.mday - 1 }

/-- This is `timegm`, with the structure that it leaves behind. -/
def timegm (fuel : Nat) (tm : Tm) : Option (Int × Tm) := do
  let tm ← normalizeTm fuel tm
  let (days, result) := countSeconds tm
  return (result, { tm.setCounted days with isdst := 0 })

/-- This is `mktime`, with the structure that it leaves behind. -/
def mktime (zone : Zone) (fuel : Nat) (tm : Tm) : Option (Int × Tm) := do
  let tm ← normalizeTm fuel tm
  let (days, result) := countSeconds tm
  return (long (result + zone.timezone), tm.setCounted days)

end Uesi.Calendar
