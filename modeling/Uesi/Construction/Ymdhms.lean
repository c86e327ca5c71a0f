import Uesi.Construction.Libc.Calendar

namespace Uesi.Clock

open Library

/-- This is `struct clock_ymdhms`. -/
structure ClockYmdhms where
  year : Nat
  mon : Nat
  day : Nat
  wday : Nat
  hour : Nat
  min : Nat
  sec : Nat
  deriving DecidableEq, Repr

def secday : Int := 86400

/-- The value that a `u_char` holds after an assignment. -/
def uchar (value : Int) : Nat := (value % 2 ^ 8).toNat

/-- The value that a `u_short` holds after an assignment. -/
def ushort (value : Int) : Nat := (value % 2 ^ 16).toNat

/-- The variable `isleap` of both conversions. -/
def isleap (year : Int) : Bool := year.tmod 4 == 0 && (year.tmod 100 != 0 || year.tmod 400 == 0)

/-- The table `daysperyear`. -/
def daysperyear (leap : Bool) : Int := if leap then 366 else 365

/-- The table `daysinmonth` of both conversions. -/
def daysinmonth (leap : Bool) : List Int :=
  if leap then [31, 29, 31, 30, 31, 30, 31, 31, 30, 31, 30, 31]
  else [31, 28, 31, 30, 31, 30, 31, 31, 30, 31, 30, 31]

/-- This is `clock_secs_to_ymdhms`, where the loop over the years may make as many rounds as the fuel allows. -/
def clockSecsToYmdhms (fuel : Nat) (secs : Int) : Option ClockYmdhms := do
  let sec := secs.tmod 60
  let secs := secs.tdiv 60
  let min := secs.tmod 60
  let secs := secs.tdiv 60
  let hour := secs.tmod 24
  let days := Calendar.int (secs.tdiv 24)
  let (left, year) ← whileLoop (fun state => decide (daysperyear (isleap state.2) ≤ state.1))
    (fun state => (state.1 - daysperyear (isleap state.2), state.2 + 1)) fuel (days, 1970)
  let (month, left) := Calendar.findMonth (daysinmonth (isleap year)) 0 left
  return {
    year := ushort year
    mon := uchar (month + 1)
    day := uchar (left + 1)
    wday := uchar ((days + 4).tmod 7)
    hour := uchar hour
    min := uchar min
    sec := uchar sec }

def clockYmdhmsToSecs (dt : ClockYmdhms) : Int :=
  let secs := countedLoop (fun y secs => secs + (if isleap (1970 + y) then 366 else 365) * secday)
    (dt.year - 1970) 0
  let secs := countedLoop (fun month secs => secs + (daysinmonth (isleap dt.year)).getD month 0 * secday)
    (dt.mon - 1) secs
  secs + ((dt.day : Int) - 1) * secday + dt.hour * 3600 + dt.min * 60 + dt.sec

/-- This is `rtc_time_t`. -/
structure RtcTime where
  second : Nat
  minute : Nat
  hour : Nat
  day : Nat
  month : Nat
  year : Nat
  weekday : Nat
  deriving DecidableEq, Repr

/-- This is `timezone_t`. -/
inductive Timezone where
  | utc
  | cet
  | est
  | pst
  | jst
  | aest
  deriving DecidableEq, Repr

/-- This is `timezone_info_t`. -/
structure TimezoneInfo where
  name : String
  offsetSeconds : Int
  dstOffsetSeconds : Int
  hasDst : Bool

def timezoneTable : Timezone → TimezoneInfo
  | .utc => ⟨"UTC", 0, 0, false⟩
  | .cet => ⟨"CET", 3600, 7200, true⟩
  | .est => ⟨"EST", -18000, -14400, true⟩
  | .pst => ⟨"PST", -28800, -25200, true⟩
  | .jst => ⟨"JST", 32400, 32400, false⟩
  | .aest => ⟨"AEST", 36000, 39600, true⟩

def isLeapYear (year : Nat) : Bool := year % 4 == 0 && year % 100 != 0 || year % 400 == 0

def daysInMonth (month year : Nat) : Nat :=
  if month < 1 ∨ 12 < month then 0
  else if month = 2 ∧ isLeapYear year then 29
  else [31, 28, 31, 30, 31, 30, 31, 31, 30, 31, 30, 31].getD (month - 1) 0

def isDstEurope (time : RtcTime) : Bool :=
  if time.month < 3 ∨ 10 < time.month then false
  else if 3 < time.month ∧ time.month < 10 then true
  else if time.month = 3 then 25 ≤ time.day else time.day < 25

def isDstUs (time : RtcTime) : Bool :=
  if time.month < 3 ∨ 11 < time.month then false
  else if 3 < time.month ∧ time.month < 11 then true
  else if time.month = 3 then 8 ≤ time.day else time.day < 7

def isDstAustralia (time : RtcTime) : Bool :=
  if time.month < 4 ∨ 9 < time.month then true
  else if 4 < time.month ∧ time.month < 10 then false
  else if time.month = 10 then 1 ≤ time.day else time.day < 7

def needsDst (tz : Timezone) (time : RtcTime) : Bool :=
  if !(timezoneTable tz).hasDst then false
  else match tz with
    | .cet => isDstEurope time
    | .est | .pst => isDstUs time
    | .aest => isDstAustralia time
    | _ => false

def getTimezoneOffset (tz : Timezone) (time : RtcTime) : Int :=
  if needsDst tz time then (timezoneTable tz).dstOffsetSeconds else (timezoneTable tz).offsetSeconds

/-- This is `rtc_get_timestamp_tz` with the time that `rtc_get_time` reads, if it succeeds. -/
def rtcGetTimestampTz (tz : Timezone) (read : Option RtcTime) : Int :=
  match read with
  | none => 0
  | some time =>
      let timestamp : Int := countedLoop
        (fun y timestamp => timestamp + if isLeapYear (1970 + y) then 366 else 365) (time.year - 1970) 0
      let timestamp := countedLoop (fun m (timestamp : Int) => timestamp + daysInMonth (m + 1) time.year)
        (time.month - 1) timestamp
      let timestamp := timestamp + ((time.day : Int) - 1)
      let timestamp := timestamp * 86400 + time.hour * 3600 + time.minute * 60 + time.second
      timestamp + getTimezoneOffset tz time

end Uesi.Clock
