import Fareward.Lib.Checked

/-!
# Time frames

`src/limiter/time_frame.rs`: the decimal period keys of the usage rows. A five-minute frame counts
from the Unix epoch, a daily frame counts Lima business days (UTC-5), and `monthStartDay` finds the
first day of the local month by the civil-date algorithm.

The calendar facts the limiter rests on are in `Limiter/Equiv/TimeFrame.lean`.
-/

namespace Fareward.Limiter

/-- `TimeFrameError`. -/
inductive TimeFrameError
  | negativeUnixTime
  | outOfRange (value : Int)
  deriving DecidableEq, Repr

namespace TimeFrame

def fiveMinutePrefix : Int := 100000000

def dailyPrefix : Int := 200000000

def fiveMinuteSeconds : Int := 300

def daySeconds : Int := 86400

/-- `DAY_ZONE_OFFSET_SECONDS`. -/
def dayZoneOffsetSeconds : Int := -5 * 60 * 60

def i32Max : Int := 2 ^ 31 - 1

def i16Max : Int := 2 ^ 15 - 1

/-- `encode`. -/
def encode (base unixSeconds divisor : Int) : Except TimeFrameError Int :=
  if unixSeconds < 0 then .error .negativeUnixTime
  else
    let encoded := base + unixSeconds / divisor
    if base + 100000000 ≤ encoded ∨ i32Max < encoded then .error (.outOfRange encoded)
    else .ok encoded

/-- `local_day_seconds`. -/
def localDaySeconds (unixSeconds : Int) : Except TimeFrameError Int :=
  match checkedI64 (unixSeconds + dayZoneOffsetSeconds) with
  | some shifted => if 0 ≤ shifted then .ok shifted else .error .negativeUnixTime
  | none => .error .negativeUnixTime

/-- `five_minute`. -/
def fiveMinute (unixSeconds : Int) : Except TimeFrameError Int :=
  encode fiveMinutePrefix unixSeconds fiveMinuteSeconds

/-- `daily`. -/
def daily (unixSeconds : Int) : Except TimeFrameError Int := do
  let seconds ← localDaySeconds unixSeconds
  encode dailyPrefix seconds daySeconds

/-- `local_unix_day`. -/
def localUnixDay (unixSeconds : Int) : Except TimeFrameError Int := do
  let seconds ← localDaySeconds unixSeconds
  return seconds / daySeconds

/-- The day of the month of a Unix day, by the civil-date conversion of `month_start_day`. -/
def dayOfMonth (unixDay : Int) : Int :=
  let shiftedDay := unixDay + 719468
  let era := shiftedDay / 146097
  let dayOfEra := shiftedDay - era * 146097
  let yearOfEra := (dayOfEra - dayOfEra / 1460 + dayOfEra / 36524 - dayOfEra / 146096) / 365
  let dayOfYear := dayOfEra - (365 * yearOfEra + yearOfEra / 4 - yearOfEra / 100)
  let monthPart := (5 * dayOfYear + 2) / 153
  dayOfYear - (153 * monthPart + 2) / 5 + 1

/-- `month_start_day`. -/
def monthStartDay (unixSeconds : Int) : Except TimeFrameError Int :=
  if unixSeconds < 0 then .error .negativeUnixTime
  else do
    let unixDay ← localUnixDay unixSeconds
    let start := unixDay - dayOfMonth unixDay + 1
    if -i16Max - 1 ≤ start ∧ start ≤ i16Max then return start
    else .error (.outOfRange unixDay)

/-- `hour_five_minute_range`: the twelve frames of the UTC hour. -/
def hourFiveMinuteRange (unixSeconds : Int) : Except TimeFrameError (Int × Int) :=
  if unixSeconds < 0 then .error .negativeUnixTime
  else do
    let hourStart := unixSeconds / 3600 * 3600
    let first ← fiveMinute hourStart
    let last ← fiveMinute (hourStart + 3599)
    return (first, last)

end TimeFrame

end Fareward.Limiter
