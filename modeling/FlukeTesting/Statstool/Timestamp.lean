import FlukeTesting.Lib.Scanf
import FlukeTesting.Statstool.Buffer

/-!
# Reading a time stamp

`parse_timestamp` scans the front of a line into a `struct tm` and converts it with `mktime`.
The fields that a malformed line does not set keep what the stack held before, which is an
input here. The function never sets `tm_isdst`: the time zone is taken to be a fixed offset from
UTC, and whatever `tm_isdst` holds is assumed not to make `mktime` shift the hour.
-/

namespace FlukeTesting.Statstool

open Scanf

/-- The fields of `struct tm` that `parse_timestamp` uses, and its local `seconds`. -/
structure Tm where
  year : ℤ
  mon : ℤ
  mday : ℤ
  hour : ℤ
  min : ℤ
  seconds : ℚ

/-- Days from the first of January 1970 to the first of January of a year. -/
def daysBeforeYear (year : ℤ) : ℤ :=
  365 * (year - 1970) + ((year - 1) / 4 - (year - 1) / 100 + (year - 1) / 400) -
    (1969 / 4 - 1969 / 100 + 1969 / 400)

/-- The Gregorian leap year rule. -/
def isLeapYear (year : ℤ) : Bool := year % 4 = 0 && (year % 100 != 0 || year % 400 = 0)

/-- Days of a year before a month, with January as month 0. -/
def daysBeforeMonth (year : ℤ) (mon : ℕ) : ℤ :=
  [0, 31, 59, 90, 120, 151, 181, 212, 243, 273, 304, 334].getD mon 0 +
    if isLeapYear year && 2 ≤ mon then 1 else 0

/-- `mktime`: `tm_year` counts from 1900 and `tm_mon` from 0. Fields outside their ranges
carry over into the larger ones. -/
def mktime (utcOffset : ℤ) (tm : Tm) (sec : ℤ) : ℤ :=
  let year := tm.year + 1900 + tm.mon / 12
  let days := daysBeforeYear year + daysBeforeMonth year (tm.mon % 12).toNat + (tm.mday - 1)
  ((days * 24 + tm.hour) * 60 + tm.min) * 60 + sec - utcOffset

/-- The format `"%d-%d-%d%*c%d:%d:%lf"` with its destinations. -/
def timestampFormat : List (Directive Tm) :=
  [.int fun v tm => { tm with year := v }, .literal '-',
    .int fun v tm => { tm with mon := v }, .literal '-',
    .int fun v tm => { tm with mday := v }, .skipChar,
    .int fun v tm => { tm with hour := v }, .literal ':',
    .int fun v tm => { tm with min := v }, .literal ':',
    .double fun v tm => { tm with seconds := v }]

/-- The conversion `(int)seconds` drops the fraction. -/
def truncate (q : ℚ) : ℤ := if 0 ≤ q then q.floor else q.ceil

/-- `parse_timestamp`, with what its locals held on entry. -/
def parseTimestamp (utcOffset : ℤ) (locals : Tm) (buffer : Text) : ℚ :=
  let tm := sscanf timestampFormat buffer locals
  let sec := truncate tm.seconds
  let unsigned : ℤ := mktime utcOffset tm sec % 2 ^ 32
  tm.seconds - sec + unsigned

end FlukeTesting.Statstool
