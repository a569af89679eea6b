import MpegTs.Digits

/-!
# RFC 3339 timestamps

`Rfc3339.ofUnixNanos` writes an instant, given in nanoseconds since the Unix epoch, as a UTC
RFC 3339 date and time such as `2024-03-01T12:00:00.250+00:00`.

* `Rfc3339.civilOfDays` turns a day count since 1970-01-01 into a proleptic Gregorian
  date. It counts in 400-year eras of 146097 days that start on a March 1st, so that the
  leap day is the last day of its year and the month lengths repeat in a five-month
  pattern of 153 days.
* The fraction of a second takes 0, 3, 6 or 9 digits: the fewest of those that show it
  exactly.
-/

namespace MpegTs

namespace Rfc3339

/-- The proleptic Gregorian date `(year, month, day)` of a day counted from 1970-01-01. -/
def civilOfDays (days : Int) : Int × Nat × Nat :=
  let z := days + 719468
  let era := z / 146097
  let doe := (z % 146097).toNat
  let yoe := (doe - doe / 1460 + doe / 36524 - doe / 146096) / 365
  let doy := doe - (365 * yoe + yoe / 4 - yoe / 100)
  let mp := (5 * doy + 2) / 153
  let day := doy - (153 * mp + 2) / 5 + 1
  let month := if mp < 10 then mp + 3 else mp - 9
  let year := (yoe : Int) + era * 400 + (if month ≤ 2 then 1 else 0)
  (year, month, day)

/-- The fraction of a second, with the fewest of 0, 3, 6 or 9 digits that show it exactly. -/
def fraction (nanos : Nat) : String :=
  if nanos = 0 then ""
  else if nanos % 1000000 = 0 then "." ++ decimal 3 (nanos / 1000000)
  else if nanos % 1000 = 0 then "." ++ decimal 6 (nanos / 1000)
  else "." ++ decimal 9 nanos

/-- A year with at least four digits, and a sign when it is before year 0. -/
def yearText (year : Int) : String :=
  if year < 0 then "-" ++ decimal 4 year.natAbs else decimal 4 year.toNat

/-- The UTC RFC 3339 text of an instant given in nanoseconds since the Unix epoch. -/
def ofUnixNanos (nanos : Int) : String :=
  let seconds := nanos / 1000000000
  let subsecond := (nanos % 1000000000).toNat
  let days := seconds / 86400
  let daySeconds := (seconds % 86400).toNat
  let (year, month, day) := civilOfDays days
  yearText year ++ "-" ++ decimal 2 month ++ "-" ++ decimal 2 day ++ "T" ++
    decimal 2 (daySeconds / 3600) ++ ":" ++ decimal 2 (daySeconds / 60 % 60) ++ ":" ++
    decimal 2 (daySeconds % 60) ++ fraction subsecond ++ "+00:00"

end Rfc3339

end MpegTs
