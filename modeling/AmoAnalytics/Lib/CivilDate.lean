import Mathlib

/-!
# Calendar arithmetic in milliseconds

A time value is a number of milliseconds since 1970-01-01T00:00:00Z. The proleptic Gregorian
calendar is computed from the day number; `utc` carries a month outside `1…12` into the year and a
day outside the month into its neighbours, as `Date.UTC` does.
-/

namespace AmoAnalytics.CivilDate

def day : ℤ := 86_400_000
def hour : ℤ := 3_600_000

/-- Days from 1970-01-01 to the given civil date. -/
def daysFromCivil (year month dayOfMonth : ℤ) : ℤ :=
  let y := if month ≤ 2 then year - 1 else year
  let era := y / 400
  let yearOfEra := y - era * 400
  let dayOfYear := (153 * (if month > 2 then month - 3 else month + 9) + 2) / 5 + dayOfMonth - 1
  let dayOfEra := yearOfEra * 365 + yearOfEra / 4 - yearOfEra / 100 + dayOfYear
  era * 146_097 + dayOfEra - 719_468

/-- The civil date `(year, month, day)` of a day number. -/
def civilFromDays (days : ℤ) : ℤ × ℤ × ℤ :=
  let z := days + 719_468
  let era := z / 146_097
  let dayOfEra := z - era * 146_097
  let yearOfEra := (dayOfEra - dayOfEra / 1_460 + dayOfEra / 36_524 - dayOfEra / 146_096) / 365
  let dayOfYear := dayOfEra - (365 * yearOfEra + yearOfEra / 4 - yearOfEra / 100)
  let mp := (5 * dayOfYear + 2) / 153
  let month := if mp < 10 then mp + 3 else mp - 9
  let year := yearOfEra + era * 400
  (if month ≤ 2 then year + 1 else year, month, dayOfYear - (153 * mp + 2) / 5 + 1)

/-- `Date.UTC(year, month, day) + timeOfDay`, with the month counted from zero; a year `0…99` means
the twentieth century. -/
def utc (year month dayOfMonth timeOfDay : ℤ) : ℤ :=
  let y := if 0 ≤ year ∧ year ≤ 99 then 1_900 + year else year
  (daysFromCivil (y + month / 12) (month % 12 + 1) 1 + dayOfMonth - 1) * day + timeOfDay

def utcYear (ms : ℤ) : ℤ := (civilFromDays (ms / day)).1
/-- `getUTCMonth`, counted from zero. -/
def utcMonth (ms : ℤ) : ℤ := (civilFromDays (ms / day)).2.1 - 1
def utcDate (ms : ℤ) : ℤ := (civilFromDays (ms / day)).2.2
def timeOfDay (ms : ℤ) : ℤ := ms % day
/-- `getUTCDay`: Sunday is zero; 1970-01-01 was a Thursday. -/
def utcDay (ms : ℤ) : ℤ := (ms / day + 4) % 7

/-- Decimal digits padded with zeros on the left. -/
def padded (width : ℕ) (n : ℤ) : String :=
  let digits := toString n.natAbs
  String.ofList (List.replicate (width - digits.length) '0') ++ digits

/-- `toISOString`. -/
def isoString (ms : ℤ) : String :=
  let year := utcYear ms
  let time := timeOfDay ms
  let yearText :=
    if 0 ≤ year ∧ year ≤ 9999 then padded 4 year
    else (if year < 0 then "-" else "+") ++ padded 6 year
  yearText ++ "-" ++ padded 2 (utcMonth ms + 1) ++ "-" ++ padded 2 (utcDate ms) ++ "T" ++
    padded 2 (time / hour) ++ ":" ++ padded 2 (time / 60_000 % 60) ++ ":" ++
    padded 2 (time / 1_000 % 60) ++ "." ++ padded 3 (time % 1_000) ++ "Z"

/-- Saturday and Sunday are not business days. -/
def isBusinessDay (ms : ℤ) : Bool := utcDay ms ≠ 0 ∧ utcDay ms ≠ 6

end AmoAnalytics.CivilDate
