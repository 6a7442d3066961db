import AmoAnalytics.Lib.DateText
import AmoAnalytics.Lib.JsText

/-!
# ISO instants

`Date.parse` for a date with a time and an explicit offset, `YYYY-MM-DDThh:mm[:ss[.s]]` and `Z` or
`±hh:mm`, with one to three digits of a fraction.
-/

namespace AmoAnalytics.IsoInstant

open JsText

/-- The date exists: `toISOString` gives it back. -/
def calendarDate (year month dayOfMonth : ℕ) : Bool :=
  1 ≤ month && month ≤ 12 && 1 ≤ dayOfMonth && dayOfMonth ≤ 31 &&
    CivilDate.civilFromDays (CivilDate.daysFromCivil year month dayOfMonth) =
      ((year : ℤ), (month : ℤ), (dayOfMonth : ℤ))

/-- The offset of `Z` or `±hh:mm` in milliseconds. -/
def zoneOffset (zone : JsString) : Option ℤ :=
  if zone = js "Z" then some 0
  else if fits "+##:##" zone || fits "-##:##" zone then
    let hours := number (slice zone 1 3)
    let minutes := number (slice zone 4 6)
    if hours ≤ 23 ∧ minutes ≤ 59 then
      let offset : ℤ := hours * 3_600_000 + minutes * 60_000
      some (if zone.head? = (js "+").head? then offset else -offset)
    else none
  else none

/-- The fraction of a second in milliseconds and what follows it. -/
def fraction (rest : JsString) : Option (ℤ × JsString) :=
  match rest with
  | [] => none
  | c :: tail =>
    if oneOf "." c then
      let digits := tail.takeWhile isDigit
      if 1 ≤ digits.length ∧ digits.length ≤ 3 then
        some (number digits * 10 ^ (3 - digits.length), tail.dropWhile isDigit)
      else none
    else some (0, rest)

/-- The seconds, if they are given, in milliseconds and what follows them. -/
def seconds (rest : JsString) : Option (Option ℤ × JsString) :=
  if fits ":##" (rest.take 3) then
    let whole := number (slice rest 1 3)
    if whole ≤ 59 then (fraction (rest.drop 3)).map fun (part, zone) => (some (whole * 1_000 + part), zone)
    else none
  else some (none, rest)

structure Parsed where
  ms : ℤ
  withSeconds : Bool

def parse (s : JsString) : Option Parsed :=
  if fits "####-##-##T##:##" (s.take 16) then
    let year := number (slice s 0 4)
    let month := number (slice s 5 7)
    let dayOfMonth := number (slice s 8 10)
    let hours := number (slice s 11 13)
    let minutes := number (slice s 14 16)
    if calendarDate year month dayOfMonth ∧ hours ≤ 23 ∧ minutes ≤ 59 then do
      let (part, zone) ← seconds (s.drop 16)
      let offset ← zoneOffset zone
      some {
        ms := CivilDate.daysFromCivil year month dayOfMonth * CivilDate.day + hours * 3_600_000 +
          minutes * 60_000 + part.getD 0 - offset
        withSeconds := part.isSome }
    else none
  else none

end AmoAnalytics.IsoInstant
