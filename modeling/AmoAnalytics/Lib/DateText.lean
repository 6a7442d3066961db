import AmoAnalytics.Lib.CivilCalendar

/-!
# Date texts

`new Date(text)` for the date-time format of the language: `YYYY-MM-DD` alone is midnight UTC, with a time it needs
`Z` or an offset here. What the runtime makes of any other text is the parameter `other`. `toISOString` writes texts
that are read back (`newDate_isoString`).
-/

namespace AmoAnalytics.DateText

open CivilDate

/-! ## Reading -/

/-- The number that the first `n` characters write, when they are digits, and the rest. -/
def digits (n : ℕ) (cs : List Char) : Option (ℕ × List Char) :=
  if n ≤ cs.length ∧ (cs.take n).all Char.isDigit then some (Nat.ofDigitChars 10 (cs.take n) 0, cs.drop n) else none

def literal (c : Char) : List Char → Option (List Char)
  | [] => none
  | d :: rest => if d = c then some rest else none

/-- `/^\d{4}-\d{2}-\d{2}$/` with its three numbers. -/
def dateOnly (cs : List Char) : Option (ℕ × ℕ × ℕ) := do
  let (year, cs) ← digits 4 cs
  let cs ← literal '-' cs
  let (month, cs) ← digits 2 cs
  let cs ← literal '-' cs
  let (dayOfMonth, cs) ← digits 2 cs
  if cs = [] then some (year, month, dayOfMonth) else none

/-- Midnight UTC of a date; a day past the end of its month is carried on. -/
def midnight (year : ℤ) (month dayOfMonth : ℕ) : Option ℤ :=
  if 1 ≤ month ∧ month ≤ 12 ∧ 1 ≤ dayOfMonth ∧ dayOfMonth ≤ 31 then
    some ((daysFromCivil year month 1 + dayOfMonth - 1) * day)
  else none

/-- A year of six digits and a sign. -/
def signedYear : List Char → Option (ℤ × List Char)
  | [] => none
  | c :: rest =>
    if c = '+' then (digits 6 rest).map fun (n, rest) => ((n : ℤ), rest)
    else if c = '-' then (digits 6 rest).bind fun (n, rest) => if n = 0 then none else some (-(n : ℤ), rest)
    else none

def yearOf (cs : List Char) : Option (ℤ × List Char) :=
  match digits 4 cs with
  | some (n, rest) => some (n, rest)
  | none => signedYear cs

/-- The milliseconds of a fraction, of which the first three digits count, and what follows it. -/
def fraction (cs : List Char) : Option (ℕ × List Char) :=
  match literal '.' cs with
  | none => some (0, cs)
  | some rest =>
    let ds := rest.takeWhile Char.isDigit
    if ds = [] then none
    else some (Nat.ofDigitChars 10 ((ds ++ ['0', '0']).take 3) 0, rest.dropWhile Char.isDigit)

/-- The milliseconds of the seconds, if they are given, and what follows them. -/
def seconds (cs : List Char) : Option (ℕ × List Char) :=
  match literal ':' cs with
  | none => some (0, cs)
  | some rest => do
    let (whole, rest) ← digits 2 rest
    let (part, rest) ← fraction rest
    if whole ≤ 59 then some (whole * 1_000 + part, rest) else none

/-- `hh:mm[:ss[.sss]]`, at most `24:00`. -/
def clock (cs : List Char) : Option (ℤ × List Char) := do
  let (hours, cs) ← digits 2 cs
  let cs ← literal ':' cs
  let (minutes, cs) ← digits 2 cs
  let (part, cs) ← seconds cs
  let time : ℤ := hours * hour + minutes * 60_000 + part
  if minutes ≤ 59 ∧ time ≤ day then some (time, cs) else none

/-- `Z` or `±hh:mm` to the end of the text. -/
def zone : List Char → Option ℤ
  | [] => none
  | c :: rest =>
    if c = 'Z' then if rest = [] then some 0 else none
    else do
      let sign : ℤ ← if c = '+' then some 1 else if c = '-' then some (-1) else none
      let (hours, rest) ← digits 2 rest
      let rest ← literal ':' rest
      let (minutes, rest) ← digits 2 rest
      if rest = [] ∧ hours ≤ 23 ∧ minutes ≤ 59 then some (sign * (hours * hour + minutes * 60_000)) else none

/-- A date with a time and an offset. -/
def instant (cs : List Char) : Option ℤ := do
  let (year, cs) ← yearOf cs
  let cs ← literal '-' cs
  let (month, cs) ← digits 2 cs
  let cs ← literal '-' cs
  let (dayOfMonth, cs) ← digits 2 cs
  let date ← midnight year month dayOfMonth
  let cs ← literal 'T' cs
  let (time, cs) ← clock cs
  let offset ← zone cs
  some (date + time - offset)

/-- The time values a date can hold. -/
def maxTime : ℤ := 8_640_000_000_000_000

/-- `TimeClip`. -/
def timeClip (ms : ℤ) : Option ℤ := if -maxTime ≤ ms ∧ ms ≤ maxTime then some ms else none

/-- `new Date(text)`; `none` is the invalid date. -/
def newDate (other : String → Option ℤ) (text : String) : Option ℤ :=
  match dateOnly text.toList with
  | some (year, month, dayOfMonth) => (midnight year month dayOfMonth).bind timeClip
  | none =>
    match instant text.toList with
    | some ms => timeClip ms
    | none => (other text).bind timeClip

/-! ## Time values -/

theorem timeClip_eq_some {ms t : ℤ} : timeClip ms = some t ↔ ms = t ∧ -maxTime ≤ t ∧ t ≤ maxTime := by
  unfold timeClip
  split_ifs with h
  · constructor
    · rintro ⟨⟩
      exact ⟨rfl, h⟩
    · rintro ⟨rfl, -⟩
      rfl
  · constructor
    · rintro ⟨⟩
    · rintro ⟨rfl, hrange⟩
      exact absurd hrange h

theorem newDate_range {other : String → Option ℤ} {text : String} {t : ℤ} (h : newDate other text = some t)
    : -maxTime ≤ t ∧ t ≤ maxTime := by
  unfold newDate at h
  split at h
  · obtain ⟨ms, -, hclip⟩ := Option.bind_eq_some_iff.1 h
    exact (timeClip_eq_some.1 hclip).2
  · split at h
    · exact (timeClip_eq_some.1 h).2
    · obtain ⟨ms, -, hclip⟩ := Option.bind_eq_some_iff.1 h
      exact (timeClip_eq_some.1 hclip).2

/-! ## Digits that were written -/

theorem digits_append {n : ℕ} {ds : List Char} (hlen : ds.length = n) (hds : ∀ c ∈ ds, c.isDigit = true)
    (rest : List Char) : digits n (ds ++ rest) = some (Nat.ofDigitChars 10 ds 0, rest) := by
  have htake : (ds ++ rest).take n = ds := List.take_left' hlen
  have hdrop : (ds ++ rest).drop n = rest := by rw [← hlen, List.drop_left]
  have hall : n ≤ (ds ++ rest).length ∧ ((ds ++ rest).take n).all Char.isDigit = true := by
    refine ⟨by rw [List.length_append]; omega, ?_⟩
    rw [htake, List.all_eq_true]
    exact hds
  rw [digits, if_pos hall, htake, hdrop]

theorem toList_padded (w : ℕ) (n : ℤ) : (padded w n).toList =
    List.replicate (w - (Nat.toDigits 10 n.natAbs).length) '0' ++ Nat.toDigits 10 n.natAbs := by
  have hdigits : (toString n.natAbs).toList = Nat.toDigits 10 n.natAbs := by
    rw [Nat.toString_eq_ofList_toDigits, String.toList_ofList]
  unfold padded
  dsimp only
  rw [String.toList_append, String.toList_ofList, hdigits, ← String.length_toList, hdigits]

/-- The padded text of a number of at most `w` digits has `w` digits and writes that number. -/
theorem padded_digits {w : ℕ} {n : ℤ} (hw : 0 < w) (hn : n.natAbs < 10 ^ w) : (padded w n).toList.length = w ∧
    (∀ c ∈ (padded w n).toList, c.isDigit = true) ∧ Nat.ofDigitChars 10 (padded w n).toList 0 = n.natAbs := by
  have hle : (Nat.toDigits 10 n.natAbs).length ≤ w := (Nat.length_toDigits_le_iff (by decide) hw).2 hn
  rw [toList_padded]
  refine ⟨?_, fun c hc => ?_, ?_⟩
  · rw [List.length_append, List.length_replicate]
    omega
  · rcases List.mem_append.1 hc with hc | hc
    · rw [(List.mem_replicate.1 hc).2]
      decide
    · exact Nat.isDigit_of_mem_toDigits (by decide) le_rfl hc
  · rw [Nat.ofDigitChars_append, Nat.ofDigitChars_replicate_zero, Nat.mul_zero, Nat.ofDigitChars_ten_toDigits]

/-- It is read back. -/
theorem digits_padded {w : ℕ} {n : ℤ} (hw : 0 < w) (hn : n.natAbs < 10 ^ w) (rest : List Char) :
    digits w ((padded w n).toList ++ rest) = some (n.natAbs, rest) := by
  obtain ⟨hlen, hds, hvalue⟩ := padded_digits hw hn
  rw [digits_append hlen hds, hvalue]

/-- The form for a number that is not negative. -/
theorem digits_padded_nat {w : ℕ} {n : ℤ} (hw : 0 < w) (h₀ : 0 ≤ n) (hn : n < 10 ^ w) :
    ∃ k : ℕ, (k : ℤ) = n ∧ ∀ rest, digits w ((padded w n).toList ++ rest) = some (k, rest) := by
  obtain ⟨k, rfl⟩ := Int.eq_ofNat_of_zero_le h₀
  exact ⟨k, rfl, digits_padded hw (by exact_mod_cast hn)⟩

theorem literal_cons (c : Char) (rest : List Char) : literal c (c :: rest) = some rest := if_pos rfl

/-! ## Reading with a longer text -/

theorem digits_eq_some {n k : ℕ} {cs rest : List Char} (h : digits n cs = some (k, rest)) :
    ∃ ds, cs = ds ++ rest ∧ ds.length = n ∧ (∀ c ∈ ds, c.isDigit = true) ∧ Nat.ofDigitChars 10 ds 0 = k := by
  unfold digits at h
  split_ifs at h with hdigits
  cases h
  refine ⟨cs.take n, (List.take_append_drop n cs).symm, ?_, List.all_eq_true.1 hdigits.2, rfl⟩
  rw [List.length_take]
  omega

/-- What was read is read from a longer text as well. -/
theorem digits_append_tail {n k : ℕ} {cs rest : List Char} (h : digits n cs = some (k, rest)) (tail : List Char) :
    digits n (cs ++ tail) = some (k, rest ++ tail) := by
  obtain ⟨ds, rfl, hlen, hds, rfl⟩ := digits_eq_some h
  rw [List.append_assoc, digits_append hlen hds]

theorem literal_append {c : Char} {cs rest : List Char} (h : literal c cs = some rest) (tail : List Char) :
    literal c (cs ++ tail) = some (rest ++ tail) := by
  cases cs with
  | nil => cases h
  | cons d cs =>
    unfold literal at h
    dsimp only at h
    split_ifs at h with hd
    cases h
    exact if_pos hd

theorem digit_toNat {c : Char} (h : c.isDigit = true) : 48 ≤ c.toNat ∧ c.toNat ≤ 57 := by
  rw [Char.isDigit, Bool.and_eq_true, decide_eq_true_iff, decide_eq_true_iff] at h
  exact ⟨UInt32.le_iff_toNat_le.1 h.1, UInt32.le_iff_toNat_le.1 h.2⟩

/-- Texts of equally many digits that write the same number are the same. -/
theorem ofDigitChars_inj {ds es : List Char} (hlen : ds.length = es.length) (hds : ∀ c ∈ ds, c.isDigit = true)
    (hes : ∀ c ∈ es, c.isDigit = true) (h : Nat.ofDigitChars 10 ds 0 = Nat.ofDigitChars 10 es 0) : ds = es := by
  induction ds using List.reverseRecOn generalizing es with
  | nil => exact (List.length_eq_zero_iff.1 hlen.symm).symm
  | append_singleton ds c ih =>
    obtain ⟨es, d, rfl⟩ : ∃ es' d, es = es' ++ [d] := by
      refine ⟨es.dropLast, es.getLast ?_, (List.dropLast_append_getLast _).symm⟩
      rintro rfl
      simp at hlen
    have hc : 48 ≤ c.toNat ∧ c.toNat ≤ 57 := digit_toNat (hds c (by simp))
    have hd : 48 ≤ d.toNat ∧ d.toNat ≤ 57 := digit_toNat (hes d (by simp))
    rw [Nat.ofDigitChars_append, Nat.ofDigitChars_append, Nat.ofDigitChars_cons, Nat.ofDigitChars_cons,
      Nat.ofDigitChars_nil, Nat.ofDigitChars_nil] at h
    have hzero : '0'.toNat = 48 := rfl
    rw [hzero] at h
    have hsame : c = d := by
      have hnat : c.toNat = d.toNat := by omega
      exact Char.ext (UInt32.toNat_inj.1 hnat)
    rw [hsame, ih (by simpa using hlen) (fun x hx => hds x (by simp [hx])) (fun x hx => hes x (by simp [hx]))
      (by omega)]

theorem digits_inj {n k : ℕ} {cs cs' rest rest' : List Char} (h : digits n cs = some (k, rest))
    (h' : digits n cs' = some (k, rest')) : ∃ ds, cs = ds ++ rest ∧ cs' = ds ++ rest' := by
  obtain ⟨ds, rfl, hlen, hds, hvalue⟩ := digits_eq_some h
  obtain ⟨es, rfl, hlen', hes, hvalue'⟩ := digits_eq_some h'
  rw [ofDigitChars_inj (hlen.trans hlen'.symm) hds hes (hvalue.trans hvalue'.symm)]
  exact ⟨es, rfl, rfl⟩

/-- The parts of a date alone. -/
theorem dateOnly_eq_some {cs : List Char} {year month dayOfMonth : ℕ}
    (h : dateOnly cs = some (year, month, dayOfMonth)) : ∃ cs₁ cs₂ cs₃ cs₄, digits 4 cs = some (year, cs₁) ∧
      literal '-' cs₁ = some cs₂ ∧ digits 2 cs₂ = some (month, cs₃) ∧ literal '-' cs₃ = some cs₄ ∧
        digits 2 cs₄ = some (dayOfMonth, []) := by
  unfold dateOnly at h
  simp only [Option.bind_eq_bind, Option.bind_eq_some_iff] at h
  obtain ⟨⟨y, cs₁⟩, hyear, cs₂, hdash, ⟨m, cs₃⟩, hmonth, cs₄, hdash', ⟨d, cs₅⟩, hday, hend⟩ := h
  split_ifs at hend with hnil
  cases hend
  obtain rfl : cs₅ = [] := hnil
  exact ⟨cs₁, cs₂, cs₃, cs₄, hyear, hdash, hmonth, hdash', hday⟩

/-- A date with midnight at an offset of three hours. -/
theorem newDate_midnight (other : String → Option ℤ) {text : String} {year month dayOfMonth : ℕ}
    (h : dateOnly text.toList = some (year, month, dayOfMonth)) : newDate other (text ++ "T00:00:00+03:00") =
      match midnight year month dayOfMonth with
      | some ms => timeClip (ms - 10_800_000)
      | none => (other (text ++ "T00:00:00+03:00")).bind timeClip := by
  obtain ⟨cs₁, cs₂, cs₃, cs₄, hyear, hdash, hmonth, hdash', hday⟩ := dateOnly_eq_some h
  have htail : ("T00:00:00+03:00").toList = 'T' :: "00:00:00+03:00".toList := by decide
  have hclock : clock "00:00:00+03:00".toList = some (0, "+03:00".toList) := by decide
  have hzone : zone "+03:00".toList = some 10_800_000 := by decide
  have htext : (text ++ "T00:00:00+03:00").toList = text.toList ++ 'T' :: "00:00:00+03:00".toList := by
    rw [String.toList_append, htail]
  have hnone : dateOnly (text ++ "T00:00:00+03:00").toList = none := by
    rw [htext, dateOnly]
    simp only [digits_append_tail hyear, literal_append hdash, digits_append_tail hmonth, literal_append hdash',
      digits_append_tail hday, Option.bind_eq_bind, Option.bind_some, List.nil_append]
    exact if_neg (List.cons_ne_nil _ _)
  have hinstant : instant (text ++ "T00:00:00+03:00").toList =
      (midnight year month dayOfMonth).map fun ms => ms - 10_800_000 := by
    have hyearOf : yearOf (text.toList ++ 'T' :: "00:00:00+03:00".toList) =
        some ((year : ℤ), cs₁ ++ 'T' :: "00:00:00+03:00".toList) := by
      rw [yearOf, digits_append_tail hyear]
    rw [htext, instant, hyearOf]
    simp only [literal_append hdash, digits_append_tail hmonth, literal_append hdash', digits_append_tail hday,
      Option.bind_eq_bind, Option.bind_some, List.nil_append, literal_cons, hclock, hzone, add_zero]
    cases midnight year month dayOfMonth <;> rfl
  unfold newDate
  rw [hnone, hinstant]
  cases midnight year month dayOfMonth <;> rfl

/-! ## The parts of a written instant -/

theorem utcMonth_bounds (ms : ℤ) : 1 ≤ utcMonth ms + 1 ∧ utcMonth ms + 1 ≤ 12 := by
  have := civilFromDays_month (ms / day)
  unfold utcMonth
  omega

theorem utcDate_bounds (ms : ℤ) : 1 ≤ utcDate ms ∧ utcDate ms ≤ 31 := by
  obtain ⟨era, year, dayOfYear, mp, -, ⟨hday₀, hday₁⟩, hmp, -, hdate⟩ := civilFromDays_eq (ms / day)
  unfold utcDate
  rw [hdate]
  dsimp only
  omega

theorem utcYear_bounds {ms : ℤ} (h : -maxTime ≤ ms ∧ ms ≤ maxTime) :
    -1_000_000 < utcYear ms ∧ utcYear ms < 1_000_000 := by
  have hdays : -100_000_000 ≤ ms / day ∧ ms / day ≤ 100_000_000 := by
    unfold maxTime at h
    unfold day
    omega
  obtain ⟨era, year, dayOfYear, mp, ⟨hy₀, hy₁⟩, ⟨hday₀, hday₁⟩, hmp, heq, hdate⟩ := civilFromDays_eq (ms / day)
  have hstart : yearStart year = 365 * year + year / 4 - year / 100 := rfl
  unfold utcYear
  rw [hdate]
  dsimp only
  split_ifs <;> omega

/-- The year as `toISOString` writes it. -/
def yearText (year : ℤ) : String :=
  if 0 ≤ year ∧ year ≤ 9999 then padded 4 year else (if year < 0 then "-" else "+") ++ padded 6 year

/-- The time of day as `toISOString` writes it. -/
def clockText (ms : ℤ) : List Char :=
  'T' :: ((padded 2 (timeOfDay ms / hour)).toList ++ ':' :: ((padded 2 (timeOfDay ms / 60_000 % 60)).toList ++ ':' ::
    ((padded 2 (timeOfDay ms / 1_000 % 60)).toList ++ '.' :: ((padded 3 (timeOfDay ms % 1_000)).toList ++ ['Z']))))

/-- What follows the year. -/
def afterYear (ms : ℤ) : List Char :=
  '-' :: ((padded 2 (utcMonth ms + 1)).toList ++ '-' :: ((padded 2 (utcDate ms)).toList ++ clockText ms))

theorem toList_isoString (ms : ℤ) : (isoString ms).toList = (yearText (utcYear ms)).toList ++ afterYear ms := by
  have hdash : "-".toList = ['-'] := rfl
  have hcolon : ":".toList = [':'] := rfl
  have htime : "T".toList = ['T'] := rfl
  have hpoint : ".".toList = ['.'] := rfl
  have hzone : "Z".toList = ['Z'] := rfl
  unfold isoString yearText afterYear clockText
  simp only [String.toList_append, List.append_assoc, hdash, hcolon, htime, hpoint, hzone, List.cons_append,
    List.nil_append]

theorem digits_sign {c : Char} (hc : c.isDigit = false) (n : ℕ) (cs : List Char) : digits (n + 1)
    (c :: cs) = none := by
  rw [digits, if_neg]
  rintro ⟨-, hall⟩
  rw [List.take_succ_cons, List.all_cons, hc] at hall
  exact absurd hall (by simp)

theorem yearOf_yearText {year : ℤ} (h : -1_000_000 < year ∧ year < 1_000_000) (rest : List Char) :
    yearOf ((yearText year).toList ++ rest) = some (year, rest) := by
  unfold yearOf yearText
  split_ifs with hfour hneg
  · obtain ⟨k, hk, hread⟩ := digits_padded_nat (w := 4) (by decide) hfour.1 (by omega)
    rw [hread]
    simp only [hk]
  · have hread := digits_padded (w := 6) (n := year) (by decide) (by omega) rest
    have hsign : ("-" ++ padded 6 year).toList ++ rest = '-' :: ((padded 6 year).toList ++ rest) := by
      rw [String.toList_append]
      rfl
    have hne : year.natAbs ≠ 0 := by omega
    have hyear : -(year.natAbs : ℤ) = year := by omega
    rw [hsign, digits_sign (by decide)]
    simp only [signedYear, hread, Option.bind_some, if_neg hne, hyear]
    rfl
  · have hread := digits_padded (w := 6) (n := year) (by decide) (by omega) rest
    have hsign : ("+" ++ padded 6 year).toList ++ rest = '+' :: ((padded 6 year).toList ++ rest) := by
      rw [String.toList_append]
      rfl
    have hyear : (year.natAbs : ℤ) = year := by omega
    rw [hsign, digits_sign (by decide)]
    simp only [signedYear, hread, Option.map_some, hyear]
    rfl

/-- The text has a time, so it is not a date alone. -/
theorem dateOnly_isoString {ms : ℤ} : dateOnly (isoString ms).toList = none := by
  obtain ⟨hm₀, hm₁⟩ := utcMonth_bounds ms
  obtain ⟨hd₀, hd₁⟩ := utcDate_bounds ms
  rw [toList_isoString]
  unfold yearText
  split_ifs with hfour hneg
  · obtain ⟨y, -, hyear⟩ := digits_padded_nat (w := 4) (by decide) hfour.1 (by omega)
    obtain ⟨m, -, hmonth⟩ := digits_padded_nat (w := 2) (by decide) (by omega) (by omega : utcMonth ms + 1 < 10 ^ 2)
    obtain ⟨d, -, hdate⟩ := digits_padded_nat (w := 2) (by decide) (by omega) (by omega : utcDate ms < 10 ^ 2)
    simp only [dateOnly, hyear, afterYear, clockText, literal_cons, Option.bind_eq_bind, Option.bind_some, hmonth,
      hdate]
    exact if_neg (List.cons_ne_nil _ _)
  · rw [String.toList_append]
    show dateOnly ('-' :: _) = none
    rw [dateOnly, digits_sign (by decide)]
    rfl
  · rw [String.toList_append]
    show dateOnly ('+' :: _) = none
    rw [dateOnly, digits_sign (by decide)]
    rfl

/-- The date of a time value as `toISOString` writes it. -/
def dateText (ms : ℤ) : List Char :=
  (padded 4 (utcYear ms)).toList ++ '-' :: ((padded 2 (utcMonth ms + 1)).toList ++ '-' :: (padded 2
    (utcDate ms)).toList)

/-- The parts of the date have as many digits as they are padded to. -/
theorem dateParts_length {ms : ℤ} (h : 0 ≤ utcYear ms ∧ utcYear ms ≤ 9999) :
    (padded 4 (utcYear ms)).toList.length = 4 ∧ (padded 2 (utcMonth ms + 1)).toList.length = 2 ∧ (padded 2
      (utcDate ms)).toList.length = 2 := by
  have hmonth := utcMonth_bounds ms
  have hdate := utcDate_bounds ms
  exact ⟨(padded_digits (w := 4) (by decide) (by omega)).1, (padded_digits (w := 2) (by decide) (by omega)).1,
    (padded_digits (w := 2) (by decide) (by omega)).1⟩

theorem take_isoString {ms : ℤ} (h : 0 ≤ utcYear ms ∧ utcYear ms ≤ 9999) :
    (isoString ms).toList.take 10 = dateText ms := by
  obtain ⟨hyear, hmonth, hdate⟩ := dateParts_length h
  have hsplit : (isoString ms).toList = dateText ms ++ clockText ms := by
    rw [toList_isoString, yearText, if_pos h, dateText, afterYear, List.append_assoc, List.cons_append,
      List.append_assoc,
      List.cons_append]
  have hlength : (dateText ms).length = 10 := by
    rw [dateText, List.length_append, List.length_cons, List.length_append, List.length_cons, hyear, hmonth, hdate]
  rw [hsplit, ← hlength, List.take_left]

/-- It is read back. -/
theorem dateOnly_dateText {ms : ℤ} (h : 0 ≤ utcYear ms ∧ utcYear ms ≤ 9999) : ∃ y m d : ℕ, (y : ℤ) = utcYear ms ∧
    (m : ℤ) = utcMonth ms + 1 ∧ (d : ℤ) = utcDate ms ∧ dateOnly (dateText ms) = some (y, m, d) := by
  obtain ⟨hm₀, hm₁⟩ := utcMonth_bounds ms
  obtain ⟨hd₀, hd₁⟩ := utcDate_bounds ms
  obtain ⟨y, hy, hyear⟩ := digits_padded_nat (w := 4) (by decide) h.1 (by omega)
  obtain ⟨m, hm, hmonth⟩ := digits_padded_nat (w := 2) (by decide) (by omega) (by omega : utcMonth ms + 1 < 10 ^ 2)
  obtain ⟨d, hd, hdate⟩ := digits_padded_nat (w := 2) (by decide) (by omega) (by omega : utcDate ms < 10 ^ 2)
  refine ⟨y, m, d, hy, hm, hd, ?_⟩
  have hlast := hdate []
  rw [List.append_nil] at hlast
  simp only [dateOnly, dateText, hyear, hmonth, hlast, literal_cons, Option.bind_eq_bind, Option.bind_some, if_true]

/-- The first ten characters of an instant are a date alone only when its year has four digits. -/
theorem dateOnly_take_isoString {ms : ℤ} {y m d : ℕ} (h : dateOnly ((isoString ms).toList.take 10) = some (y, m, d)) :
    (y : ℤ) = utcYear ms ∧ (m : ℤ) = utcMonth ms + 1 ∧ (d : ℤ) = utcDate ms ∧ 0 ≤ utcYear ms ∧ utcYear ms ≤ 9999 := by
  by_cases hyear : 0 ≤ utcYear ms ∧ utcYear ms ≤ 9999
  · obtain ⟨y', m', d', hy, hm, hd, hread⟩ := dateOnly_dateText hyear
    rw [take_isoString hyear, hread] at h
    cases h
    exact ⟨hy, hm, hd, hyear⟩
  · have hsign : ∃ c rest, c.isDigit = false ∧ (isoString ms).toList.take 10 = c :: rest := by
      rw [toList_isoString, yearText, if_neg hyear]
      split_ifs
      · exact ⟨'-', _, by decide, by rw [String.toList_append]; rfl⟩
      · exact ⟨'+', _, by decide, by rw [String.toList_append]; rfl⟩
    obtain ⟨c, rest, hc, htake⟩ := hsign
    rw [htake, dateOnly, digits_sign hc] at h
    cases h

/-! ## Round trip -/

theorem midnight_utc (ms : ℤ) {m d : ℕ} (hm : (m : ℤ) = utcMonth ms + 1) (hd : (d : ℤ) = utcDate ms) :
    midnight (utcYear ms) m d = some (ms / day * day) := by
  obtain ⟨hm₀, hm₁⟩ := utcMonth_bounds ms
  obtain ⟨hd₀, hd₁⟩ := utcDate_bounds ms
  have hmonth : (m : ℤ) = (civilFromDays (ms / day)).2.1 := by
    rw [hm]
    unfold utcMonth
    omega
  rw [midnight, if_pos (by omega), hmonth, hd, daysFromCivil_dayOfMonth]
  exact congrArg (fun days => some (days * day)) (daysFromCivil_civilFromDays (ms / day))

theorem clock_isoString (ms : ℤ) {h m s f : ℕ} {rest : List Char} {hs mins ss fs : List Char}
    (hh : (h : ℤ) = timeOfDay ms / hour) (hm : (m : ℤ) = timeOfDay ms / 60_000 % 60)
    (hsec : (s : ℤ) = timeOfDay ms / 1_000 % 60) (hf : (f : ℤ) = timeOfDay ms % 1_000)
    (hours : ∀ rest, digits 2 (hs ++ rest) = some (h, rest)) (minutes : ∀ rest, digits 2 (mins ++ rest) = some (m,
      rest))
    (whole : ∀ rest, digits 2 (ss ++ rest) = some (s, rest)) (part : fraction ('.' :: (fs ++ rest)) = some (f,
      rest)) :
    clock (hs ++ ':' :: (mins ++ ':' :: (ss ++ '.' :: (fs ++ rest)))) = some (ms % day, rest) := by
  have htime : (h : ℤ) * hour + (m : ℤ) * 60_000 + ((s * 1_000 + f : ℕ) : ℤ) = ms % day := by
    push_cast
    unfold timeOfDay day hour at *
    omega
  have hday : ms % day ≤ day := (Int.emod_lt_of_pos ms (by decide)).le
  have hsixty : s ≤ 59 := by omega
  have hseconds : seconds (':' :: (ss ++ '.' :: (fs ++ rest))) = some (s * 1_000 + f, rest) := by
    simp only [seconds, literal_cons, whole, part, Option.bind_eq_bind, Option.bind_some, if_pos hsixty]
  simp only [clock, hours, literal_cons, minutes, hseconds, Option.bind_eq_bind, Option.bind_some]
  rw [htime, if_pos ⟨by omega, hday⟩]

/-- Three digits up to the zone are the milliseconds. -/
theorem fraction_padded {n : ℤ} {k : ℕ} (h₀ : 0 ≤ n) (hn : n < 1_000) (hk : (k : ℤ) = n) :
    fraction ('.' :: ((padded 3 n).toList ++ ['Z'])) = some (k, ['Z']) := by
  obtain ⟨hlen, hds, hvalue⟩ := padded_digits (w := 3) (n := n) (by decide) (by omega)
  have htake : ((padded 3 n).toList ++ ['Z']).takeWhile Char.isDigit = (padded 3 n).toList := by
    rw [List.takeWhile_append_of_pos hds]
    exact List.append_nil _
  have hdrop : ((padded 3 n).toList ++ ['Z']).dropWhile Char.isDigit = ['Z'] := by
    rw [List.dropWhile_append_of_pos hds]
    rfl
  have hne : (padded 3 n).toList ≠ [] := fun hnil => absurd hlen (by rw [hnil]; decide)
  have hthree : ((padded 3 n).toList ++ ['0', '0']).take 3 = (padded 3 n).toList := List.take_left' hlen
  unfold fraction
  rw [literal_cons]
  simp only [htake, hdrop, if_neg hne, hthree, hvalue]
  rw [show n.natAbs = k by omega]

/-- A date within the range of time values is read back from its text. -/
theorem newDate_isoString (other : String → Option ℤ) {ms : ℤ} (h : -maxTime ≤ ms ∧ ms ≤ maxTime) :
    newDate other (isoString ms) = some ms := by
  have htime₀ : 0 ≤ timeOfDay ms := Int.emod_nonneg ms (by decide)
  have htime₁ : timeOfDay ms < 86_400_000 := Int.emod_lt_of_pos ms (by decide)
  obtain ⟨hm₀, hm₁⟩ := utcMonth_bounds ms
  obtain ⟨hd₀, hd₁⟩ := utcDate_bounds ms
  obtain ⟨m, hm, hmonth⟩ := digits_padded_nat (w := 2) (by decide) (by omega) (by omega : utcMonth ms + 1 < 10 ^ 2)
  obtain ⟨d, hd, hdate⟩ := digits_padded_nat (w := 2) (by decide) (by omega) (by omega : utcDate ms < 10 ^ 2)
  obtain ⟨hh, hhour, hours⟩ := digits_padded_nat (w := 2) (n := timeOfDay ms / hour) (by decide)
    (by unfold hour; omega) (by unfold hour; omega)
  obtain ⟨mi, hminute, minutes⟩ := digits_padded_nat (w := 2) (n := timeOfDay ms / 60_000 % 60) (by decide)
    (by omega) (by omega)
  obtain ⟨s, hsecond, whole⟩ := digits_padded_nat (w := 2) (n := timeOfDay ms / 1_000 % 60) (by decide)
    (by omega) (by omega)
  obtain ⟨f, hf⟩ : ∃ f : ℕ, (f : ℤ) = timeOfDay ms % 1_000 := ⟨(timeOfDay ms % 1_000).toNat, by omega⟩
  have part := fraction_padded (n := timeOfDay ms % 1_000) (by omega) (by omega) hf
  have hclock := clock_isoString ms hhour hminute hsecond hf hours minutes whole part
  have hzone : zone ['Z'] = some 0 := rfl
  have hinstant : instant (isoString ms).toList = some ms := by
    rw [toList_isoString, instant, yearOf_yearText (utcYear_bounds h)]
    simp only [afterYear, clockText, literal_cons, hmonth, hdate, midnight_utc ms hm hd, hclock, hzone,
      Option.bind_eq_bind,
      Option.bind_some]
    rw [sub_zero, Int.ediv_mul_add_emod]
  unfold newDate
  rw [dateOnly_isoString]
  simp only [hinstant]
  exact if_pos h

end AmoAnalytics.DateText
