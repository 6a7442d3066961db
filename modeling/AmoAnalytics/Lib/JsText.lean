import Mathlib

/-!
# JavaScript strings

A string of JavaScript is a list of UTF-16 code units; `slice`, `length` and regular expressions
without the flag `u` read these units. A digit string is read as a number, and a number with a scale
as a rational (`Decimal`).
-/

namespace AmoAnalytics

/-- A string: its UTF-16 code units. -/
abbrev JsString := List UInt16

instance : LawfulBEq JsString := inferInstanceAs (LawfulBEq (List UInt16))

namespace JsText

/-! ## Units -/

def encode (c : Char) : JsString :=
  if c.toNat < 0x10000 then [c.toNat.toUInt16]
  else [(0xD800 + (c.toNat - 0x10000) / 0x400).toUInt16, (0xDC00 + (c.toNat - 0x10000) % 0x400).toUInt16]

/-- A literal. -/
def js (s : String) : JsString := s.toList.flatMap encode

/-- A character class: some single characters. -/
def oneOf (chars : String) (c : UInt16) : Bool := (js chars).contains c

/-- A character class: a range. -/
def between (first last : Char) (c : UInt16) : Bool := first.toNat ≤ c.toNat && c.toNat ≤ last.toNat

/-- `\d`. -/
def isDigit (c : UInt16) : Bool := between '0' '9' c

/-- `[A-Za-z0-9_]`, the characters that `\w` matches and `\b` tells apart. -/
def isWord (c : UInt16) : Bool := between 'A' 'Z' c || between 'a' 'z' c || isDigit c || oneOf "_" c

/-- The characters that `trim` takes off and `\s` matches. -/
def isSpace (c : UInt16) : Bool :=
  between '\t' '\r' c || oneOf "\u0020\u00a0\u1680\u2028\u2029\u202f\u205f\u3000\ufeff" c ||
    between '\u2000' '\u200a' c

/-- A character as the flag `i` compares it: in upper case, as far as the Latin and Russian letters go. -/
def canonicalize (c : UInt16) : UInt16 :=
  if between 'a' 'z' c || between 'а' 'я' c then c - 0x20
  else if c = 0x451 then 0x401
  else if c = 0x1C80 then 0x412
  else if c = 0x1C81 then 0x414
  else if c = 0x1C82 then 0x41E
  else if c = 0x1C83 then 0x421
  else if c = 0x1C84 || c = 0x1C85 then 0x422
  else if c = 0x1C86 then 0x42A
  else c

/-- `!s.trim()`. -/
def blank (s : JsString) : Bool := s.all isSpace

/-- `s.slice(start, stop)` for offsets that are not negative. -/
def slice (s : JsString) (start stop : ℕ) : JsString := (s.take stop).drop start

/-- `s.includes(part)`. -/
def includes (s part : JsString) : Bool := s.tails.any part.isPrefixOf

theorem isInfix_slice (s : JsString) (start stop : ℕ) : slice s start stop <:+: s :=
  (List.drop_suffix _ _).isInfix.trans (List.take_prefix _ _).isInfix

theorem includes_iff {s part : JsString} : includes s part = true ↔ part <:+: s := by
  rw [includes, List.any_eq_true, List.infix_iff_prefix_suffix]
  simp only [List.mem_tails, List.isPrefixOf_iff_prefix, and_comm]

/-- A pattern of fixed length, in which `#` stands for a digit. -/
def fits (pattern : String) (s : JsString) : Bool :=
  s.length = (js pattern).length &&
    ((js pattern).zip s).all fun pc => if oneOf "#" pc.1 then isDigit pc.2 else pc.1 = pc.2

/-! ## Numbers -/

/-- `Number.isSafeInteger`, for a number that is an integer or (`none`) no integer at all. -/
def safeInteger (n : Option ℤ) : Option ℤ := n.filter fun z => z.natAbs < 2 ^ 53

/-- The number that a digit string denotes. -/
def number (s : JsString) : ℕ := s.foldl (fun n c => 10 * n + (c.toNat - 48)) 0

theorem number_append (s t : JsString) : number (s ++ t) = number s * 10 ^ t.length + number t := by
  have hloop : ∀ (t : JsString) (n : ℕ), t.foldl (fun n c => 10 * n + (c.toNat - 48)) n =
      n * 10 ^ t.length + number t := by
    intro t
    induction t with
    | nil => intro n; rw [List.length_nil, pow_zero, mul_one]; rfl
    | cons c t ih =>
      intro n
      have hnumber : number (c :: t) = t.foldl (fun n c => 10 * n + (c.toNat - 48)) (c.toNat - 48) := by
        rw [number, List.foldl_cons, Nat.mul_zero, Nat.zero_add]
      rw [List.foldl_cons, ih, hnumber, ih, List.length_cons, pow_succ]
      ring
  rw [number, List.foldl_append, hloop]
  rfl

theorem number_zeros (n : ℕ) : number (List.replicate n 48) = 0 := by
  induction n with
  | zero => rfl
  | succ n ih =>
    have hzero : number [48] = 0 := rfl
    rw [List.replicate_succ, ← List.singleton_append, number_append, ih, hzero, Nat.zero_mul]

/-- A fraction keeps its value when zeros are taken off its end. -/
theorem number_rdropWhile (s : JsString) :
    (number (s.rdropWhile (· = 48)) : ℚ) / 10 ^ (s.rdropWhile (· = 48)).length =
      (number s : ℚ) / 10 ^ s.length := by
  obtain ⟨n, hn⟩ : ∃ n, s = s.rdropWhile (· = 48) ++ List.replicate n 48 := by
    refine ⟨(s.rtakeWhile (· = 48)).length, ?_⟩
    have hzeros : s.rtakeWhile (· = 48) = List.replicate (s.rtakeWhile (· = 48)).length 48 :=
      List.eq_replicate_iff.2 ⟨rfl, fun c hc => by simpa using List.mem_rtakeWhile_imp hc⟩
    rw [← hzeros, List.rdropWhile_append_rtakeWhile]
  generalize s.rdropWhile (· = 48) = t at hn
  rw [hn, number_append, number_zeros, Nat.add_zero, List.length_append, List.length_replicate]
  push_cast
  rw [pow_add]
  field_simp

end JsText

/-! ## Decimals -/

/-- A coefficient with a number of fractional digits. -/
structure Decimal where
  coefficient : ℕ
  scale : ℕ
  deriving DecidableEq

namespace Decimal

def value (d : Decimal) : ℚ := d.coefficient / 10 ^ d.scale

/-- Two decimals brought to one scale are compared by their coefficients. -/
theorem scaled_eq_iff (a b : Decimal) {scale : ℕ} (ha : a.scale ≤ scale) (hb : b.scale ≤ scale) :
    a.coefficient * 10 ^ (scale - a.scale) = b.coefficient * 10 ^ (scale - b.scale) ↔
      a.value = b.value := by
  have hten : ∀ n : ℕ, (10 : ℚ) ^ n ≠ 0 := fun n => pow_ne_zero n (by norm_num)
  rw [value, value, div_eq_div_iff (hten _) (hten _), ← Nat.cast_inj (R := ℚ)]
  push_cast
  rw [pow_sub₀ _ (by norm_num) ha, pow_sub₀ _ (by norm_num) hb]
  constructor
  · intro h
    have hscale := hten scale
    have ha' := hten a.scale
    have hb' := hten b.scale
    field_simp at h
    linarith
  · intro h
    have ha' := hten a.scale
    have hb' := hten b.scale
    field_simp
    linarith

end Decimal

end AmoAnalytics
