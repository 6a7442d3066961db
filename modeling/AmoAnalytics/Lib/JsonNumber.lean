import AmoAnalytics.Lib.JsText

/-!
# Numbers as JSON texts

A finite number is the shortest decimal that reads back as it, which is what `Number.prototype.toString` writes
down; a negative zero is the zero, as both are written `0`. `JsonNumber.text` writes a number, `JsonNumber.read`
reads the number token a text begins with.
-/

namespace AmoAnalytics

open JsText

/-! ## Decimals in normal form -/

/-- `significand * 10 ^ exponent` with its sign, no factor ten left in the significand. -/
structure JsonNumber where
  negative : Bool
  significand : ℕ
  exponent : ℤ
  normal : significand % 10 ≠ 0 ∨ negative = false ∧ significand = 0 ∧ exponent = 0

namespace JsonNumber

theorem ext_parts {a b : JsonNumber} (hn : a.negative = b.negative) (hs : a.significand = b.significand)
    (he : a.exponent = b.exponent) : a = b := by
  cases a
  cases b
  simp_all

def zero : JsonNumber := ⟨false, 0, 0, .inr ⟨rfl, rfl, rfl⟩⟩

/-- The factors ten of a significand, moved to its exponent. -/
def stripZeros : ℕ → ℕ → ℤ → ℕ × ℤ
  | 0, s, e => (s, e)
  | fuel + 1, s, e => if s % 10 = 0 then stripZeros fuel (s / 10) (e + 1) else (s, e)

theorem stripZeros_normal (fuel s : ℕ) (e : ℤ) (hfuel : s ≤ fuel) (hs : s ≠ 0) :
    (stripZeros fuel s e).1 % 10 ≠ 0 := by
  induction fuel generalizing s e with
  | zero => omega
  | succ fuel ih =>
    rw [stripZeros]
    split
    · next hten => exact ih (s / 10) (e + 1) (by omega) (by omega)
    · next hten => exact hten

theorem stripZeros_pow (j fuel : ℕ) {s : ℕ} (e : ℤ) (hs : s % 10 ≠ 0) (hfuel : j ≤ fuel) :
    stripZeros fuel (s * 10 ^ j) (e - j) = (s, e) := by
  induction j generalizing fuel e with
  | zero =>
    cases fuel with
    | zero => simp [stripZeros]
    | succ fuel => simp [stripZeros, hs]
  | succ j ih =>
    obtain ⟨fuel, rfl⟩ : ∃ n, fuel = n + 1 := ⟨fuel - 1, by omega⟩
    have hpow : s * 10 ^ (j + 1) = s * 10 ^ j * 10 := by rw [pow_succ, mul_assoc]
    rw [stripZeros, if_pos (by rw [hpow, Nat.mul_mod_left]), hpow, Nat.mul_div_cancel _ (by decide)]
    have hexp : e - ((j + 1 : ℕ) : ℤ) + 1 = e - j := by push_cast; ring
    rw [hexp]
    exact ih fuel e (by omega)

/-- The number a decimal denotes. -/
def ofDecimal (negative : Bool) (s : ℕ) (e : ℤ) : JsonNumber :=
  if hs : s = 0 then zero
  else ⟨negative, (stripZeros s s e).1, (stripZeros s s e).2, .inl (stripZeros_normal s s e le_rfl hs)⟩

/-- Zeros at the end of the digits change nothing. -/
theorem ofDecimal_pow (n : JsonNumber) (j : ℕ) :
    ofDecimal n.negative (n.significand * 10 ^ j) (n.exponent - j) = n := by
  rcases n.normal with hten | ⟨hn, hs, he⟩
  · have hs : n.significand ≠ 0 := fun h => hten (by rw [h])
    have hne : n.significand * 10 ^ j ≠ 0 := Nat.mul_ne_zero hs (pow_ne_zero _ (by decide))
    have hfuel : j ≤ n.significand * 10 ^ j :=
      (Nat.lt_pow_self (by decide)).le.trans (Nat.le_mul_of_pos_left _ (Nat.pos_of_ne_zero hs))
    have hstrip := stripZeros_pow j _ n.exponent hten hfuel
    rw [ofDecimal, dif_neg hne]
    exact ext_parts rfl (congrArg Prod.fst hstrip) (congrArg Prod.snd hstrip)
  · rw [ofDecimal, dif_pos (by rw [hs, Nat.zero_mul])]
    exact ext_parts hn.symm hs.symm he.symm

/-! ## Digits -/

/-- The digits of a number, without leading zeros. -/
def digits (n : ℕ) : JsString := (Nat.toDigits 10 n).map fun c => c.toNat.toUInt16

theorem digits_ne_nil (n : ℕ) : digits n ≠ [] := by
  rw [digits, Ne, List.map_eq_nil_iff]
  exact Nat.toDigits_ne_nil

theorem mem_digits {n : ℕ} {c : UInt16} (h : c ∈ digits n) : isDigit c = true := by
  obtain ⟨d, hd, rfl⟩ := List.mem_map.1 h
  have hdigit : d.isDigit = true := Nat.isDigit_of_mem_toDigits (by decide) le_rfl hd
  simp only [Char.isDigit, Bool.and_eq_true, decide_eq_true_eq] at hdigit
  obtain ⟨hlo, hhi⟩ := hdigit
  have hlo' : 48 ≤ d.toNat := hlo
  have hhi' : d.toNat ≤ 57 := hhi
  have hsmall : d.toNat.toUInt16.toNat = d.toNat := by
    rw [Nat.toUInt16_eq, UInt16.toNat_ofNat']
    omega
  simp only [isDigit, between, Bool.and_eq_true, decide_eq_true_eq, hsmall]
  exact ⟨hlo', hhi'⟩

theorem number_digits (n : ℕ) : number (digits n) = n := by
  have hfold : ∀ (cs : List Char) (init : ℕ), (∀ c ∈ cs, c.toNat < 65536) →
      (cs.map fun c => c.toNat.toUInt16).foldl (fun n c => 10 * n + (c.toNat - 48)) init =
        Nat.ofDigitChars 10 cs init := by
    intro cs
    induction cs with
    | nil => intro init _; simp
    | cons c cs ih =>
      intro init hcs
      have hsmall : c.toNat.toUInt16.toNat = c.toNat := by
        rw [Nat.toUInt16_eq, UInt16.toNat_ofNat']
        exact Nat.mod_eq_of_lt (hcs c List.mem_cons_self)
      have htail := ih (10 * init + (c.toNat - 48)) fun d hd => hcs d (List.mem_cons_of_mem _ hd)
      rw [List.map_cons, List.foldl_cons, hsmall, Nat.ofDigitChars_cons, htail]
      rfl
  rw [number, digits, hfold]
  · exact Nat.ofDigitChars_ten_toDigits
  · intro c hc
    have hdigit : c.isDigit = true := Nat.isDigit_of_mem_toDigits (by decide) le_rfl hc
    simp only [Char.isDigit, Bool.and_eq_true, decide_eq_true_eq] at hdigit
    have hhi : c.toNat ≤ 57 := hdigit.2
    omega

/-- Only the zero itself begins with the digit 0. -/
theorem head_digits {n : ℕ} (hn : n ≠ 0) : (digits n).head? ≠ some 48 := by
  induction n using Nat.strong_induction_on with
  | _ n ih =>
    by_cases hlt : n < 10
    · rw [digits, Nat.toDigits_of_lt_base hlt]
      interval_cases n <;> first | exact absurd rfl hn | decide
    · rw [digits, Nat.toDigits_of_base_le (by decide) (by omega), List.map_append, List.head?_append]
      have hhead := ih (n / 10) (by omega) (by omega)
      rw [digits] at hhead
      have hne : (Nat.toDigits 10 (n / 10)).map (fun c => c.toNat.toUInt16) ≠ [] := digits_ne_nil (n / 10)
      rw [List.head?_eq_some_head hne] at hhead ⊢
      exact hhead

/-! ## Writing -/

/-- `Number::toString` of a number that is not negative. -/
def magnitude (s : ℕ) (e : ℤ) : JsString :=
  let ds := digits s
  let k : ℤ := ds.length
  let n := e + k
  if k ≤ n ∧ n ≤ 21 then ds ++ List.replicate e.toNat 48
  else if 0 < n ∧ n ≤ 21 then ds.take n.toNat ++ js "." ++ ds.drop n.toNat
  else if -6 < n ∧ n ≤ 0 then js "0." ++ List.replicate (-n).toNat 48 ++ ds
  else
    ds.take 1 ++ (if ds.length = 1 then [] else js "." ++ ds.drop 1) ++ js "e" ++
      js (if n - 1 < 0 then "-" else "+") ++ digits (n - 1).natAbs

def text (n : JsonNumber) : JsString :=
  (if n.negative then js "-" else []) ++ magnitude n.significand n.exponent

/-! ## Reading -/

/-- The digits a text begins with, at least one, and the rest. -/
def readDigits (s : JsString) : Option (JsString × JsString) :=
  if s.takeWhile isDigit = [] then none else some (s.takeWhile isDigit, s.dropWhile isDigit)

/-- A sign and the rest. -/
def readSign (s : JsString) : Bool × JsString :=
  if s.head? = some 45 then (true, s.drop 1) else if s.head? = some 43 then (false, s.drop 1) else (false, s)

/-- The digits after a point. -/
def readFraction (s : JsString) : Option (JsString × JsString) :=
  if s.head? = some 46 then readDigits (s.drop 1) else some ([], s)

def readExponent (s : JsString) : Option (ℤ × JsString) :=
  if s.head? = some 101 ∨ s.head? = some 69 then
    let (minus, rest) := readSign (s.drop 1)
    (readDigits rest).map fun (ds, rest) => (if minus then -(number ds : ℤ) else number ds, rest)
  else some (0, s)

/-- The number token a text begins with. -/
def read (s : JsString) : Option (JsonNumber × JsString) := do
  let negative := s.head? = some 45
  let (whole, s) ← readDigits (if negative then s.drop 1 else s)
  if whole.head? = some 48 ∧ 1 < whole.length then none
  else do
    let (fraction, s) ← readFraction s
    let (exponent, s) ← readExponent s
    some (ofDecimal negative (number (whole ++ fraction)) (exponent - fraction.length), s)

/-! ## What is written reads back -/

/-- The text after a number token: nothing that would belong to it. -/
def Ends (rest : JsString) : Prop := ∀ c, rest.head? = some c → isDigit c = false ∧ c ≠ 46 ∧ c ≠ 101 ∧ c ≠ 69

theorem readDigits_append {ds rest : JsString} (hne : ds ≠ []) (hds : ∀ c ∈ ds, isDigit c = true)
    (hrest : ∀ c, rest.head? = some c → isDigit c = false) : readDigits (ds ++ rest) = some (ds, rest) := by
  have htail : rest.takeWhile isDigit = [] ∧ rest.dropWhile isDigit = rest := by
    cases rest with
    | nil => exact ⟨rfl, rfl⟩
    | cons c rest => simp [hrest c rfl]
  have htake : (ds ++ rest).takeWhile isDigit = ds := by
    rw [List.takeWhile_append_of_pos hds, htail.1, List.append_nil]
  have hdrop : (ds ++ rest).dropWhile isDigit = rest := by rw [List.dropWhile_append_of_pos hds, htail.2]
  rw [readDigits, htake, if_neg hne, hdrop]

/-- The point and the digits after it, if there are any. -/
def fractionText (fraction : JsString) : JsString := if fraction = [] then [] else js "." ++ fraction

theorem readFraction_append {fraction rest : JsString} (hds : ∀ c ∈ fraction, isDigit c = true)
    (hrest : ∀ c, rest.head? = some c → isDigit c = false ∧ c ≠ 46) :
    readFraction (fractionText fraction ++ rest) = some (fraction, rest) := by
  by_cases hne : fraction = []
  · have hpoint : rest.head? ≠ some 46 := fun h => (hrest 46 h).2 rfl
    rw [hne, fractionText, if_pos rfl, List.nil_append, readFraction, if_neg hpoint]
  · have htext : fractionText fraction ++ rest = 46 :: (fraction ++ rest) := by rw [fractionText, if_neg hne]; rfl
    rw [htext, readFraction, List.head?_cons, if_pos rfl]
    exact readDigits_append hne hds fun c hc => (hrest c hc).1

/-- An exponent as it is written, with its sign. -/
def exponentText (x : ℤ) : JsString := js "e" ++ js (if x < 0 then "-" else "+") ++ digits x.natAbs

theorem readExponent_append (x : ℤ) {rest : JsString} (hrest : ∀ c, rest.head? = some c → isDigit c = false) :
    readExponent (exponentText x ++ rest) = some (x, rest) := by
  have hds := readDigits_append (digits_ne_nil x.natAbs) (fun c => mem_digits) hrest
  by_cases hneg : x < 0
  · have htext : exponentText x ++ rest = 101 :: 45 :: (digits x.natAbs ++ rest) := by
      rw [exponentText, if_pos hneg]; rfl
    rw [htext]
    simp only [readExponent, List.head?_cons, true_or, if_true, List.drop_succ_cons, List.drop_zero, readSign, hds,
      Option.map_some, number_digits]
    rw [show -(x.natAbs : ℤ) = x by omega]
  · have htext : exponentText x ++ rest = 101 :: 43 :: (digits x.natAbs ++ rest) := by
      rw [exponentText, if_neg hneg]; rfl
    have hplus : ¬(some (43 : UInt16) = some 45) := by decide
    simp only [htext, readExponent, List.head?_cons, true_or, if_true, List.drop_succ_cons, List.drop_zero, readSign,
      if_neg hplus, hds, Option.map_some, number_digits, Bool.false_eq_true, if_false]
    rw [show (x.natAbs : ℤ) = x by omega]

theorem readExponent_none {rest : JsString} (hrest : Ends rest) : readExponent rest = some (0, rest) := by
  rw [readExponent, if_neg]
  rintro (h | h)
  · exact (hrest _ h).2.2.1 rfl
  · exact (hrest _ h).2.2.2 rfl

/-- The parts of a number token, as they are written. -/
structure Token (negative : Bool) (whole fraction : JsString) (exponent : ℤ) (expText : JsString) : Prop where
  ne_nil : whole ≠ []
  digits : ∀ c ∈ whole ++ fraction, isDigit c = true
  leading : whole.head? = some 48 → whole.length = 1
  exp : expText = [] ∧ exponent = 0 ∨ expText = exponentText exponent

theorem Token.read {negative : Bool} {whole fraction : JsString} {exponent : ℤ} {expText : JsString}
    (h : Token negative whole fraction exponent expText) {rest : JsString} (hrest : Ends rest) :
    JsonNumber.read ((if negative then js "-" else []) ++ (whole ++ (fractionText fraction ++ (expText ++ rest)))) =
      some (ofDecimal negative (number (whole ++ fraction)) (exponent - fraction.length), rest) := by
  have hwhole : ∀ c ∈ whole, isDigit c = true := fun c hc => h.digits c (List.mem_append_left _ hc)
  have hfraction : ∀ c ∈ fraction, isDigit c = true := fun c hc => h.digits c (List.mem_append_right _ hc)
  -- what stands after the whole digits and after the fraction
  have hexp : ∀ c, (expText ++ rest).head? = some c → isDigit c = false ∧ c ≠ 46 := by
    intro c hc
    rcases h.exp with ⟨hnil, -⟩ | htext
    · rw [hnil, List.nil_append] at hc
      exact ⟨(hrest c hc).1, (hrest c hc).2.1⟩
    · rw [htext, exponentText] at hc
      cases hc
      decide
  have hpoint : ∀ c, (fractionText fraction ++ (expText ++ rest)).head? = some c → isDigit c = false := by
    intro c hc
    by_cases hne : fraction = []
    · rw [hne, fractionText, if_pos rfl, List.nil_append] at hc
      exact (hexp c hc).1
    · rw [fractionText, if_neg hne] at hc
      cases hc
      decide
  have hsign : (((if negative then js "-" else []) ++ (whole ++ (fractionText fraction ++ (expText ++ rest)))).head? =
      some 45) = (negative = true) := by
    cases negative with
    | true => simp [js, encode]
    | false =>
      obtain ⟨c, cs, rfl⟩ := List.exists_cons_of_ne_nil h.ne_nil
      have hc : isDigit c = true := hwhole c List.mem_cons_self
      simp only [Bool.false_eq_true, if_false, List.nil_append, List.cons_append, List.head?_cons, Option.some.injEq,
        eq_iff_iff, iff_false]
      rintro rfl
      exact absurd hc (by decide)
  have hbody : (if negative = true then
      ((if negative then js "-" else []) ++ (whole ++ (fractionText fraction ++ (expText ++ rest)))).drop 1
      else (if negative then js "-" else []) ++ (whole ++ (fractionText fraction ++ (expText ++ rest)))) =
      whole ++ (fractionText fraction ++ (expText ++ rest)) := by
    cases negative with
    | true => rfl
    | false => rfl
  have hexponent : readExponent (expText ++ rest) = some (exponent, rest) := by
    rcases h.exp with ⟨hnil, hzero⟩ | htext
    · rw [hnil, hzero]
      exact readExponent_none hrest
    · rw [htext]
      exact readExponent_append exponent fun c hc => (hrest c hc).1
  have hlead : ¬(whole.head? = some 48 ∧ 1 < whole.length) := fun ⟨hhead, hlen⟩ => by
    rw [h.leading hhead] at hlen
    exact absurd hlen (by decide)
  simp only [JsonNumber.read, hsign, hbody, readDigits_append h.ne_nil hwhole hpoint, Option.bind_eq_bind,
    Option.bind_some, if_neg hlead, readFraction_append hfraction hexp, hexponent, Bool.decide_eq_true]

theorem number_leading_zeros (n : ℕ) (s : JsString) : number (List.replicate n 48 ++ s) = number s := by
  rw [number_append, number_zeros, Nat.zero_mul, Nat.zero_add]

/-! ### The four ways to write the digits -/

/-- A text without its sign is a token for the decimal. -/
def Writes (s : ℕ) (e : ℤ) (written : JsString) : Prop :=
  ∀ negative, ∃ whole fraction exponent expText, Token negative whole fraction exponent expText ∧
    written = whole ++ (fractionText fraction ++ expText) ∧
    ∃ j : ℕ, number (whole ++ fraction) = s * 10 ^ j ∧ exponent - fraction.length = e - j

theorem isDigit_zeros {n : ℕ} {c : UInt16} (h : c ∈ List.replicate n 48) : isDigit c = true := by
  rw [List.eq_of_mem_replicate h]
  decide

/-- The first digits of a number that is not zero. -/
theorem take_digits {s m : ℕ} (hs : s ≠ 0) (hm : 0 < m) : ∃ c cs, (digits s).take m = c :: cs ∧ c ≠ 48 := by
  obtain ⟨c, cs, hcs⟩ := List.exists_cons_of_ne_nil (digits_ne_nil s)
  obtain ⟨m, rfl⟩ : ∃ k, m = k + 1 := ⟨m - 1, by omega⟩
  refine ⟨c, cs.take m, by rw [hcs, List.take_succ_cons], fun hc => head_digits hs ?_⟩
  rw [hcs, List.head?_cons, hc]

/-- The digits with a point inside or an exponent after them. -/
theorem writes_split {s : ℕ} (m : ℕ) {e : ℤ} (x : ℤ) (expText : JsString) (hs : s ≠ 0) (hm : 0 < m)
    (hexp : expText = [] ∧ x = 0 ∨ expText = exponentText x) (he : x - ((digits s).length - m : ℕ) = e) :
    Writes s e ((digits s).take m ++ (fractionText ((digits s).drop m) ++ expText)) := by
  intro negative
  obtain ⟨c, cs, htake, hc⟩ := take_digits hs hm
  refine ⟨(digits s).take m, (digits s).drop m, x, expText,
    ⟨by rw [htake]; simp, ?_, fun hhead => ?_, hexp⟩, rfl, 0, ?_, ?_⟩
  · rw [List.take_append_drop]
    exact fun c => mem_digits
  · rw [htake, List.head?_cons, Option.some.injEq] at hhead
    exact absurd hhead hc
  · rw [List.take_append_drop, number_digits, pow_zero, mul_one]
  · rw [List.length_drop, he, Nat.cast_zero, sub_zero]

theorem writes_plain {s : ℕ} {e : ℤ} (he : 0 ≤ e) (hzero : s = 0 → e = 0) :
    Writes s e (digits s ++ List.replicate e.toNat 48) := by
  intro negative
  refine ⟨digits s ++ List.replicate e.toNat 48, [], 0, [], ⟨?_, ?_, fun hhead => ?_, .inl ⟨rfl, rfl⟩⟩, ?_,
    e.toNat, ?_, ?_⟩
  · simp [digits_ne_nil]
  · intro c hc
    rw [List.append_nil] at hc
    exact (List.mem_append.1 hc).elim mem_digits isDigit_zeros
  · by_cases hs : s = 0
    · rw [hzero hs, hs]
      rfl
    · rw [List.head?_append_of_ne_nil _ (digits_ne_nil s)] at hhead
      exact absurd hhead (head_digits hs)
  · simp [fractionText]
  · rw [List.append_nil, number_append, number_digits, number_zeros, Nat.add_zero, List.length_replicate]
  · simp only [List.length_nil, Nat.cast_zero]
    omega

theorem writes_small (s n : ℕ) :
    Writes s (-(n + (digits s).length : ℕ)) (js "0." ++ List.replicate n 48 ++ digits s) := by
  intro negative
  have hzero : js "0" = List.replicate 1 48 := rfl
  refine ⟨js "0", List.replicate n 48 ++ digits s, 0, [], ⟨by decide, ?_, fun _ => rfl, .inl ⟨rfl, rfl⟩⟩, ?_,
    0, ?_, ?_⟩
  · intro c hc
    rw [hzero] at hc
    rcases List.mem_append.1 hc with hc | hc
    · exact isDigit_zeros hc
    · exact (List.mem_append.1 hc).elim isDigit_zeros mem_digits
  · rw [fractionText, if_neg (by simp [digits_ne_nil]), List.append_nil, List.append_assoc]
    rfl
  · rw [hzero, number_leading_zeros, number_leading_zeros, number_digits, pow_zero, mul_one]
  · rw [List.length_append, List.length_replicate, Nat.cast_zero, sub_zero, zero_sub]

theorem magnitude_writes {s : ℕ} {e : ℤ} (hzero : s = 0 → e = 0) : Writes s e (magnitude s e) := by
  have hlen : 0 < (digits s).length := List.length_pos_iff.2 (digits_ne_nil s)
  rw [magnitude]
  split
  · next hplain => exact writes_plain (by omega) hzero
  · next hplain =>
    have hs : s ≠ 0 := by
      rintro rfl
      exact hplain (by rw [hzero rfl]; decide)
    split
    · next hpoint =>
      have hdrop : (digits s).drop (e + (digits s).length).toNat ≠ [] := by
        rw [Ne, List.drop_eq_nil_iff]
        omega
      have hwrites : Writes s e _ := writes_split (e + (digits s).length).toNat 0 [] hs (by omega) (.inl ⟨rfl, rfl⟩)
        (by omega)
      rwa [fractionText, if_neg hdrop, List.append_nil, ← List.append_assoc] at hwrites
    · next hpoint =>
      split
      · next hsmall =>
        have hwrites := writes_small s (-(e + (digits s).length)).toNat
        rwa [show (-(((-(e + (digits s).length)).toNat + (digits s).length : ℕ) : ℤ)) = e by omega] at hwrites
      · next hsmall =>
        have hfraction : (if (digits s).length = 1 then [] else js "." ++ (digits s).drop 1) =
            fractionText ((digits s).drop 1) := by
          have hiff : (digits s).drop 1 = [] ↔ (digits s).length = 1 := by
            rw [List.drop_eq_nil_iff]
            omega
          simp only [fractionText, hiff]
        have hwrites : Writes s e _ :=
          writes_split 1 (e + (digits s).length - 1) _ hs (by decide) (.inr rfl) (by omega)
        rw [hfraction]
        simpa only [exponentText, List.append_assoc] using hwrites

/-- A number is written as a token that denotes it. -/
theorem text_token (n : JsonNumber) :
    ∃ whole fraction exponent expText, Token n.negative whole fraction exponent expText ∧
      n.text = (if n.negative then js "-" else []) ++ (whole ++ (fractionText fraction ++ expText)) ∧
      ofDecimal n.negative (number (whole ++ fraction)) (exponent - fraction.length) = n := by
  have hzero : n.significand = 0 → n.exponent = 0 := by
    intro hs
    rcases n.normal with hten | ⟨-, -, he⟩
    · exact absurd (by rw [hs]) hten
    · exact he
  obtain ⟨whole, fraction, exponent, expText, htoken, htext, j, hnumber, hexponent⟩ :=
    magnitude_writes hzero n.negative
  exact ⟨whole, fraction, exponent, expText, htoken, by rw [text, htext], by rw [hnumber, hexponent, ofDecimal_pow]⟩

/-- What is written reads back, whatever stands after it. -/
theorem read_text (n : JsonNumber) {rest : JsString} (hrest : Ends rest) :
    read (n.text ++ rest) = some (n, rest) := by
  obtain ⟨whole, fraction, exponent, expText, htoken, htext, hvalue⟩ := text_token n
  rw [htext]
  simp only [List.append_assoc]
  rw [htoken.read hrest, hvalue]

example : [(15, -1), (12, 19), (12, 20), (5, -7), (25, -8), (0, 0)].map (fun d => (ofDecimal false d.1 d.2).text) =
    [js "1.5", js "120000000000000000000", js "1.2e+21", js "5e-7", js "2.5e-7", js "0"] := by
  decide +kernel

/-- A number begins with a digit or a minus sign. -/
theorem head_text (n : JsonNumber) : ∃ c s, n.text = c :: s ∧ (isDigit c = true ∨ c = 45) := by
  obtain ⟨whole, fraction, exponent, expText, htoken, htext, -⟩ := text_token n
  rw [htext]
  cases n.negative with
  | true => exact ⟨45, _, rfl, .inr rfl⟩
  | false =>
    obtain ⟨c, cs, rfl⟩ := List.exists_cons_of_ne_nil htoken.ne_nil
    exact ⟨c, _, rfl, .inl (htoken.digits c List.mem_cons_self)⟩

end JsonNumber

end AmoAnalytics
