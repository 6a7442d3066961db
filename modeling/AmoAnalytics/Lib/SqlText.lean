import AmoAnalytics.Lib.Json

/-!
# Texts and numbers in PostgreSQL

`LIKE`, the text of a `jsonb` value and the decimals a text is cast to, beside the `Number(text)` of JavaScript. A
pattern without an escape is found in every text that contains it (`like_of_infix`), a quoted text stands in the
text of every value it is part of, and both languages read a plain decimal as the same number
(`number_of_plainDecimal`).
-/

namespace AmoAnalytics.SqlText

open JsText Json JsonNumber

/-! ## `LIKE` -/

/-- What follows the first character, which may be a surrogate pair. -/
def dropChar : JsString → Option JsString
  | [] => none
  | [_] => some []
  | c :: d :: s => if isHigh c && isLow d then some s else some (d :: s)

/-- `text LIKE pattern`: `%` stands for any characters, `_` for one, and `\` escapes the next unit. -/
def like : JsString → JsString → Bool
  | [], text => text.isEmpty
  | 37 :: pattern, text => text.tails.any (like pattern)
  | 95 :: pattern, text => (dropChar text).any (like pattern)
  | 92 :: c :: pattern, text => text.head? = some c && like pattern text.tail
  | c :: pattern, text => c ≠ 92 && text.head? = some c && like pattern text.tail

theorem like_percent {pattern text rest : JsString} (h : rest <:+ text) (hrest : like pattern rest = true) :
    like (37 :: pattern) text = true := by
  rw [like]
  exact List.any_eq_true.2 ⟨rest, (List.mem_tails _ _).2 h, hrest⟩

/-- A pattern without an escape takes itself, followed by anything. -/
theorem like_self {part rest : JsString} (h : ∀ c ∈ part, c ≠ 92) : like (part ++ [37]) (part ++ rest) = true := by
  induction part with
  | nil => exact like_percent (List.nil_suffix) rfl
  | cons c part ih =>
    have htail := ih fun d hd => h d (List.mem_cons_of_mem _ hd)
    have hescape := h c List.mem_cons_self
    rw [List.cons_append, List.cons_append]
    by_cases hany : c = 37
    · subst hany
      exact like_percent (List.suffix_cons _ _) htail
    · by_cases hone : c = 95
      · subst hone
        rw [like]
        have hdrop : dropChar (95 :: (part ++ rest)) = some (part ++ rest) := by
          cases part ++ rest with
          | nil => rfl
          | cons d s => rfl
        rw [hdrop, Option.any_some, htail]
      · rw [like.eq_5 _ _ _ hany hone fun _ _ hc => absurd hc hescape]
        simp [hescape, htail]

/-- What contains a text without escapes is like it. -/
theorem like_of_infix {part text : JsString} (h : part <:+: text) (hplain : ∀ c ∈ part, c ≠ 92) :
    like (37 :: (part ++ [37])) text = true := by
  obtain ⟨before, rest, rfl⟩ := h
  refine like_percent ⟨before, (List.append_assoc _ _ _).symm⟩ (like_self hplain)

/-! ## The text of a `jsonb` value -/

/-- A `numeric` value has no exponent. -/
def numericText (n : JsonNumber) : JsString :=
  let ds := JsonNumber.digits n.significand
  let scale := (-n.exponent).toNat
  let padded := List.replicate (scale + 1 - ds.length) 48 ++ ds
  (if n.negative then js "-" else []) ++
    if scale = 0 then ds ++ List.replicate n.exponent.toNat 48
    else padded.take (padded.length - scale) ++ js "." ++ padded.drop (padded.length - scale)

/-- The parts with a comma and a blank between them. -/
def listed (parts : List JsString) : JsString := (parts.intersperse (js ", ")).flatten

mutual

/-- `CAST(value AS TEXT)`; the entries of an object stand in the order they are stored in. -/
def jsonbText : Json → JsString
  | .null => js "null"
  | .bool b => js (if b then "true" else "false")
  | .num n => numericText n
  | .str s => quote s
  | .arr items => js "[" ++ listed (jsonbItems items) ++ js "]"
  | .obj fields => js "\x7b" ++ listed (jsonbFields fields) ++ js "\x7d"

def jsonbItems : List Json → List JsString
  | [] => []
  | item :: items => jsonbText item :: jsonbItems items

def jsonbFields : List (JsString × Json) → List JsString
  | [] => []
  | (key, value) :: fields => (quote key ++ js ": " ++ jsonbText value) :: jsonbFields fields

end

/-- `value ->> key` and the text of an item: a text as it is, null as no value. -/
def unquoted : Json → Option JsString
  | .null => none
  | .str s => some s
  | value => some (jsonbText value)

theorem infix_listed {part : JsString} {parts : List JsString} (h : part ∈ parts) : part <:+: listed parts := by
  have hmem : part ∈ parts.intersperse (js ", ") := by
    induction parts with
    | nil => cases h
    | cons first rest ih =>
      cases rest with
      | nil => exact h
      | cons second rest =>
        rw [List.intersperse_cons_cons]
        rcases List.mem_cons.1 h with rfl | h
        · exact List.mem_cons_self
        · exact List.mem_cons_of_mem _ (List.mem_cons_of_mem _ (ih h))
  obtain ⟨before, after, hsplit⟩ := List.append_of_mem hmem
  rw [listed, hsplit, List.flatten_append, List.flatten_cons, ← List.append_assoc]
  exact ⟨_, _, rfl⟩

theorem jsonbFields_eq (fields : List (JsString × Json)) :
    jsonbFields fields = fields.map fun field => quote field.1 ++ js ": " ++ jsonbText field.2 := by
  induction fields with
  | nil => rfl
  | cons field fields ih => rw [jsonbFields, ih, List.map_cons]

/-- The text of an entry is part of that of its object. -/
theorem infix_jsonbText_obj {fields : List (JsString × Json)} {field : JsString × Json} (h : field ∈ fields) :
    jsonbText field.2 <:+: jsonbText (.obj fields) := by
  have hentry : quote field.1 ++ js ": " ++ jsonbText field.2 ∈ jsonbFields fields := by
    rw [jsonbFields_eq]
    exact List.mem_map_of_mem h
  have hvalue : jsonbText field.2 <:+: quote field.1 ++ js ": " ++ jsonbText field.2 :=
    (List.suffix_append _ _).isInfix
  rw [jsonbText]
  exact (hvalue.trans (infix_listed hentry)).trans ⟨_, _, rfl⟩

/-- A unit that a quoted text shows as it is: no control character, quote, backslash or surrogate. -/
def Shown (c : UInt16) : Prop := 32 ≤ c.toNat ∧ c ≠ 34 ∧ c ≠ 92 ∧ isHigh c = false ∧ isLow c = false

theorem Shown.not_low {c : UInt16} (h : Shown c) : isLow c = false := h.2.2.2.2

theorem Shown.quoteUnit {c : UInt16} (h : Shown c) : quoteUnit c = [c] := by
  obtain ⟨hvisible, hquote, hbackslash, hhigh, hlow⟩ := h
  have hcontrol : ∀ d : UInt16, d.toNat < 32 → c ≠ d := by
    rintro d hd rfl
    omega
  unfold Json.quoteUnit
  rw [if_neg (hcontrol 8 (by decide)), if_neg (hcontrol 9 (by decide)), if_neg (hcontrol 10 (by decide)),
    if_neg (hcontrol 12 (by decide)), if_neg (hcontrol 13 (by decide)), if_neg hquote, if_neg hbackslash, hhigh, hlow,
    if_neg (by simpa using hvisible)]

theorem quoteUnits_cons {c : UInt16} (h : Shown c) (text : JsString) : quoteUnits
    (c :: text) = c :: quoteUnits text := by
  cases text with
  | nil => exact h.quoteUnit
  | cons d text =>
    rw [quoteUnits, h.2.2.2.1, Bool.false_and, if_neg Bool.false_ne_true, h.quoteUnit]
    rfl

/-- A text is quoted piece by piece where no surrogate pair is cut. -/
theorem quoteUnits_append {text : JsString} (h : ∀ c, text.head? = some c → isLow c = false) (before : JsString) :
    quoteUnits (before ++ text) = quoteUnits before ++ quoteUnits text := by
  induction before using quoteUnits.induct with
  | case1 => rfl
  | case2 c =>
    cases text with
    | nil => exact (List.append_nil _).symm
    | cons d text =>
      have hcut : ¬ (isHigh c && isLow d) = true := by rw [h d rfl, Bool.and_false]; exact Bool.false_ne_true
      exact if_neg hcut
  | case3 c d s hpair ih =>
    rw [List.cons_append, List.cons_append, quoteUnits, if_pos hpair, ih, quoteUnits, if_pos hpair]
    rfl
  | case4 c d s hpair ih =>
    rw [List.cons_append, List.cons_append, quoteUnits, if_neg hpair, ← List.cons_append, ih, quoteUnits,
      if_neg hpair,
      List.append_assoc]

/-- The units shown as they are stand together where the text is quoted. -/
theorem infix_quote {part text : JsString} (h : part <:+: text) (hshown : ∀ c ∈ part, Shown c) :
    part <:+: quote text := by
  obtain ⟨before, after, rfl⟩ := h
  have hpart : ∀ part : JsString, (∀ c ∈ part, Shown c) → quoteUnits (part ++ after) = part ++ quoteUnits after := by
    intro part hshown
    induction part with
    | nil => rfl
    | cons c part ih =>
      rw [List.cons_append, quoteUnits_cons (hshown c List.mem_cons_self),
        ih fun d hd => hshown d (List.mem_cons_of_mem _ hd), List.cons_append]
  cases part with
  | nil => exact List.nil_infix
  | cons c part =>
    have hlow : ∀ d, ((c :: part) ++ after).head? = some d → isLow d = false := by
      rintro d ⟨⟩
      exact (hshown c List.mem_cons_self).not_low
    rw [quote, List.append_assoc before, quoteUnits_append hlow, hpart _ hshown]
    exact ⟨js "\"" ++ quoteUnits before, quoteUnits after ++ js "\"", by simp only [List.append_assoc]⟩

/-! ## Decimals -/

/-- A text of the form `-?[0-9]+([.,][0-9]+)?`, cast to `NUMERIC` with a point for the comma. -/
def plainDecimal (text : JsString) : Option ℚ :=
  let negative : Bool := text.head? = some 45
  let rest := if negative then text.drop 1 else text
  let whole := rest.takeWhile isDigit
  let rest := rest.dropWhile isDigit
  let sign : ℚ := if negative then -1 else 1
  if whole = [] then none
  else
    match rest with
    | [] => some (sign * number whole)
    | mark :: fraction =>
      if (mark = 46 ∨ mark = 44) ∧ fraction ≠ [] ∧ fraction.all isDigit then
        some (sign * (number (whole ++ fraction) / 10 ^ fraction.length))
      else none

/-- A digit of a literal with the base given. -/
def digitOf (base : ℕ) (c : UInt16) : Option ℕ :=
  let value := if isDigit c then c.toNat - 48
    else if between 'a' 'f' c then c.toNat - 87
    else if between 'A' 'F' c then c.toNat - 55
    else base
  if value < base then some value else none

/-- `0x1F`, `0o17` or `0b11` after its mark. -/
def radixLiteral (base : ℕ) (text : JsString) : Option ℚ :=
  if text = [] then none
  else (text.mapM (digitOf base)).map fun ds => (ds.foldl (fun n d => base * n + d) 0 : ℕ)

/-- `StrDecimalLiteral` with a finite value. -/
def decimalLiteral (text : JsString) : Option ℚ :=
  let (negative, rest) := readSign text
  let whole := rest.takeWhile isDigit
  let rest := rest.dropWhile isDigit
  let point := rest.head? = some 46
  let fraction := if point then (rest.drop 1).takeWhile isDigit else []
  let rest := if point then (rest.drop 1).dropWhile isDigit else rest
  if whole = [] ∧ fraction = [] then none
  else
    match readExponent rest with
    | some (exponent, []) =>
      some ((if negative then -1 else 1) * (number (whole ++ fraction) * (10 : ℚ) ^ (exponent - fraction.length)))
    | _ => none

/-- `Number(text)` of a text without blanks before it is rounded, if it is finite. -/
def numberOf (text : JsString) : Option ℚ :=
  if text = [] then some 0
  else if text.head? = some 48 then
    match text.drop 1 with
    | c :: rest =>
      if c = 120 ∨ c = 88 then radixLiteral 16 rest
      else if c = 111 ∨ c = 79 then radixLiteral 8 rest
      else if c = 98 ∨ c = 66 then radixLiteral 2 rest
      else decimalLiteral text
    | [] => decimalLiteral text
  else decimalLiteral text

/-- `text.replace(',', '.')`. -/
def pointForComma : JsString → JsString
  | [] => []
  | c :: text => if c = 44 then 46 :: text else c :: pointForComma text

/-! ### A plain decimal is the same number -/

/-- A number with the sign and the digits given. -/
def decimalOf (negative : Bool) (whole fraction : JsString) : ℚ :=
  (if negative then -1 else 1) * (number (whole ++ fraction) / 10 ^ fraction.length)

/-- A decimal as both languages write it. -/
def decimalText (negative : Bool) (whole fraction : JsString) : JsString :=
  (if negative then js "-" else []) ++ (whole ++ fractionText fraction)

theorem pointForComma_append {before : JsString} (h : ∀ c ∈ before, c ≠ 44) (text : JsString) :
    pointForComma (before ++ text) = before ++ pointForComma text := by
  induction before with
  | nil => rfl
  | cons c before ih =>
    rw [List.cons_append, pointForComma, if_neg (h c List.mem_cons_self),
      ih fun d hd => h d (List.mem_cons_of_mem _ hd), List.cons_append]

theorem isDigit_iff {c : UInt16} : isDigit c = true ↔ 48 ≤ c.toNat ∧ c.toNat ≤ 57 := by
  simp only [isDigit, between, Bool.and_eq_true, decide_eq_true_eq]
  rfl

theorem isDigit_not_space {c : UInt16} (h : isDigit c = true) : isSpace c = false := by
  rw [isDigit_iff] at h
  simp only [isSpace, between, oneOf, show js "\u0020\u00a0\u1680\u2028\u2029\u202f\u205f\u3000\ufeff" =
    [0x20, 0xa0, 0x1680, 0x2028, 0x2029, 0x202f, 0x205f, 0x3000, 0xfeff] from by decide, List.contains_cons,
    List.contains_nil, Bool.or_false, Bool.or_eq_false_iff, Bool.and_eq_false_iff, decide_eq_false_iff_not,
    beq_eq_false_iff_ne, ne_eq]
  simp only [← UInt16.toNat_inj]
  simp
  omega

theorem isDigit_ne {c d : UInt16} (h : isDigit c = true) (hd : isDigit d = false) : c ≠ d := by
  rintro rfl
  rw [h] at hd
  cases hd

theorem takeWhile_split {s : JsString} : (∀ c ∈ s.takeWhile isDigit, isDigit c = true) ∧
    s = s.takeWhile isDigit ++ s.dropWhile isDigit :=
  ⟨fun _ hc => List.mem_takeWhile_imp hc, (List.takeWhile_append_dropWhile).symm⟩

/-- The parts of a plain decimal, and how it reads with a point for the comma. -/
theorem plainDecimal_parts {text : JsString} {d : ℚ} (h : plainDecimal text = some d) :
    ∃ negative whole fraction, whole ≠ [] ∧ (∀ c ∈ whole ++ fraction, isDigit c = true) ∧
      d = decimalOf negative whole fraction ∧ pointForComma text = decimalText negative whole fraction ∧
      ∀ c ∈ text, isDigit c = true ∨ c = 45 ∨ c = 46 ∨ c = 44 := by
  obtain ⟨negative, sign, hnegative, hsign⟩ : ∃ (negative : Bool) (sign : JsString),
      negative = decide (text.head? = some 45) ∧ sign = if negative then js "-" else [] := ⟨_, _, rfl, rfl⟩
  have htext : text = sign ++ if negative then text.drop 1 else text := by
    cases hcase : negative with
    | false => rw [hsign, hcase]; rfl
    | true =>
      have hhead : text.head? = some 45 := of_decide_eq_true (hnegative ▸ hcase)
      cases text with
      | nil => cases hhead
      | cons c text =>
        obtain rfl := Option.some.inj hhead
        rw [hsign, hcase]
        rfl
  have hnocomma : ∀ c ∈ sign, c = 45 := by
    intro c hc
    rw [hsign] at hc
    split_ifs at hc
    · exact List.mem_singleton.1 hc
    · cases hc
  generalize hrest : (if negative = true then text.drop 1 else text) = rest at htext
  unfold plainDecimal at h
  rw [← hnegative] at h
  dsimp only at h
  rw [hrest] at h
  obtain ⟨hwhole, hsplit⟩ := @takeWhile_split rest
  generalize rest.takeWhile isDigit = whole at *
  generalize rest.dropWhile isDigit = after at *
  by_cases hnil : whole = []
  · rw [if_pos hnil] at h
    cases h
  rw [if_neg hnil] at h
  have hcomma : ∀ c ∈ sign ++ whole, c ≠ 44 := by
    intro c hc
    rcases List.mem_append.1 hc with hc | hc
    · rw [hnocomma c hc]
      decide
    · exact isDigit_ne (hwhole c hc) (by decide)
  cases after with
  | nil =>
    refine ⟨negative, whole, [], hnil, by simpa using hwhole, ?_, ?_, ?_⟩
    · rw [← Option.some.inj h, decimalOf, List.append_nil, List.length_nil, pow_zero, div_one]
    · rw [htext, hsplit, List.append_nil, decimalText, ← hsign]
      have hkept := pointForComma_append hcomma []
      rw [List.append_nil] at hkept
      rw [hkept, pointForComma, List.append_nil, fractionText, if_pos rfl, List.append_nil]
    · intro c hc
      rw [htext, hsplit, List.append_nil] at hc
      rcases List.mem_append.1 hc with hc | hc
      · exact .inr (.inl (hnocomma c hc))
      · exact .inl (hwhole c hc)
  | cons mark fraction =>
    dsimp only at h
    by_cases hcond : (mark = 46 ∨ mark = 44) ∧ fraction ≠ [] ∧ fraction.all isDigit = true
    swap
    · rw [if_neg hcond] at h
      cases h
    rw [if_pos hcond] at h
    obtain ⟨hmark, hfraction, hdigits⟩ := hcond
    rw [List.all_eq_true] at hdigits
    refine ⟨negative, whole, fraction, hnil, ?_, (Option.some.inj h).symm, ?_, ?_⟩
    · intro c hc
      rcases List.mem_append.1 hc with hc | hc
      · exact hwhole c hc
      · exact hdigits c hc
    · have hpoint : pointForComma (mark :: fraction) = 46 :: fraction := by
        rcases hmark with rfl | rfl
        · have hrest := pointForComma_append (fun c hc => isDigit_ne (hdigits c hc) (by decide)) ([] : JsString)
          rw [List.append_nil, pointForComma, List.append_nil] at hrest
          rw [pointForComma, if_neg (by decide), hrest]
        · rw [pointForComma, if_pos rfl]
      rw [htext, hsplit, ← List.append_assoc, pointForComma_append hcomma, hpoint, decimalText, ← hsign, fractionText,
        if_neg hfraction, List.append_assoc]
      rfl
    · intro c hc
      rw [htext, hsplit] at hc
      rcases List.mem_append.1 hc with hc | hc
      · exact .inr (.inl (hnocomma c hc))
      · rcases List.mem_append.1 hc with hc | hc
        · exact .inl (hwhole c hc)
        · rcases List.mem_cons.1 hc with rfl | hc
          · exact .inr (.inr hmark)
          · exact .inl (hdigits c hc)

theorem takeWhile_digits {ds rest : JsString} (hds : ∀ c ∈ ds, isDigit c = true)
    (hrest : ∀ c, rest.head? = some c → isDigit c = false) :
    (ds ++ rest).takeWhile isDigit = ds ∧ (ds ++ rest).dropWhile isDigit = rest := by
  have htail : rest.takeWhile isDigit = [] ∧ rest.dropWhile isDigit = rest := by
    cases rest with
    | nil => exact ⟨rfl, rfl⟩
    | cons c rest => simp [hrest c rfl]
  constructor
  · rw [List.takeWhile_append_of_pos hds, htail.1, List.append_nil]
  · rw [List.dropWhile_append_of_pos hds, htail.2]

theorem decimalLiteral_decimalText {negative : Bool} {whole fraction : JsString} (hne : whole ≠ [])
    (hds : ∀ c ∈ whole ++ fraction, isDigit c = true) :
    decimalLiteral (decimalText negative whole fraction) = some (decimalOf negative whole fraction) := by
  have hwhole : ∀ c ∈ whole, isDigit c = true := fun c hc => hds c (List.mem_append_left _ hc)
  have hfraction : ∀ c ∈ fraction, isDigit c = true := fun c hc => hds c (List.mem_append_right _ hc)
  have hsign : readSign (decimalText negative whole fraction) = (negative, whole ++ fractionText fraction) := by
    cases negative with
    | true => rfl
    | false =>
      obtain ⟨c, cs, rfl⟩ := List.exists_cons_of_ne_nil hne
      have hc := hwhole c List.mem_cons_self
      have hminus : ¬ (some c = some 45) := fun h => isDigit_ne hc (by decide) (Option.some.inj h)
      have hplus : ¬ (some c = some 43) := fun h => isDigit_ne hc (by decide) (Option.some.inj h)
      unfold readSign decimalText
      simp only [Bool.false_eq_true, if_false, List.nil_append, List.cons_append, List.head?_cons]
      rw [if_neg hminus, if_neg hplus]
  have hpoint : ∀ c, (fractionText fraction).head? = some c → isDigit c = false := by
    intro c hc
    unfold fractionText at hc
    split_ifs at hc
    · cases hc
    · cases hc
      decide
  obtain ⟨htake, hdrop⟩ := takeWhile_digits hwhole hpoint
  unfold decimalLiteral
  rw [hsign]
  dsimp only
  rw [htake, hdrop, if_neg fun h => hne h.1]
  by_cases hnil : fraction = []
  · subst hnil
    have hno : ¬ ((fractionText ([] : JsString)).head? = some 46) := by decide
    rw [if_neg hno, if_neg hno]
    have hnone : readExponent [] = some (0, []) := readExponent_none fun c hc => by cases hc
    simp only [fractionText, if_true, hnone]
    rw [decimalOf]
    simp
  · have htext : fractionText fraction = 46 :: fraction := by rw [fractionText, if_neg hnil]; rfl
    have hend : (fraction ++ []).takeWhile isDigit = fraction ∧ (fraction ++ []).dropWhile isDigit = [] :=
      takeWhile_digits hfraction fun c hc => by cases hc
    rw [List.append_nil] at hend
    rw [htext, List.head?_cons, if_pos rfl, if_pos rfl, List.drop_succ_cons, List.drop_zero, hend.1, hend.2,
      readExponent_none (fun c hc => by cases hc)]
    dsimp only
    rw [decimalOf, zero_sub, zpow_neg, zpow_natCast, div_eq_mul_inv]

theorem numberOf_decimal {text : JsString} (hne : text ≠ [])
    (h : ∀ c ∈ text, isDigit c = true ∨ c = 45 ∨ c = 46) : numberOf text = decimalLiteral text := by
  unfold numberOf
  rw [if_neg hne]
  split_ifs with hzero
  · split
    · next c rest hrest =>
      have hmem : c ∈ text := List.mem_of_mem_drop (i := 1) (hrest ▸ List.mem_cons_self)
      have hletter : ∀ d : UInt16, isDigit d = false → d ≠ 45 → d ≠ 46 → c ≠ d := by
        rintro d hd h₁ h₂ rfl
        rcases h c hmem with hc | hc | hc
        · exact isDigit_ne hc hd rfl
        · exact h₁ hc
        · exact h₂ hc
      rw [if_neg (not_or_intro (hletter 120 (by decide) (by decide) (by decide)) (hletter 88 (by decide)
        (by decide) (by decide))),
        if_neg (not_or_intro (hletter 111 (by decide) (by decide) (by decide)) (hletter 79 (by decide) (by decide)
          (by decide))),
        if_neg (not_or_intro (hletter 98 (by decide) (by decide) (by decide)) (hletter 66 (by decide) (by decide)
          (by decide)))]
    · rfl
  · rfl

/-- `Number` reads a plain decimal, written with a point, as the number it is cast to. -/
theorem number_of_plainDecimal {text : JsString} {d : ℚ} (h : plainDecimal text = some d) :
    numberOf (pointForComma (text.filter fun c => !isSpace c)) = some d := by
  obtain ⟨negative, whole, fraction, hne, hds, rfl, hwritten, hunits⟩ := plainDecimal_parts h
  have hnoblank : (text.filter fun c => !isSpace c) = text := by
    refine List.filter_eq_self.2 fun c hc => ?_
    rcases hunits c hc with hdigit | rfl | rfl | rfl
    · rw [isDigit_not_space hdigit]
      rfl
    · decide
    · decide
    · decide
  have hunits' : ∀ c ∈ decimalText negative whole fraction, isDigit c = true ∨ c = 45 ∨ c = 46 := by
    intro c hc
    unfold decimalText fractionText at hc
    rcases List.mem_append.1 hc with hc | hc
    · split_ifs at hc
      · exact .inr (.inl (List.mem_singleton.1 hc))
      · cases hc
    · rcases List.mem_append.1 hc with hc | hc
      · exact .inl (hds c (List.mem_append_left _ hc))
      · split_ifs at hc
        · cases hc
        · rcases List.mem_cons.1 hc with rfl | hc
          · exact .inr (.inr rfl)
          · exact .inl (hds c (List.mem_append_right _ hc))
  have hnil : decimalText negative whole fraction ≠ [] := by
    unfold decimalText
    simp [hne]
  rw [hnoblank, hwritten, numberOf_decimal hnil hunits', decimalLiteral_decimalText hne hds]

/-! ### Numbers of JSON -/

def numericValue (n : JsonNumber) : ℚ := (if n.negative then -1 else 1) * (n.significand * (10 : ℚ) ^ n.exponent)

theorem plainDecimal_decimalText {negative : Bool} {whole fraction : JsString} (hne : whole ≠ [])
    (hds : ∀ c ∈ whole ++ fraction, isDigit c = true) :
    plainDecimal (decimalText negative whole fraction) = some (decimalOf negative whole fraction) := by
  have hwhole : ∀ c ∈ whole, isDigit c = true := fun c hc => hds c (List.mem_append_left _ hc)
  have hfraction : ∀ c ∈ fraction, isDigit c = true := fun c hc => hds c (List.mem_append_right _ hc)
  have hsign : decide ((decimalText negative whole fraction).head? = some 45) = negative := by
    cases negative with
    | true => rfl
    | false =>
      obtain ⟨c, cs, rfl⟩ := List.exists_cons_of_ne_nil hne
      exact decide_eq_false fun h => isDigit_ne (hwhole c List.mem_cons_self) (by decide) (Option.some.inj h)
  have hbody : (if negative = true then (decimalText negative whole fraction).drop 1
      else decimalText negative whole fraction) = whole ++ fractionText fraction := by
    cases negative <;> rfl
  have hpoint : ∀ c, (fractionText fraction).head? = some c → isDigit c = false := by
    intro c hc
    unfold fractionText at hc
    split_ifs at hc
    · cases hc
    · cases hc
      decide
  obtain ⟨htake, hdrop⟩ := takeWhile_digits hwhole hpoint
  unfold plainDecimal
  rw [hsign]
  dsimp only
  rw [hbody, htake, hdrop, if_neg hne]
  by_cases hnil : fraction = []
  · subst hnil
    rw [fractionText, if_pos rfl]
    dsimp only
    rw [decimalOf, List.append_nil, List.length_nil, pow_zero, div_one]
  · rw [fractionText, if_neg hnil, show js "." ++ fraction = 46 :: fraction from rfl]
    dsimp only
    rw [if_pos ⟨.inl rfl, hnil, List.all_eq_true.2 hfraction⟩, decimalOf]

/-- The text of a number is cast to it. -/
theorem plainDecimal_numericText (n : JsonNumber) : plainDecimal (numericText n) = some (numericValue n) := by
  have hdigits : ∀ c ∈ JsonNumber.digits n.significand, isDigit c = true := fun c => mem_digits
  by_cases hscale : (-n.exponent).toNat = 0
  · obtain ⟨e, he⟩ : ∃ e : ℕ, n.exponent = e := ⟨n.exponent.toNat, by omega⟩
    have htext : numericText n =
        decimalText n.negative (JsonNumber.digits n.significand ++ List.replicate n.exponent.toNat 48) [] := by
      unfold numericText decimalText fractionText
      dsimp only
      rw [if_pos hscale, if_pos rfl, List.append_nil]
    have hne : JsonNumber.digits n.significand ++ List.replicate n.exponent.toNat 48 ≠ [] := by
      simp [digits_ne_nil]
    rw [htext, plainDecimal_decimalText hne, decimalOf, List.append_nil, number_append, number_zeros, number_digits,
      numericValue, he]
    · simp
    · intro c hc
      rw [List.append_nil] at hc
      rcases List.mem_append.1 hc with hc | hc
      · exact hdigits c hc
      · exact isDigit_zeros hc
  · obtain ⟨scale, hs⟩ : ∃ scale : ℕ, n.exponent = -scale := ⟨(-n.exponent).toNat, by omega⟩
    have hscale' : (-n.exponent).toNat = scale := by omega
    generalize hpadded : List.replicate (scale + 1 - (JsonNumber.digits n.significand).length) 48 ++
      JsonNumber.digits n.significand = padded
    have hlength : scale + 1 ≤ padded.length := by
      rw [← hpadded, List.length_append, List.length_replicate]
      omega
    have hall : ∀ c ∈ padded, isDigit c = true := by
      intro c hc
      rw [← hpadded] at hc
      rcases List.mem_append.1 hc with hc | hc
      · exact isDigit_zeros hc
      · exact hdigits c hc
    have htake : padded.take (padded.length - scale) ≠ [] := by
      refine List.ne_nil_of_length_pos ?_
      rw [List.length_take]
      omega
    have hdrop : padded.drop (padded.length - scale) ≠ [] := by
      refine List.ne_nil_of_length_pos ?_
      rw [List.length_drop]
      omega
    have htext : numericText n = decimalText n.negative (padded.take (padded.length - scale))
        (padded.drop (padded.length - scale)) := by
      unfold numericText decimalText fractionText
      dsimp only
      have hpositive : scale ≠ 0 := hscale' ▸ hscale
      rw [hscale', hpadded, if_neg hpositive, if_neg hdrop, List.append_assoc]
    have hfraction : (padded.drop (padded.length - scale)).length = scale := by
      rw [List.length_drop]
      omega
    rw [htext, plainDecimal_decimalText htake, decimalOf, List.take_append_drop, hfraction, ← hpadded,
      number_leading_zeros, number_digits, numericValue, hs, zpow_neg, zpow_natCast, div_eq_mul_inv]
    · intro c hc
      rw [List.take_append_drop] at hc
      exact hall c hc

/-- A text that begins otherwise is no decimal. -/
theorem plainDecimal_other {c : UInt16} {text : JsString} (hdigit : isDigit c = false) (hminus : c ≠ 45) :
    plainDecimal (c :: text) = none := by
  unfold plainDecimal
  have hsign : decide ((c :: text).head? = some 45) = false :=
    decide_eq_false fun h => hminus (Option.some.inj h)
  rw [hsign]
  dsimp only
  rw [if_neg Bool.false_ne_true, List.takeWhile_cons_of_neg (by rw [hdigit]; exact Bool.false_ne_true), if_pos rfl]

end AmoAnalytics.SqlText
