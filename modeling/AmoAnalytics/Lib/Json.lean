import AmoAnalytics.Lib.JsMap
import AmoAnalytics.Lib.JsonNumber

/-!
# JSON texts

JSON values, `JSON.stringify` and `JSON.parse`. An object is the list of its entries in enumeration order; two values
that differ only in these orders are the same value. What `stringify` writes, `parse` reads back.
-/

namespace AmoAnalytics

open JsText

inductive Json
  | null
  | bool (value : Bool)
  | num (value : JsonNumber)
  | str (value : JsString)
  | arr (items : List Json)
  | obj (fields : List (JsString × Json))

namespace Json

/-- The induction over a tree, with the hypothesis for every child. -/
theorem induct {motive : Json → Prop} (null : motive null) (bool : ∀ b, motive (.bool b))
    (num : ∀ n, motive (.num n)) (str : ∀ s, motive (.str s))
    (arr : ∀ items : List Json, (∀ item ∈ items, motive item) → motive (.arr items))
    (obj : ∀ fields : List (JsString × Json), (∀ field ∈ fields, motive field.2) → motive (.obj fields)) :
    ∀ v, motive v
  | .null => null
  | .bool b => bool b
  | .num n => num n
  | .str s => str s
  | .arr items => arr items fun item _ => induct null bool num str arr obj item
  | .obj fields => obj fields fun field _ => induct null bool num str arr obj field.2
termination_by v => sizeOf v
decreasing_by
  · next h =>
    have hlt := List.sizeOf_lt_of_mem h
    simp only [Json.arr.sizeOf_spec]
    omega
  · next h =>
    have hlt := List.sizeOf_lt_of_mem h
    have hfield : sizeOf field = 1 + sizeOf field.1 + sizeOf field.2 := by cases field; rfl
    simp only [Json.obj.sizeOf_spec]
    omega

/-! ## Texts -/

/-- A digit of a `\\u` escape. -/
def hexUnit (d : ℕ) : UInt16 := if d < 10 then (48 + d).toUInt16 else (87 + d).toUInt16

def escapeUnit (c : UInt16) : JsString :=
  js "\\u" ++ [hexUnit (c.toNat / 4096), hexUnit (c.toNat / 256 % 16), hexUnit (c.toNat / 16 % 16),
    hexUnit (c.toNat % 16)]

def isHigh (c : UInt16) : Bool := 0xD800 ≤ c.toNat && c.toNat < 0xDC00

def isLow (c : UInt16) : Bool := 0xDC00 ≤ c.toNat && c.toNat < 0xE000

/-- A unit inside a quoted text, a surrogate being on its own. -/
def quoteUnit (c : UInt16) : JsString :=
  if c = 8 then js "\\b"
  else if c = 9 then js "\\t"
  else if c = 10 then js "\\n"
  else if c = 12 then js "\\f"
  else if c = 13 then js "\\r"
  else if c = 34 then js "\\\""
  else if c = 92 then js "\\\\"
  else if c.toNat < 32 || isHigh c || isLow c then escapeUnit c
  else [c]

/-- The inside of a quoted text; a surrogate pair stands as it is. -/
def quoteUnits : JsString → JsString
  | [] => []
  | [c] => quoteUnit c
  | c :: d :: s => if isHigh c && isLow d then c :: d :: quoteUnits s else quoteUnit c ++ quoteUnits (d :: s)

/-- `JSON.stringify` of a string. -/
def quote (s : JsString) : JsString := js "\"" ++ quoteUnits s ++ js "\""

/-- `parts.join(',')`. -/
def joined (parts : List JsString) : JsString := (parts.intersperse (js ",")).flatten

mutual

/-- `JSON.stringify`. -/
def stringify : Json → JsString
  | null => js "null"
  | bool b => js (if b then "true" else "false")
  | num n => n.text
  | str s => quote s
  | arr items => js "[" ++ joined (stringifyItems items) ++ js "]"
  | obj fields => js "\x7b" ++ joined (stringifyFields fields) ++ js "\x7d"

def stringifyItems : List Json → List JsString
  | [] => []
  | item :: items => stringify item :: stringifyItems items

def stringifyFields : List (JsString × Json) → List JsString
  | [] => []
  | (key, value) :: fields => (quote key ++ js ":" ++ stringify value) :: stringifyFields fields

end

theorem stringifyItems_eq (items : List Json) : stringifyItems items = items.map stringify := by
  induction items with
  | nil => rfl
  | cons item items ih => rw [stringifyItems, ih, List.map_cons]

theorem stringifyFields_eq (fields : List (JsString × Json)) :
    stringifyFields fields = fields.map fun field => quote field.1 ++ js ":" ++ stringify field.2 := by
  induction fields with
  | nil => rfl
  | cons field fields ih => rw [stringifyFields, ih, List.map_cons]

/-! ## Parsing -/

def isBlank (c : UInt16) : Bool := c = 32 || c = 9 || c = 10 || c = 13

def skipBlanks (s : JsString) : JsString := s.dropWhile isBlank

def hexValue (c : UInt16) : Option ℕ :=
  if isDigit c then some (c.toNat - 48)
  else if between 'a' 'f' c then some (c.toNat - 87)
  else if between 'A' 'F' c then some (c.toNat - 55)
  else none

/-- The unit after a backslash and `u`. -/
def readHex : JsString → Option (UInt16 × JsString)
  | a :: b :: c :: d :: rest => do
    let a ← hexValue a
    let b ← hexValue b
    let c ← hexValue c
    let d ← hexValue d
    some ((a * 4096 + b * 256 + c * 16 + d).toUInt16, rest)
  | _ => none

/-- The unit after a backslash. -/
def readEscape : JsString → Option (UInt16 × JsString)
  | [] => none
  | c :: rest =>
    if c = 117 then readHex rest
    else if c = 98 then some (8, rest)
    else if c = 116 then some (9, rest)
    else if c = 110 then some (10, rest)
    else if c = 102 then some (12, rest)
    else if c = 114 then some (13, rest)
    else if c = 34 || c = 92 || c = 47 then some (c, rest)
    else none

/-- A text up to its closing quote. -/
def readString : ℕ → JsString → Option (JsString × JsString)
  | 0, _ => none
  | _ + 1, [] => none
  | fuel + 1, c :: rest =>
    if c = 34 then some ([], rest)
    else if c.toNat < 32 then none
    else do
      let (unit, rest) ← if c = 92 then readEscape rest else some (c, rest)
      let (units, rest) ← readString fuel rest
      some (unit :: units, rest)

/-- A word such as `null`. -/
def readWord (word : String) (value : Json) (s : JsString) : Option (Json × JsString) :=
  if (js word).isPrefixOf s then some (value, s.drop (js word).length) else none

mutual

/-- The value a text begins with. -/
def readValue : ℕ → JsString → Option (Json × JsString)
  | 0, _ => none
  | fuel + 1, s =>
    match skipBlanks s with
    | [] => none
    | c :: rest =>
      if c = 34 then (readString fuel rest).map fun (s, rest) => (str s, rest)
      else if c = 91 then
        if (skipBlanks rest).head? = some 93 then some (arr [], (skipBlanks rest).drop 1)
        else (readItems fuel rest).map fun (items, rest) => (arr items, rest)
      else if c = 123 then
        if (skipBlanks rest).head? = some 125 then some (obj [], (skipBlanks rest).drop 1)
        else (readFields fuel rest).map fun (fields, rest) => (obj (JsMap.ofEntries fields), rest)
      else if isDigit c || c = 45 then (JsonNumber.read (c :: rest)).map fun (n, rest) => (num n, rest)
      else (readWord "null" null (c :: rest)).or
        ((readWord "true" (bool true) (c :: rest)).or (readWord "false" (bool false) (c :: rest)))

/-- The items of an array up to its bracket, at least one. -/
def readItems : ℕ → JsString → Option (List Json × JsString)
  | 0, _ => none
  | fuel + 1, s => do
    let (item, rest) ← readValue fuel s
    match skipBlanks rest with
    | [] => none
    | c :: rest =>
      if c = 44 then (readItems fuel rest).map fun (items, rest) => (item :: items, rest)
      else if c = 93 then some ([item], rest)
      else none

/-- The entries of an object up to its brace, at least one. -/
def readFields : ℕ → JsString → Option (List (JsString × Json) × JsString)
  | 0, _ => none
  | fuel + 1, s =>
    match skipBlanks s with
    | [] => none
    | q :: rest =>
      if q ≠ 34 then none
      else do
        let (key, rest) ← readString fuel rest
        match skipBlanks rest with
        | [] => none
        | colon :: rest =>
          if colon ≠ 58 then none
          else do
            let (value, rest) ← readValue fuel rest
            match skipBlanks rest with
            | [] => none
            | c :: rest =>
              if c = 44 then (readFields fuel rest).map fun (fields, rest) => ((key, value) :: fields, rest)
              else if c = 125 then some ([(key, value)], rest)
              else none

end

/-- `JSON.parse`. -/
def parse (s : JsString) : Option Json :=
  (readValue (s.length + 1) s).bind fun (value, rest) => if skipBlanks rest = [] then some value else none

/-! ## Texts read back -/

theorem hexValue_hexUnit {d : ℕ} (hd : d < 16) : hexValue (hexUnit d) = some d := by
  interval_cases d <;> rfl

theorem readHex_escape (c : UInt16) (rest : JsString) :
    readHex ((escapeUnit c).drop 2 ++ rest) = some (c, rest) := by
  have hc : c.toNat < 65536 := c.toNat_lt
  have hsum : c.toNat / 4096 * 4096 + c.toNat / 256 % 16 * 256 + c.toNat / 16 % 16 * 16 + c.toNat % 16 = c.toNat := by
    omega
  have htext : (escapeUnit c).drop 2 ++ rest = hexUnit (c.toNat / 4096) :: hexUnit (c.toNat / 256 % 16) ::
      hexUnit (c.toNat / 16 % 16) :: hexUnit (c.toNat % 16) :: rest := rfl
  rw [htext, readHex, hexValue_hexUnit (by omega), hexValue_hexUnit (by omega), hexValue_hexUnit (by omega),
    hexValue_hexUnit (by omega)]
  simp only [Option.bind_eq_bind, Option.bind_some, hsum]
  rw [Nat.toUInt16_eq, UInt16.ofNat_toNat]

theorem bind_cons (c : UInt16) (read : Option (JsString × JsString)) :
    (read.bind fun p => some (c :: p.1, p.2)) = read.map fun (s, rest) => (c :: s, rest) := by
  cases read <;> rfl

/-- A unit that needs no escape. -/
theorem readString_plain (fuel : ℕ) {c : UInt16} (h34 : c ≠ 34) (h32 : ¬c.toNat < 32) (h92 : c ≠ 92)
    (rest : JsString) :
    readString (fuel + 1) (c :: rest) = (readString fuel rest).map fun (s, rest) => (c :: s, rest) := by
  rw [readString, if_neg h34, if_neg h32, if_neg h92]
  exact bind_cons c _

/-- A quoted unit reads as the unit. -/
theorem readString_quoteUnit (fuel : ℕ) (c : UInt16) (rest : JsString) :
    readString (fuel + 1) (quoteUnit c ++ rest) = (readString fuel rest).map fun (s, rest) => (c :: s, rest) := by
  rw [quoteUnit]
  split_ifs with h8 h9 h10 h12 h13 h34 h92 hescape
  · subst h8; exact bind_cons _ _
  · subst h9; exact bind_cons _ _
  · subst h10; exact bind_cons _ _
  · subst h12; exact bind_cons _ _
  · subst h13; exact bind_cons _ _
  · subst h34; exact bind_cons _ _
  · subst h92; exact bind_cons _ _
  · have htext : escapeUnit c ++ rest = 92 :: 117 :: ((escapeUnit c).drop 2 ++ rest) := rfl
    have hread : readEscape (117 :: ((escapeUnit c).drop 2 ++ rest)) = some (c, rest) := readHex_escape c rest
    rw [htext, readString, if_neg (by decide), if_neg (by decide), if_pos rfl, hread]
    exact bind_cons _ _
  · simp only [Bool.or_eq_true, decide_eq_true_eq, not_or] at hescape
    exact readString_plain fuel h34 hescape.1.1 h92 rest

theorem readString_pair (fuel : ℕ) {c d : UInt16} (hc : isHigh c = true) (hd : isLow d = true) (rest : JsString) :
    readString (fuel + 2) (c :: d :: rest) = (readString fuel rest).map fun (s, rest) => (c :: d :: s, rest) := by
  have hplain : ∀ e : UInt16, 0xD800 ≤ e.toNat → e ≠ 34 ∧ ¬e.toNat < 32 ∧ e ≠ 92 := by
    intro e he
    refine ⟨?_, by omega, ?_⟩
    · rintro rfl
      exact absurd he (by decide)
    · rintro rfl
      exact absurd he (by decide)
  simp only [isHigh, isLow, Bool.and_eq_true, decide_eq_true_eq] at hc hd
  obtain ⟨hc34, hc32, hc92⟩ := hplain c hc.1
  obtain ⟨hd34, hd32, hd92⟩ := hplain d (by omega)
  rw [readString_plain _ hc34 hc32 hc92, readString_plain _ hd34 hd32 hd92]
  cases readString fuel rest <;> rfl

theorem quoteUnit_ne_nil (c : UInt16) : quoteUnit c ≠ [] := by
  rw [quoteUnit]
  split_ifs <;> simp [js, encode, escapeUnit]

theorem readString_quoteUnits (s : JsString) (fuel : ℕ) (rest : JsString) (hfuel : (quoteUnits s).length < fuel) :
    readString fuel (quoteUnits s ++ 34 :: rest) = some (s, rest) := by
  induction s using quoteUnits.induct generalizing fuel with
  | case1 =>
    obtain ⟨fuel, rfl⟩ : ∃ n, fuel = n + 1 := ⟨fuel - 1, by omega⟩
    rfl
  | case2 c =>
    have hpos := List.length_pos_iff.2 (quoteUnit_ne_nil c)
    rw [quoteUnits] at hfuel ⊢
    obtain ⟨fuel, rfl⟩ : ∃ n, fuel = n + 2 := ⟨fuel - 2, by omega⟩
    rw [readString_quoteUnit]
    rfl
  | case3 c d s hpair ih =>
    simp only [Bool.and_eq_true] at hpair
    rw [quoteUnits, if_pos (by simpa using hpair)] at hfuel ⊢
    simp only [List.length_cons] at hfuel
    obtain ⟨fuel, rfl⟩ : ∃ n, fuel = n + 2 := ⟨fuel - 2, by omega⟩
    rw [List.cons_append, List.cons_append, readString_pair fuel hpair.1 hpair.2, ih fuel (by omega)]
    rfl
  | case4 c d s hpair ih =>
    have hpos := List.length_pos_iff.2 (quoteUnit_ne_nil c)
    rw [quoteUnits, if_neg hpair] at hfuel ⊢
    rw [List.length_append] at hfuel
    obtain ⟨fuel, rfl⟩ : ∃ n, fuel = n + 1 := ⟨fuel - 1, by omega⟩
    rw [List.append_assoc, readString_quoteUnit, ih fuel (by omega)]
    rfl

/-! ## Values read back -/

/-- No object has two entries under one key. -/
inductive Distinct : Json → Prop
  | null : Distinct null
  | bool (b : Bool) : Distinct (bool b)
  | num (n : JsonNumber) : Distinct (num n)
  | str (s : JsString) : Distinct (str s)
  | arr {items : List Json} (h : ∀ item ∈ items, Distinct item) : Distinct (arr items)
  | obj {fields : List (JsString × Json)} (hkeys : (fields.map Prod.fst).Nodup)
      (h : ∀ field ∈ fields, Distinct field.2) : Distinct (obj fields)

@[simp] theorem joined_singleton (x : JsString) : joined [x] = x := by simp [joined]

theorem joined_cons (x y : JsString) (ys : List JsString) : joined (x :: y :: ys) = x ++ 44 :: joined (y :: ys) := by
  rw [joined, List.intersperse_cons_cons, List.flatten_cons, List.flatten_cons]
  rfl

theorem head_joined {c : UInt16} {s : JsString} (parts : List JsString) :
    ∃ s', joined ((c :: s) :: parts) = c :: s' := by
  cases parts with
  | nil => exact ⟨s, joined_singleton _⟩
  | cons part parts => exact ⟨_, joined_cons _ _ _⟩

/-- What a value is written with first. -/
theorem head_stringify (v : Json) : ∃ c s, stringify v = c :: s ∧ isBlank c = false ∧ c ≠ 93 ∧ c ≠ 125 := by
  cases v with
  | null => exact ⟨_, _, rfl, by decide⟩
  | bool b => cases b <;> exact ⟨_, _, rfl, by decide⟩
  | num n =>
    obtain ⟨c, s, htext, hc⟩ := n.head_text
    refine ⟨c, s, htext, ?_⟩
    rcases hc with hc | rfl
    · simp only [isDigit, between, Bool.and_eq_true, decide_eq_true_eq] at hc
      have hne : ∀ d : UInt16, d.toNat < 48 ∨ 57 < d.toNat → c ≠ d := by
        rintro d hd rfl
        have hlo : 48 ≤ c.toNat := hc.1
        have hhi : c.toNat ≤ 57 := hc.2
        omega
      refine ⟨?_, hne 93 (by decide), hne 125 (by decide)⟩
      simp [isBlank, hne 32 (by decide), hne 9 (by decide), hne 10 (by decide), hne 13 (by decide)]
    · decide
  | str s => exact ⟨34, _, rfl, by decide⟩
  | arr items => exact ⟨91, _, rfl, by decide⟩
  | obj fields => exact ⟨123, _, rfl, by decide⟩

theorem skipBlanks_cons {c : UInt16} {s : JsString} (h : isBlank c = false) : skipBlanks (c :: s) = c :: s := by
  simp [skipBlanks, h]

/-- The value reads back from its text, whatever follows, when the fuel covers the text. -/
def ReadsBack (v : Json) : Prop :=
  ∀ fuel rest, (stringify v).length ≤ fuel → JsonNumber.Ends rest →
    readValue fuel (stringify v ++ rest) = some (v, rest)

theorem readItems_joined {items : List Json} (hne : items ≠ []) (h : ∀ item ∈ items, ReadsBack item) (fuel : ℕ)
    (rest : JsString) (hfuel : (joined (stringifyItems items)).length < fuel) :
    readItems fuel (joined (stringifyItems items) ++ 93 :: rest) = some (items, rest) := by
  induction items generalizing fuel with
  | nil => exact absurd rfl hne
  | cons item items ih =>
    obtain ⟨fuel, rfl⟩ : ∃ n, fuel = n + 1 := ⟨fuel - 1, by omega⟩
    have hitem := h item List.mem_cons_self
    cases items with
    | nil =>
      rw [stringifyItems, stringifyItems, joined_singleton] at hfuel ⊢
      rw [readItems, hitem fuel _ (by omega) (by rintro c ⟨⟩; decide)]
      rfl
    | cons next items =>
      have hjoined : joined (stringifyItems (item :: next :: items)) =
          stringify item ++ 44 :: joined (stringifyItems (next :: items)) := joined_cons _ _ _
      rw [hjoined, List.length_append, List.length_cons] at hfuel
      have hrest := ih (by simp) (fun x hx => h x (List.mem_cons_of_mem _ hx)) fuel (by omega)
      rw [hjoined, List.append_assoc, List.cons_append, readItems,
        hitem fuel _ (by omega) (by rintro c ⟨⟩; decide)]
      simp only [Option.bind_eq_bind, Option.bind_some]
      rw [skipBlanks_cons (by decide)]
      simp only [if_true, hrest, Option.map_some]

theorem quote_append (s rest : JsString) : quote s ++ rest = 34 :: (quoteUnits s ++ 34 :: rest) := by
  rw [quote, List.append_assoc, List.append_assoc]
  rfl

theorem length_quote (s : JsString) : (quote s).length = (quoteUnits s).length + 2 := by
  have hone : (js "\"").length = 1 := rfl
  rw [quote, List.length_append, List.length_append, hone]
  omega

/-- The entries of an object, with the text that follows them. -/
theorem readFields_joined {fields : List (JsString × Json)} (hne : fields ≠ [])
    (h : ∀ field ∈ fields, ReadsBack field.2) (fuel : ℕ) (rest : JsString)
    (hfuel : (joined (stringifyFields fields)).length < fuel) :
    readFields fuel (joined (stringifyFields fields) ++ 125 :: rest) = some (fields, rest) := by
  induction fields generalizing fuel with
  | nil => exact absurd rfl hne
  | cons field fields ih =>
    obtain ⟨key, value⟩ := field
    obtain ⟨fuel, rfl⟩ : ∃ n, fuel = n + 1 := ⟨fuel - 1, by omega⟩
    have hvalue : ReadsBack value := h (key, value) List.mem_cons_self
    -- one entry, up to the comma or the brace after it
    have hentry : ∀ tail : JsString, JsonNumber.Ends tail → (stringify value).length + (quote key).length ≤ fuel →
        readFields (fuel + 1) (quote key ++ js ":" ++ stringify value ++ tail) =
          match skipBlanks tail with
          | [] => none
          | c :: rest =>
            if c = 44 then (readFields fuel rest).map fun (fields, rest) => ((key, value) :: fields, rest)
            else if c = 125 then some ([(key, value)], rest)
            else none := by
      intro tail htail hlen
      have hcolon : js ":" ++ (stringify value ++ tail) = 58 :: (stringify value ++ tail) := rfl
      rw [length_quote] at hlen
      rw [List.append_assoc, List.append_assoc, quote_append, hcolon, readFields, skipBlanks_cons (by decide)]
      simp only [ne_eq, not_true_eq_false, if_false, readString_quoteUnits key fuel _ (by omega), Option.bind_eq_bind,
        Option.bind_some, skipBlanks_cons (show isBlank 58 = false by decide), hvalue fuel tail (by omega) htail]
    cases fields with
    | nil =>
      rw [stringifyFields, stringifyFields, joined_singleton] at hfuel ⊢
      rw [List.length_append, List.length_append] at hfuel
      rw [hentry _ (by rintro c ⟨⟩; decide) (by omega), skipBlanks_cons (by decide)]
      rfl
    | cons next fields =>
      have hjoined : joined (stringifyFields ((key, value) :: next :: fields)) =
          (quote key ++ js ":" ++ stringify value) ++ 44 :: joined (stringifyFields (next :: fields)) :=
        joined_cons _ _ _
      rw [hjoined, List.length_append, List.length_append, List.length_append, List.length_cons] at hfuel
      have hrest := ih (by simp) (fun x hx => h x (List.mem_cons_of_mem _ hx)) fuel (by omega)
      rw [hjoined, List.append_assoc, List.cons_append, hentry _ (by rintro c ⟨⟩; decide) (by omega),
        skipBlanks_cons (by decide)]
      simp only [if_true, hrest, Option.map_some]

theorem readsBack_arr {items : List Json} (h : ∀ item ∈ items, ReadsBack item) : ReadsBack (arr items) := by
  intro fuel rest hfuel _
  have htext : stringify (arr items) = 91 :: (joined (stringifyItems items) ++ [93]) := rfl
  rw [htext, List.length_cons, List.length_append, List.length_singleton] at hfuel
  obtain ⟨fuel, rfl⟩ : ∃ n, fuel = n + 1 := ⟨fuel - 1, by omega⟩
  rw [htext, List.cons_append, List.append_assoc, List.singleton_append, readValue, skipBlanks_cons (by decide)]
  simp only [if_neg (show (91 : UInt16) ≠ 34 by decide), if_true]
  cases items with
  | nil => rfl
  | cons item items =>
    obtain ⟨c, s, hitem, hblank, hc, -⟩ := head_stringify item
    obtain ⟨s', hjoined⟩ : ∃ s', joined (stringifyItems (item :: items)) = c :: s' := by
      rw [stringifyItems, hitem]
      exact head_joined _
    have hitems := readItems_joined (List.cons_ne_nil item items) h fuel rest (by omega)
    have hopen : (skipBlanks (joined (stringifyItems (item :: items)) ++ 93 :: rest)).head? ≠ some 93 := by
      rw [hjoined, List.cons_append, skipBlanks_cons hblank, List.head?_cons, Ne, Option.some.injEq]
      exact hc
    rw [if_neg hopen, hitems]
    rfl

theorem readsBack_obj {fields : List (JsString × Json)} (hkeys : (fields.map Prod.fst).Nodup)
    (h : ∀ field ∈ fields, ReadsBack field.2) : ReadsBack (obj fields) := by
  intro fuel rest hfuel _
  have htext : stringify (obj fields) = 123 :: (joined (stringifyFields fields) ++ [125]) := rfl
  rw [htext, List.length_cons, List.length_append, List.length_singleton] at hfuel
  obtain ⟨fuel, rfl⟩ : ∃ n, fuel = n + 1 := ⟨fuel - 1, by omega⟩
  rw [htext, List.cons_append, List.append_assoc, List.singleton_append, readValue, skipBlanks_cons (by decide)]
  simp only [if_neg (show (123 : UInt16) ≠ 34 by decide), if_neg (show (123 : UInt16) ≠ 91 by decide), if_true]
  cases fields with
  | nil => rfl
  | cons field fields =>
    obtain ⟨s', hjoined⟩ : ∃ s', joined (stringifyFields (field :: fields)) = 34 :: s' := by
      rw [stringifyFields, List.append_assoc, quote_append]
      exact head_joined _
    have hfields := readFields_joined (List.cons_ne_nil field fields) h fuel rest (by omega)
    have hopen : (skipBlanks (joined (stringifyFields (field :: fields)) ++ 125 :: rest)).head? ≠ some 125 := by
      rw [hjoined, List.cons_append, skipBlanks_cons (by decide), List.head?_cons]
      decide
    rw [if_neg hopen, hfields, Option.map_some, JsMap.ofEntries_of_nodup hkeys]

/-- What `stringify` writes reads back. -/
theorem readsBack {v : Json} (hv : Distinct v) : ReadsBack v := by
  induction v using induct with
  | null =>
    intro fuel rest hfuel _
    obtain ⟨fuel, rfl⟩ : ∃ n, fuel = n + 1 := ⟨fuel - 1, by
      have : (stringify null).length = 4 := rfl
      omega⟩
    rfl
  | bool b =>
    intro fuel rest hfuel _
    obtain ⟨fuel, rfl⟩ : ∃ n, fuel = n + 1 := ⟨fuel - 1, by
      have : 1 ≤ (stringify (bool b)).length := by cases b <;> decide
      omega⟩
    cases b <;> rfl
  | num n =>
    intro fuel rest hfuel hrest
    obtain ⟨c, s, htext, hc⟩ := n.head_text
    have hread : JsonNumber.read (c :: (s ++ rest)) = some (n, rest) := by
      rw [← List.cons_append, ← htext]
      exact n.read_text hrest
    obtain ⟨c', s', htext', hblank, -⟩ := head_stringify (num n)
    rw [stringify, htext] at htext' hfuel
    obtain ⟨rfl, rfl⟩ := List.cons.inj htext'
    obtain ⟨fuel, rfl⟩ : ∃ n, fuel = n + 1 := ⟨fuel - 1, by simp only [List.length_cons] at hfuel; omega⟩
    have h34 : c ≠ 34 := by rintro rfl; revert hc; decide
    have h91 : c ≠ 91 := by rintro rfl; revert hc; decide
    have h123 : c ≠ 123 := by rintro rfl; revert hc; decide
    rw [stringify, htext, List.cons_append, readValue, skipBlanks_cons hblank]
    simp only [if_neg h34, if_neg h91, if_neg h123]
    rw [if_pos (by simpa using hc), hread]
    rfl
  | str s =>
    intro fuel rest hfuel _
    rw [stringify, length_quote] at hfuel
    obtain ⟨fuel, rfl⟩ : ∃ n, fuel = n + 1 := ⟨fuel - 1, by omega⟩
    rw [stringify, quote_append, readValue, skipBlanks_cons (by decide)]
    simp only [if_true, readString_quoteUnits s fuel rest (by omega), Option.map_some]
  | arr items ih =>
    cases hv with
    | arr hitems => exact readsBack_arr fun item hitem => ih item hitem (hitems item hitem)
  | obj fields ih =>
    cases hv with
    | obj hkeys hfields => exact readsBack_obj hkeys fun field hfield => ih field hfield (hfields field hfield)

/-- `JSON.parse(JSON.stringify(value))` is the value. -/
theorem parse_stringify {v : Json} (hv : Distinct v) : parse (stringify v) = some v := by
  have hread := readsBack hv ((stringify v).length + 1) [] (Nat.le_succ _) (by rintro c ⟨⟩)
  rw [List.append_nil] at hread
  rw [parse, hread]
  rfl

end Json

end AmoAnalytics
