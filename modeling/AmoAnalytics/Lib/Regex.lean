import AmoAnalytics.Lib.JsText

/-!
# Regular expressions

A regular expression over symbols is run by backtracking: `run` lists the ways to match from a
position, the preferred one first, so that `test` asks whether there is one and `matchAll` and
`replaceAll` take the first. A position is the symbol before it and the text after it.
-/

namespace AmoAnalytics

/-- A regular expression; what is repeated without an upper bound matches no empty text. -/
inductive Regex (α : Type)
  | empty
  | one (p : α → Bool)
  | seq (r s : Regex α)
  | alt (r s : Regex α)
  | rep (least most : ℕ) (r : Regex α)
  | many (least : ℕ) (r : Regex α)
  | look (p : Option α → Option α → Bool)

namespace Regex

variable {α : Type}

abbrev Position (α : Type) := Option α × List α

/-- As many repetitions as possible first. -/
def repeated (step : Position α → List (Position α)) : ℕ → ℕ → Position α → List (Position α)
  | least, 0, at' => if least = 0 then [at'] else []
  | least, most + 1, at' =>
    (step at').flatMap (repeated step (least - 1) most) ++ if least = 0 then [at'] else []

/-- The positions after a match, the preferred one first. -/
def run : Regex α → Position α → List (Position α)
  | empty, at' => [at']
  | one p, (_, a :: rest) => if p a then [(some a, rest)] else []
  | one _, (_, []) => []
  | seq r s, at' => (run r at').flatMap (run s)
  | alt r s, at' => run r at' ++ run s at'
  | rep least most r, at' => repeated (run r) least most at'
  | many least r, at' => repeated (run r) least at'.2.length at'
  | look p, at' => if p at'.1 at'.2.head? then [at'] else []

/-- `regex.test(text)`. -/
def test (r : Regex α) (text : List α) : Bool := find none text
where
  find (before : Option α) : List α → Bool
    | [] => !(run r (before, [])).isEmpty
    | a :: rest => !(run r (before, a :: rest)).isEmpty || find (some a) rest

/-- `text.search(regex)`: where the first match begins. -/
def search (r : Regex α) (text : List α) : Option ℕ := find none 0 text
where
  find (before : Option α) (i : ℕ) : List α → Option ℕ
    | [] => if (run r (before, [])).isEmpty then none else some i
    | a :: rest => if (run r (before, a :: rest)).isEmpty then find (some a) (i + 1) rest else some i

/-- The text as matches and the symbols between them, from the left. -/
def pieces (r : Regex α) : ℕ → Position α → List (List α ⊕ α)
  | 0, _ => []
  | fuel + 1, (before, rest) =>
    match (run r (before, rest)).head?.filter fun next => next.2.length < rest.length with
    | some next => .inl (rest.take (rest.length - next.2.length)) :: pieces r fuel next
    | none =>
      match rest with
      | [] => []
      | a :: rest => .inr a :: pieces r fuel (some a, rest)

/-- `text.matchAll(regex)`: the matched texts. -/
def matchAll (r : Regex α) (text : List α) : List (List α) :=
  (pieces r (text.length + 1) (none, text)).filterMap fun piece => piece.getLeft?

/-- `text.replace(regex, by)` with the flag `g`. -/
def replaceAll (r : Regex α) (by' : List α) (text : List α) : List α :=
  (pieces r (text.length + 1) (none, text)).flatMap fun piece =>
    match piece with
    | .inl _ => by'
    | .inr a => [a]

/-! ## Replacing the symbols of a class -/

theorem head_repeated (p : α → Bool) (most : ℕ) (at' : Position α) :
    ∃ next, (repeated (run (one p)) 0 most at').head? = some next ∧ next.2.length ≤ at'.2.length := by
  induction most generalizing at' with
  | zero => exact ⟨at', rfl, le_rfl⟩
  | succ most ih =>
    obtain ⟨before, rest⟩ := at'
    cases rest with
    | nil => exact ⟨(before, []), rfl, le_rfl⟩
    | cons a rest =>
      by_cases ha : p a = true
      · obtain ⟨next, hhead, hlen⟩ := ih (some a, rest)
        refine ⟨next, ?_, hlen.trans (Nat.le_succ _)⟩
        simp [repeated, run, ha, hhead]
      · exact ⟨(before, a :: rest), by simp [repeated, run, ha], le_rfl⟩

/-- Where a symbol of the class stands, `[…]+` matches. -/
theorem head_many (p : α → Bool) {a : α} (ha : p a = true) (before : Option α) (rest : List α) :
    ∃ next, (run (many 1 (one p)) (before, a :: rest)).head? = some next ∧ next.2.length < (a :: rest).length := by
  obtain ⟨next, hhead, hlen⟩ := head_repeated p rest.length (some a, rest)
  refine ⟨next, ?_, Nat.lt_succ_of_le hlen⟩
  simp [run, repeated, ha, hhead]

theorem pieces_class (p : α → Bool) (fuel : ℕ) (at' : Position α) {a : α}
    (h : Sum.inr a ∈ pieces (many 1 (one p)) fuel at') : p a = false := by
  induction fuel generalizing at' with
  | zero => cases h
  | succ fuel ih =>
    obtain ⟨before, rest⟩ := at'
    simp only [pieces] at h
    split at h
    · rcases List.mem_cons.1 h with h | h
      · cases h
      · exact ih _ h
    · next hnone =>
      cases rest with
      | nil => cases h
      | cons b rest =>
        rcases List.mem_cons.1 h with h | h
        · cases h
          by_contra ha
          obtain ⟨next, hhead, hlen⟩ := head_many p (Bool.eq_true_of_not_eq_false ha) before rest
          rw [hhead, Option.filter_some, if_pos (by simpa using hlen)] at hnone
          cases hnone
        · exact ih _ h

/-- After `text.replace(/[…]+/g, by)` a symbol of the class comes from the replacement only. -/
theorem mem_replaceAll_class {p : α → Bool} {by' text : List α} {a : α}
    (h : a ∈ replaceAll (many 1 (one p)) by' text) : p a = false ∨ a ∈ by' := by
  obtain ⟨piece, hpiece, ha⟩ := List.mem_flatMap.1 h
  cases piece with
  | inl s => exact .inr ha
  | inr b =>
    obtain rfl := List.mem_singleton.1 ha
    exact .inl (pieces_class p _ _ hpiece)

/-! ## Searching -/

/-- What does not match the empty text begins before the end of the text. -/
theorem search_lt {r : Regex α} (hempty : ∀ before, run r (before, []) = []) {text : List α} {i : ℕ}
    (h : search r text = some i) : i < text.length := by
  have hfind : ∀ (text : List α) (before : Option α) (n : ℕ), search.find r before n text = some i →
      i < n + text.length := by
    intro text
    induction text with
    | nil =>
      intro before n h
      rw [search.find, hempty before] at h
      exact nomatch h
    | cons a rest ih =>
      intro before n h
      rw [search.find] at h
      split_ifs at h with hnone
      · have := ih _ _ h
        rw [List.length_cons]
        omega
      · obtain rfl := Option.some.inj h
        exact Nat.lt_add_of_pos_right (Nat.succ_pos _)
  have := hfind text none 0 h
  omega

/-! ## Building blocks -/

def seqs (rs : List (Regex α)) : Regex α := rs.foldr seq empty

def anyOf (rs : List (Regex α)) : Regex α := rs.foldr alt (one fun _ => false)

def opt (r : Regex α) : Regex α := rep 0 1 r

/-- `(?<![…])`. -/
def notAfter (p : α → Bool) : Regex α := look fun before _ => !before.any p

/-- `$`. -/
def atEnd : Regex α := look fun _ next => next.isNone

/-- `(?![…])`. -/
def notBefore (p : α → Bool) : Regex α := look fun _ next => !next.any p

section JavaScript

open JsText

/-- The characters of a literal. -/
def lit (s : String) : Regex UInt16 := seqs ((js s).map fun c => one (· = c))

/-- One of some literals. -/
def words (ss : List String) : Regex UInt16 := anyOf (ss.map lit)

/-- `.`: anything but a line terminator. -/
def dot : Regex UInt16 := one fun c => !oneOf "\n\r\u2028\u2029" c

def digit : Regex UInt16 := one isDigit

/-- `\s`. -/
def space : Regex UInt16 := one isSpace

/-- One of the characters. -/
def chars (s : String) : Regex UInt16 := one (oneOf s)

/-- `\b`. -/
def boundary : Regex UInt16 := look fun before next => before.any isWord != next.any isWord

end JavaScript

end Regex

end AmoAnalytics
