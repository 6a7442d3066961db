import AmoAnalytics.Lib.Json

/-!
# JSON values up to the order of their keys

Two values are the same when they differ only in the order of the entries of their objects. Sorting the entries of
every object under a comparison of the keys gives one form for the same values exactly when the comparison tells the
keys of every object apart.
-/

namespace AmoAnalytics

open JsText

/-! ## Entries under one key -/

/-- Two entries with one key and related values. -/
inductive Keyed {κ α β : Type} (R : α → β → Prop) : κ × α → κ × β → Prop
  | mk {k : κ} {x : α} {y : β} (h : R x y) : Keyed R (k, x) (k, y)

theorem keys_forall₂ {κ α β : Type} {R : α → β → Prop} {xs : List (κ × α)} {ys : List (κ × β)}
    (h : List.Forall₂ (Keyed R) xs ys) : xs.map Prod.fst = ys.map Prod.fst := by
  induction h with
  | nil => rfl
  | cons hxy _ ih =>
    cases hxy
    rw [List.map_cons, List.map_cons, ih]

section Lists

variable {α β γ : Type} {R : α → β → Prop}

theorem forall₂_imp_of_mem {S : α → β → Prop} {xs : List α} {ys : List β} (h : List.Forall₂ R xs ys)
    (himp : ∀ x ∈ xs, ∀ y, R x y → S x y) : List.Forall₂ S xs ys := by
  induction h with
  | nil => exact .nil
  | cons hxy _ ih =>
    exact .cons (himp _ List.mem_cons_self _ hxy) (ih fun x hx => himp x (List.mem_cons_of_mem _ hx))

theorem forall₂_comp_of_mem {S : β → γ → Prop} {T : α → γ → Prop} {xs : List α} {ys : List β} {zs : List γ}
    (h : List.Forall₂ R xs ys) (h' : List.Forall₂ S ys zs) (hcomp : ∀ x ∈ xs, ∀ y z, R x y → S y z → T x z) :
    List.Forall₂ T xs zs := by
  induction h generalizing zs with
  | nil => cases h'; exact .nil
  | cons hxy _ ih =>
    cases h' with
    | cons hyz hrest =>
      exact .cons (hcomp _ List.mem_cons_self _ _ hxy hyz) (ih hrest fun x hx => hcomp x (List.mem_cons_of_mem _ hx))

theorem map_eq_of_forall₂ {f : α → γ} {g : β → γ} {xs : List α} {ys : List β} (h : List.Forall₂ R xs ys)
    (heq : ∀ x ∈ xs, ∀ y, R x y → f x = g y) : xs.map f = ys.map g := by
  induction h with
  | nil => rfl
  | cons hxy _ ih =>
    have hrest := ih fun x hx => heq x (List.mem_cons_of_mem _ hx)
    rw [List.map_cons, List.map_cons, heq _ List.mem_cons_self _ hxy, hrest]

end Lists

/-- In a list without repetitions two elements stand in one order only. -/
theorem not_pair_sublist_of_nodup {α : Type} {a b : α} {l : List α} (h : l.Nodup) (hab : [a, b].Sublist l) :
    ¬[b, a].Sublist l := by
  induction l with
  | nil => cases hab
  | cons c l ih =>
    obtain ⟨hc, hl⟩ := List.nodup_cons.1 h
    intro hba
    cases hab with
    | cons _ hab =>
      cases hba with
      | cons _ hba => exact ih hl hab hba
      | cons_cons _ hba => exact hc (hab.subset (by simp))
    | cons_cons _ hb =>
      cases hba with
      | cons _ hba => exact hc (hba.subset (by simp))
      | cons_cons _ ha => exact hc (ha.subset (by simp))

theorem pair_sublist_or {α : Type} {a b : α} {l : List α} (ha : a ∈ l) (hb : b ∈ l) (hne : a ≠ b) :
    [a, b].Sublist l ∨ [b, a].Sublist l := by
  induction l with
  | nil => cases ha
  | cons c l ih =>
    rcases List.mem_cons.1 ha with rfl | ha'
    · rcases List.mem_cons.1 hb with rfl | hb'
      · exact absurd rfl hne
      · exact .inl (.cons_cons _ (List.singleton_sublist.2 hb'))
    · rcases List.mem_cons.1 hb with rfl | hb'
      · exact .inr (.cons_cons _ (List.singleton_sublist.2 ha'))
      · exact (ih ha' hb').imp (.cons _) (.cons _)

/-! ## Comparisons of keys -/

/-- `a.localeCompare(b) <= 0`, a consistent comparison. -/
structure Collation where
  le : JsString → JsString → Bool
  total : ∀ a b, (le a b || le b a) = true
  trans : ∀ a b c, le a b = true → le b c = true → le a c = true

namespace Collation

variable (collation : Collation)

/-- `a.localeCompare(b) === 0`. -/
def ties (a b : JsString) : Bool := collation.le a b && collation.le b a

/-- The comparison of two entries by their keys. -/
def entryLe {α : Type} (f g : JsString × α) : Bool := collation.le f.1 g.1

def sort {α : Type} (fields : List (JsString × α)) : List (JsString × α) := fields.mergeSort collation.entryLe

theorem map_sort {α β : Type} (f : JsString × α → JsString × β) (hf : ∀ x, (f x).1 = x.1)
    (fields : List (JsString × α)) : (collation.sort fields).map f = collation.sort (fields.map f) :=
  List.map_mergeSort fun a _ b _ => by rw [entryLe, entryLe, hf, hf]

theorem keys_sort {α : Type} (fields : List (JsString × α)) :
    (collation.sort fields).map Prod.fst = (fields.map Prod.fst).mergeSort collation.le :=
  List.map_mergeSort fun _ _ _ _ => rfl

theorem pairwise_sort {α : Type} (fields : List (JsString × α)) :
    (collation.sort fields).Pairwise fun f g => collation.entryLe f g = true :=
  List.pairwise_mergeSort (fun f g h => collation.trans f.1 g.1 h.1) (fun f g => collation.total f.1 g.1) fields

/-- The comparison tells the keys of the entries apart. -/
def Separates {α : Type} (fields : List (JsString × α)) : Prop :=
  ∀ a ∈ fields.map Prod.fst, ∀ b ∈ fields.map Prod.fst, collation.ties a b = true → a = b

/-- Entries that the comparison tells apart have one sorted order. -/
theorem sort_eq_of_perm {α : Type} {xs ys : List (JsString × α)} (hperm : xs.Perm ys)
    (hkeys : (xs.map Prod.fst).Nodup) (hsep : collation.Separates xs) : collation.sort xs = collation.sort ys := by
  refine List.Perm.eq_of_pairwise (fun f g hf hg hfg hgf => ?_) (collation.pairwise_sort xs)
    (collation.pairwise_sort ys) ((List.mergeSort_perm _ _).trans (hperm.trans (List.mergeSort_perm _ _).symm))
  have hfx : f ∈ xs := List.mem_mergeSort.1 hf
  have hgx : g ∈ xs := hperm.mem_iff.2 (List.mem_mergeSort.1 hg)
  have hties : collation.ties f.1 g.1 = true := by
    rw [ties, Bool.and_eq_true]
    exact ⟨hfg, hgf⟩
  exact List.inj_on_of_nodup_map hkeys hfx hgx
    (hsep _ (List.mem_map_of_mem hfx) _ (List.mem_map_of_mem hgx) hties)

/-- When a list sorts as its reverse does, no two of its entries are tied. -/
theorem separates_of_sort_reverse {α β : Type} {xs : List (JsString × α)} {ys : List (JsString × β)}
    (hkeys : (xs.map Prod.fst).Nodup) (hys : ys.map Prod.fst = (xs.map Prod.fst).reverse)
    (h : (collation.sort ys).map Prod.fst = (collation.sort xs).map Prod.fst) : collation.Separates xs := by
  intro k hk k' hk' hties
  by_contra hne
  rw [ties, Bool.and_eq_true] at hties
  rw [keys_sort, keys_sort, hys] at h
  have hnodup : ((xs.map Prod.fst).mergeSort collation.le).Nodup := (List.mergeSort_perm _ _).nodup_iff.2 hkeys
  -- a pair keeps its order when it is sorted, and its reverse does so too
  have hpair : ∀ a b, collation.le a b = true → collation.le b a = true → ¬[a, b].Sublist (xs.map Prod.fst) := by
    intro a b hab hba hsub
    have hforward := List.pair_sublist_mergeSort collation.trans collation.total hab hsub
    have hback := List.pair_sublist_mergeSort collation.trans collation.total hba (List.reverse_sublist.2 hsub)
    rw [h] at hback
    exact not_pair_sublist_of_nodup hnodup hforward hback
  rcases pair_sublist_or hk hk' hne with hsub | hsub
  · exact hpair _ _ hties.1 hties.2 hsub
  · exact hpair _ _ hties.2 hties.1 hsub

end Collation

/-- The order of the code units, that of `sort()`. -/
def codeUnits : Collation where
  le a b := a.map UInt16.toNat ≤ b.map UInt16.toNat
  total a b := by
    rw [Bool.or_eq_true, decide_eq_true_eq, decide_eq_true_eq]
    exact le_total _ _
  trans a b c hab hbc := by
    rw [decide_eq_true_eq] at hab hbc ⊢
    exact le_trans hab hbc

theorem codeUnits_ties {a b : JsString} (h : codeUnits.ties a b = true) : a = b := by
  rw [Collation.ties, Bool.and_eq_true] at h
  have heq : a.map UInt16.toNat = b.map UInt16.toNat :=
    le_antisymm (of_decide_eq_true h.1) (of_decide_eq_true h.2)
  exact List.map_injective_iff.2 (fun _ _ => UInt16.toNat_inj.1) heq

namespace Json

/-! ## The same value -/

/-- Equality up to the order of the keys. -/
inductive Same : Json → Json → Prop
  | null : Same .null .null
  | bool (b : Bool) : Same (.bool b) (.bool b)
  | num (n : JsonNumber) : Same (.num n) (.num n)
  | str (s : JsString) : Same (.str s) (.str s)
  | arr {xs ys : List Json} (h : List.Forall₂ Same xs ys) : Same (.arr xs) (.arr ys)
  | obj {xs zs ys : List (JsString × Json)} (h : List.Forall₂ (Keyed Same) xs zs) (hperm : zs.Perm ys) :
    Same (.obj xs) (.obj ys)

theorem Same.refl (v : Json) : Same v v := by
  induction v using induct with
  | null => exact .null
  | bool b => exact .bool b
  | num n => exact .num n
  | str s => exact .str s
  | arr items ih => exact .arr (List.forall₂_same.2 ih)
  | obj fields ih => exact .obj (List.forall₂_same.2 fun field hfield => .mk (ih field hfield)) (.refl _)

theorem Same.symm {a b : Json} (h : Same a b) : Same b a := by
  induction a using induct generalizing b with
  | null => cases h; exact .null
  | bool b => cases h; exact .bool b
  | num n => cases h; exact .num n
  | str s => cases h; exact .str s
  | arr items ih =>
    cases h with
    | arr hitems =>
      exact .arr (forall₂_imp_of_mem hitems fun x hx y hxy => ih x hx hxy).flip
  | obj fields ih =>
    cases h with
    | obj hfields hperm =>
      have hback : ∀ x ∈ fields, ∀ y, Keyed Same x y → Keyed Same y x := by
        rintro x hx y ⟨hxy⟩
        exact .mk (ih _ hx hxy)
      obtain ⟨zs, hzs, hperm'⟩ := List.perm_comp_forall₂ hperm.symm (forall₂_imp_of_mem hfields hback).flip
      exact .obj hzs hperm'

theorem Same.trans {a b c : Json} (h : Same a b) (h' : Same b c) : Same a c := by
  induction a using induct generalizing b c with
  | null => cases h; exact h'
  | bool b => cases h; exact h'
  | num n => cases h; exact h'
  | str s => cases h; exact h'
  | arr items ih =>
    cases h with
    | arr hxy =>
      cases h' with
      | arr hyz => exact .arr (forall₂_comp_of_mem hxy hyz fun x hx y z hxy hyz => ih x hx hxy hyz)
  | obj fields ih =>
    cases h with
    | obj hxy hperm =>
      cases h' with
      | obj hyz hperm' =>
        obtain ⟨ws, hxw, hperm''⟩ := List.perm_comp_forall₂ hperm hyz
        refine .obj (forall₂_comp_of_mem hxy hxw ?_) (hperm''.trans hperm')
        rintro x hx y z ⟨hxy⟩ ⟨hyz⟩
        exact .mk (ih _ hx hxy hyz)

/-! ## Sorted values -/

section

variable (collation : Collation)

mutual

/-- The value with the entries of every object sorted. -/
def arrange : Json → Json
  | null => null
  | bool b => bool b
  | num n => num n
  | str s => str s
  | arr items => arr (arrangeItems items)
  | obj fields => obj (collation.sort (arrangeFields fields))

def arrangeItems : List Json → List Json
  | [] => []
  | item :: items => arrange item :: arrangeItems items

def arrangeFields : List (JsString × Json) → List (JsString × Json)
  | [] => []
  | (key, value) :: fields => (key, arrange value) :: arrangeFields fields

end

theorem arrangeItems_eq (items : List Json) : arrangeItems collation items = items.map (arrange collation) := by
  induction items with
  | nil => rfl
  | cons item items ih => rw [arrangeItems, ih, List.map_cons]

theorem arrangeFields_eq (fields : List (JsString × Json)) :
    arrangeFields collation fields = fields.map fun field => (field.1, arrange collation field.2) := by
  induction fields with
  | nil => rfl
  | cons field fields ih => rw [arrangeFields, ih, List.map_cons]

@[simp] theorem keys_arrangeFields (fields : List (JsString × Json)) :
    (arrangeFields collation fields).map Prod.fst = fields.map Prod.fst := by
  rw [arrangeFields_eq, List.map_map]
  rfl

theorem same_arrange (v : Json) : Same v (arrange collation v) := by
  induction v using induct with
  | null => exact .null
  | bool b => exact .bool b
  | num n => exact .num n
  | str s => exact .str s
  | arr items ih =>
    rw [arrange, arrangeItems_eq]
    refine .arr ?_
    rw [List.forall₂_map_right_iff, List.forall₂_same]
    exact ih
  | obj fields ih =>
    rw [arrange]
    refine .obj ?_ (List.mergeSort_perm _ _).symm
    rw [arrangeFields_eq, List.forall₂_map_right_iff, List.forall₂_same]
    exact fun field hfield => .mk (ih field hfield)

theorem distinct_arrange {v : Json} (h : Distinct v) : Distinct (arrange collation v) := by
  induction h with
  | null => exact .null
  | bool b => exact .bool b
  | num n => exact .num n
  | str s => exact .str s
  | arr _ ih =>
    rw [arrange, arrangeItems_eq]
    refine .arr fun item hitem => ?_
    obtain ⟨x, hx, rfl⟩ := List.mem_map.1 hitem
    exact ih x hx
  | obj hkeys _ ih =>
    rw [arrange]
    refine .obj ?_ fun field hfield => ?_
    · rw [Collation.sort, ((List.mergeSort_perm _ _).map Prod.fst).nodup_iff, keys_arrangeFields]
      exact hkeys
    · rw [Collation.sort, List.mem_mergeSort, arrangeFields_eq] at hfield
      obtain ⟨x, hx, rfl⟩ := List.mem_map.1 hfield
      exact ih x hx

/-! ## Texts with sorted keys -/

mutual

/-- The text of a value with the keys of every object sorted. An entry is written before the sort, which reads its
key only. -/
def sortedText : Json → JsString
  | .arr items => js "[" ++ joined (sortedItemTexts items) ++ js "]"
  | .obj fields =>
    js "\x7b" ++
      joined ((collation.sort (sortedFieldTexts fields)).map fun entry => quote entry.1 ++ js ":" ++ entry.2) ++
      js "\x7d"
  | .null => stringify .null
  | .bool b => stringify (.bool b)
  | .num n => stringify (.num n)
  | .str s => stringify (.str s)

def sortedItemTexts : List Json → List JsString
  | [] => []
  | item :: items => sortedText item :: sortedItemTexts items

def sortedFieldTexts : List (JsString × Json) → List (JsString × JsString)
  | [] => []
  | (key, value) :: fields => (key, sortedText value) :: sortedFieldTexts fields

end

theorem sortedItemTexts_eq (items : List Json) :
    sortedItemTexts collation items = items.map (sortedText collation) := by
  induction items with
  | nil => rfl
  | cons item items ih => rw [sortedItemTexts, ih, List.map_cons]

theorem sortedFieldTexts_eq (fields : List (JsString × Json)) : sortedFieldTexts collation fields =
    fields.map fun field => (field.1, sortedText collation field.2) := by
  induction fields with
  | nil => rfl
  | cons field fields ih => rw [sortedFieldTexts, ih, List.map_cons]

/-! ### It is the text of the sorted value -/

theorem sortedText_eq_stringify (v : Json) : sortedText collation v = stringify (arrange collation v) := by
  induction v using induct with
  | null => rfl
  | bool b => rfl
  | num n => rfl
  | str s => rfl
  | arr items ih =>
    have hitems : sortedItemTexts collation items = stringifyItems (arrangeItems collation items) := by
      rw [sortedItemTexts_eq, stringifyItems_eq, arrangeItems_eq, List.map_map]
      exact List.map_congr_left ih
    rw [sortedText, arrange, stringify, hitems]
  | obj fields ih =>
    have hfields : sortedFieldTexts collation fields =
        (arrangeFields collation fields).map fun field => (field.1, stringify field.2) := by
      rw [sortedFieldTexts_eq, arrangeFields_eq, List.map_map]
      exact List.map_congr_left fun field hfield => congrArg (Prod.mk field.1) (ih field hfield)
    rw [sortedText, arrange, stringify, stringifyFields_eq, hfields,
      ← collation.map_sort (fun field : JsString × Json => (field.1, stringify field.2)) (fun _ => rfl), List.map_map]
    rfl

/-- Parsing gives the value back with its keys sorted. -/
theorem parse_sortedText {v : Json} (h : Distinct v) :
    parse (sortedText collation v) = some (arrange collation v) := by
  rw [sortedText_eq_stringify]
  exact parse_stringify (distinct_arrange collation h)

theorem sortedText_eq_iff {a b : Json} (ha : Distinct a) (hb : Distinct b) :
    sortedText collation a = sortedText collation b ↔ arrange collation a = arrange collation b := by
  constructor
  · intro h
    have hparse := parse_sortedText collation ha
    rw [h, parse_sortedText collation hb] at hparse
    exact (Option.some.inj hparse).symm
  · intro h
    rw [sortedText_eq_stringify, sortedText_eq_stringify, h]

/-! ## One form for the same values -/

/-- The comparison tells the keys of every object apart. -/
inductive Untied : Json → Prop
  | null : Untied null
  | bool (b : Bool) : Untied (bool b)
  | num (n : JsonNumber) : Untied (num n)
  | str (s : JsString) : Untied (str s)
  | arr {items : List Json} (h : ∀ item ∈ items, Untied item) : Untied (arr items)
  | obj {fields : List (JsString × Json)} (hkeys : collation.Separates fields)
      (h : ∀ field ∈ fields, Untied field.2) : Untied (obj fields)

variable {collation}

theorem arrange_eq_of_same {a b : Json} (hsame : Same a b) (hdistinct : Distinct a) (huntied : Untied collation a) :
    arrange collation a = arrange collation b := by
  induction a using induct generalizing b with
  | null => cases hsame; rfl
  | bool b => cases hsame; rfl
  | num n => cases hsame; rfl
  | str s => cases hsame; rfl
  | arr items ih =>
    cases hsame with
    | arr hxy =>
      cases hdistinct with
      | arr hdistinct =>
        cases huntied with
        | arr huntied =>
          have hitems := map_eq_of_forall₂ hxy fun x hx y hxy => ih x hx hxy (hdistinct x hx) (huntied x hx)
          rw [arrange, arrange, arrangeItems_eq, arrangeItems_eq, hitems]
  | obj fields ih =>
    cases hsame with
    | @obj _ zs ys hxz hperm =>
      cases hdistinct with
      | obj hkeys hdistinct =>
        cases huntied with
        | obj hsep huntied =>
          have hfields : arrangeFields collation fields = arrangeFields collation zs := by
            rw [arrangeFields_eq, arrangeFields_eq]
            refine map_eq_of_forall₂ hxz ?_
            rintro x hx y ⟨hxy⟩
            rw [ih _ hx hxy (hdistinct _ hx) (huntied _ hx)]
          have hperm' : (arrangeFields collation fields).Perm (arrangeFields collation ys) := by
            rw [hfields, arrangeFields_eq, arrangeFields_eq]
            exact hperm.map _
          have hsep' : collation.Separates (arrangeFields collation fields) := by
            rw [Collation.Separates, keys_arrangeFields]
            exact hsep
          rw [arrange, arrange, collation.sort_eq_of_perm hperm' (by rw [keys_arrangeFields]; exact hkeys) hsep']

/-! ## The converse -/

mutual

/-- The value with the entries of every object in reverse order. -/
def reversed : Json → Json
  | null => null
  | bool b => bool b
  | num n => num n
  | str s => str s
  | arr items => arr (reversedItems items)
  | obj fields => obj (reversedFields fields).reverse

def reversedItems : List Json → List Json
  | [] => []
  | item :: items => reversed item :: reversedItems items

def reversedFields : List (JsString × Json) → List (JsString × Json)
  | [] => []
  | (key, value) :: fields => (key, reversed value) :: reversedFields fields

end

theorem reversedItems_eq (items : List Json) : reversedItems items = items.map reversed := by
  induction items with
  | nil => rfl
  | cons item items ih => rw [reversedItems, ih, List.map_cons]

theorem reversedFields_eq (fields : List (JsString × Json)) :
    reversedFields fields = fields.map fun field => (field.1, reversed field.2) := by
  induction fields with
  | nil => rfl
  | cons field fields ih => rw [reversedFields, ih, List.map_cons]

theorem keys_reversedFields (fields : List (JsString × Json)) :
    (reversedFields fields).map Prod.fst = fields.map Prod.fst := by
  rw [reversedFields_eq, List.map_map]
  rfl

theorem same_reversed (v : Json) : Same v (reversed v) := by
  induction v using induct with
  | null => exact .null
  | bool b => exact .bool b
  | num n => exact .num n
  | str s => exact .str s
  | arr items ih =>
    rw [reversed, reversedItems_eq]
    refine .arr ?_
    rw [List.forall₂_map_right_iff, List.forall₂_same]
    exact ih
  | obj fields ih =>
    rw [reversed]
    refine .obj ?_ (List.reverse_perm _).symm
    rw [reversedFields_eq, List.forall₂_map_right_iff, List.forall₂_same]
    exact fun field hfield => .mk (ih field hfield)

theorem distinct_reversed {v : Json} (h : Distinct v) : Distinct (reversed v) := by
  induction h with
  | null => exact .null
  | bool b => exact .bool b
  | num n => exact .num n
  | str s => exact .str s
  | arr _ ih =>
    rw [reversed, reversedItems_eq]
    refine .arr fun item hitem => ?_
    obtain ⟨x, hx, rfl⟩ := List.mem_map.1 hitem
    exact ih x hx
  | obj hkeys _ ih =>
    rw [reversed]
    refine .obj ?_ fun field hfield => ?_
    · rw [List.map_reverse, List.nodup_reverse, keys_reversedFields]
      exact hkeys
    · rw [List.mem_reverse, reversedFields_eq] at hfield
      obtain ⟨x, hx, rfl⟩ := List.mem_map.1 hfield
      exact ih x hx

/-- A value whose reverse sorts to the same form holds no tied keys. -/
theorem untied_of_arrange_reversed {v : Json} (hdistinct : Distinct v)
    (h : arrange collation (reversed v) = arrange collation v) : Untied collation v := by
  induction v using induct with
  | null => exact .null
  | bool b => exact .bool b
  | num n => exact .num n
  | str s => exact .str s
  | arr items ih =>
    cases hdistinct with
    | arr hdistinct =>
      rw [reversed, arrange, arrange, arrangeItems_eq, arrangeItems_eq, reversedItems_eq, List.map_map] at h
      refine .arr fun item hitem => ih item hitem (hdistinct item hitem) ?_
      exact List.map_inj_left.1 (Json.arr.inj h) item hitem
  | obj fields ih =>
    cases hdistinct with
    | obj hkeys hdistinct =>
      rw [reversed, arrange, arrange] at h
      have hsorted := Json.obj.inj h
      have hreversed : (arrangeFields collation (reversedFields fields).reverse).map Prod.fst =
          ((arrangeFields collation fields).map Prod.fst).reverse := by
        rw [keys_arrangeFields, keys_arrangeFields, List.map_reverse, keys_reversedFields]
      have hnodup : ((arrangeFields collation fields).map Prod.fst).Nodup := by
        rw [keys_arrangeFields]
        exact hkeys
      refine .obj ?_ fun field hfield => ih field hfield (hdistinct field hfield) ?_
      · have hsep := collation.separates_of_sort_reverse hnodup hreversed (congrArg (List.map Prod.fst) hsorted)
        rwa [Collation.Separates, keys_arrangeFields] at hsep
      · have hx : (field.1, arrange collation field.2) ∈ arrangeFields collation fields := by
          rw [arrangeFields_eq]
          exact List.mem_map.2 ⟨field, hfield, rfl⟩
        have hy : (field.1, arrange collation (reversed field.2)) ∈ arrangeFields collation fields := by
          rw [← (List.mergeSort_perm _ _).mem_iff, ← Collation.sort, ← hsorted, Collation.sort, List.mem_mergeSort,
            arrangeFields_eq, List.map_reverse, List.mem_reverse, reversedFields_eq, List.map_map]
          exact List.mem_map.2 ⟨field, hfield, rfl⟩
        exact congrArg Prod.snd (List.inj_on_of_nodup_map hnodup hy hx rfl)

theorem untied_codeUnits (v : Json) : Untied codeUnits v := by
  induction v using induct with
  | null => exact .null
  | bool b => exact .bool b
  | num n => exact .num n
  | str s => exact .str s
  | arr items ih => exact .arr ih
  | obj fields ih => exact .obj (fun _ _ _ _ => codeUnits_ties) ih

/-- Values are the same exactly when their texts under the order of the code units are. -/
theorem sortedText_codeUnits {a b : Json} (ha : Distinct a) (hb : Distinct b) :
    sortedText codeUnits a = sortedText codeUnits b ↔ Same a b := by
  rw [sortedText_eq_iff codeUnits ha hb]
  constructor
  · intro h
    have hsame := same_arrange codeUnits b
    rw [← h] at hsame
    exact (same_arrange codeUnits a).trans hsame.symm
  · intro h
    exact arrange_eq_of_same h ha (untied_codeUnits a)

end

end Json

end AmoAnalytics
