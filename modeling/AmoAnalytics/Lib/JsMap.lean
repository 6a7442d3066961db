import Mathlib

/-!
# Insertion-ordered maps

The `Map` of JavaScript as the list of its entries: `set` overwrites the value of a key in place or
appends a new entry, so iteration follows the first insertion of each key.
-/

namespace AmoAnalytics.JsMap

variable {κ ν : Type*} [DecidableEq κ]

/-- `map.set(key, value)`. -/
def set (k : κ) (v : ν) : List (κ × ν) → List (κ × ν)
  | [] => [(k, v)]
  | e :: es => if e.1 = k then (k, v) :: es else e :: set k v es

/-- `map.get(key)`. -/
def get? (k : κ) (es : List (κ × ν)) : Option ν := (es.find? fun e => decide (e.1 = k)).map Prod.snd

/-- `new Map(entries)`. -/
def ofEntries (es : List (κ × ν)) : List (κ × ν) := es.foldl (fun m e => set e.1 e.2 m) []

/-- `[...map.values()]`. -/
def values (es : List (κ × ν)) : List ν := es.map Prod.snd

/-- `[...new Set(items)]`. -/
def distinct (items : List κ) : List κ := (ofEntries (items.map fun k => (k, ()))).map Prod.fst

theorem keys_set (k : κ) (v : ν) (es : List (κ × ν)) :
    (set k v es).map Prod.fst =
      if k ∈ es.map Prod.fst then es.map Prod.fst else es.map Prod.fst ++ [k] := by
  induction es with
  | nil => simp [set]
  | cons e es ih =>
    by_cases he : e.1 = k
    · simp [set, he]
    · have hk : k ≠ e.1 := fun h => he h.symm
      rw [set, if_neg he, List.map_cons, ih, List.map_cons]
      by_cases hmem : k ∈ es.map Prod.fst
      · rw [if_pos hmem, if_pos (List.mem_cons_of_mem _ hmem)]
      · rw [if_neg hmem, if_neg (by simpa [hk] using hmem), List.cons_append]

theorem mem_of_mem_set {k : κ} {v : ν} {e : κ × ν} {es : List (κ × ν)} (h : e ∈ set k v es) :
    e = (k, v) ∨ e ∈ es := by
  induction es with
  | nil => simpa [set] using h
  | cons a es ih =>
    rw [set] at h
    split_ifs at h
    · rcases List.mem_cons.1 h with h | h
      · exact Or.inl h
      · exact Or.inr (List.mem_cons_of_mem _ h)
    · rcases List.mem_cons.1 h with h | h
      · exact Or.inr (h ▸ List.mem_cons_self)
      · exact (ih h).imp_right (List.mem_cons_of_mem _)

theorem nodup_keys_set {k : κ} {v : ν} {es : List (κ × ν)} (h : (es.map Prod.fst).Nodup) :
    ((set k v es).map Prod.fst).Nodup := by
  rw [keys_set]
  split_ifs with hk
  · exact h
  · refine List.nodup_append.2 ⟨h, List.nodup_singleton k, fun a ha b hb hab => hk ?_⟩
    rwa [← List.mem_singleton.1 hb, ← hab]

/-- The entries folded into a map come from the list. -/
theorem mem_of_mem_ofEntries {e : κ × ν} {es : List (κ × ν)} (h : e ∈ ofEntries es) : e ∈ es := by
  have key : ∀ (es m : List (κ × ν)), e ∈ es.foldl (fun m e => set e.1 e.2 m) m → e ∈ es ∨ e ∈ m := by
    intro es
    induction es with
    | nil => intro m h; exact Or.inr h
    | cons a es ih =>
      intro m h
      rcases ih _ h with h | h
      · exact Or.inl (List.mem_cons_of_mem _ h)
      · rcases mem_of_mem_set h with rfl | h
        · exact Or.inl List.mem_cons_self
        · exact Or.inr h
  simpa using key es [] h

/-- A map holds each key once. -/
theorem nodup_keys_ofEntries (es : List (κ × ν)) : ((ofEntries es).map Prod.fst).Nodup := by
  have key : ∀ (es m : List (κ × ν)), (m.map Prod.fst).Nodup →
      ((es.foldl (fun m e => set e.1 e.2 m) m).map Prod.fst).Nodup := by
    intro es
    induction es with
    | nil => intro m h; exact h
    | cons a es ih => intro m h; exact ih _ (nodup_keys_set h)
  exact key es [] List.nodup_nil

/-! ## Reading after writing -/

theorem set_of_notMem {k : κ} {v : ν} {es : List (κ × ν)} (h : k ∉ es.map Prod.fst) :
    set k v es = es ++ [(k, v)] := by
  induction es with
  | nil => rfl
  | cons e es ih =>
    simp only [List.map_cons, List.mem_cons, not_or] at h
    rw [set, if_neg fun he => h.1 he.symm, ih h.2, List.cons_append]

/-- Entries with different keys make a map as they stand. -/
theorem ofEntries_of_nodup {es : List (κ × ν)} (h : (es.map Prod.fst).Nodup) : ofEntries es = es := by
  have key : ∀ es m : List (κ × ν), ((m ++ es).map Prod.fst).Nodup →
      es.foldl (fun m e => set e.1 e.2 m) m = m ++ es := by
    intro es
    induction es with
    | nil => intro m _; simp
    | cons e es ih =>
      intro m hm
      have hnot : e.1 ∉ m.map Prod.fst := by
        rw [List.map_append, List.nodup_append] at hm
        exact fun hmem => hm.2.2 _ hmem _ (by simp) rfl
      rw [List.foldl_cons, set_of_notMem hnot, ih _ (by simpa using hm), List.append_assoc, List.singleton_append]
  exact key es [] h

theorem mem_of_get? {k : κ} {v : ν} {es : List (κ × ν)} (h : get? k es = some v) : (k, v) ∈ es := by
  obtain ⟨e, he, rfl⟩ := Option.map_eq_some_iff.1 h
  have hkey := List.find?_some he
  simp only [decide_eq_true_eq] at hkey
  subst hkey
  exact List.mem_of_find?_eq_some he

theorem get?_cons (k : κ) (e : κ × ν) (es : List (κ × ν)) :
    get? k (e :: es) = if e.1 = k then some e.2 else get? k es := by
  rw [get?, List.find?_cons]
  by_cases he : e.1 = k
  · rw [if_pos he, decide_eq_true he]
    rfl
  · rw [if_neg he, decide_eq_false he]
    rfl

theorem get?_set (k k' : κ) (v : ν) (es : List (κ × ν)) :
    get? k' (set k v es) = if k = k' then some v else get? k' es := by
  induction es with
  | nil => rw [set, get?_cons]
  | cons e es ih =>
    rw [set]
    by_cases he : e.1 = k
    · rw [if_pos he, get?_cons, get?_cons, he]
      split_ifs <;> rfl
    · rw [if_neg he, get?_cons, get?_cons, ih]
      by_cases hk : k = k'
      · rw [if_pos hk, if_neg (hk ▸ he), if_pos hk]
      · rw [if_neg hk, if_neg hk]

/-- A key whose entries agree has their value. -/
theorem get?_ofEntries {k : κ} {v : ν} {es : List (κ × ν)} (hmem : (k, v) ∈ es)
    (hsame : ∀ e ∈ es, e.1 = k → e.2 = v) : get? k (ofEntries es) = some v := by
  have key : ∀ es m : List (κ × ν), (∀ e ∈ es, e.1 = k → e.2 = v) → (k, v) ∈ es ∨ get? k m = some v →
      get? k (es.foldl (fun m e => set e.1 e.2 m) m) = some v := by
    intro es
    induction es with
    | nil => exact fun m _ h => h.resolve_left List.not_mem_nil
    | cons e es ih =>
      intro m hsame h
      rw [List.foldl_cons]
      refine ih _ (fun e he => hsame e (List.mem_cons_of_mem _ he)) ?_
      rw [get?_set]
      by_cases he : e.1 = k
      · rw [if_pos he, hsame e List.mem_cons_self he]
        exact Or.inr rfl
      · rw [if_neg he]
        refine h.imp_left fun hmem => (List.mem_cons.1 hmem).resolve_left ?_
        rintro rfl
        exact he rfl
  exact key es [] hsame (Or.inl hmem)

theorem mem_distinct {items : List κ} {k : κ} : k ∈ distinct items ↔ k ∈ items := by
  have key : ∀ (items : List κ) (m : List (κ × Unit)),
      k ∈ ((items.map fun k => (k, ())).foldl (fun m e => set e.1 e.2 m) m).map Prod.fst ↔
        k ∈ m.map Prod.fst ∨ k ∈ items := by
    intro items
    induction items with
    | nil => simp
    | cons a items ih =>
      intro m
      rw [List.map_cons, List.foldl_cons, ih, keys_set, List.mem_cons]
      split_ifs with ha
      · constructor
        · exact Or.imp_right Or.inr
        · rintro (h | rfl | h)
          · exact Or.inl h
          · exact Or.inl ha
          · exact Or.inr h
      · rw [List.mem_append, List.mem_singleton, or_assoc]
  simpa [distinct, ofEntries] using key items []

/-! ## Sums over the entries -/

section Sums

variable {δ : ℕ} {k : κ}

/-- An entry that is found or begun at `init`, which weighs nothing, and grows by `δ`, makes the whole
grow by `δ`. -/
theorem sum_upsert (weight : κ × ν → ℕ) (init : ν) (f : ν → ν) {es : List (κ × ν)} (hinit : weight (k, init) = 0)
    (hgrows : weight (k, f ((get? k es).getD init)) = weight (k, (get? k es).getD init) + δ) :
    ((set k (f ((get? k es).getD init)) es).map weight).sum = (es.map weight).sum + δ := by
  induction es with
  | nil =>
    change weight (k, f init) = weight (k, init) + δ at hgrows
    change weight (k, f init) + 0 = 0 + δ
    omega
  | cons e es ih =>
    rw [get?_cons] at hgrows ⊢
    by_cases he : e.1 = k
    · rw [if_pos he] at hgrows ⊢
      rw [Option.getD_some] at hgrows ⊢
      have hentry : (k, e.2) = e := he ▸ rfl
      rw [hentry] at hgrows
      rw [set, if_pos he, List.map_cons, List.map_cons, List.sum_cons, List.sum_cons, hgrows]
      omega
    · rw [if_neg he] at hgrows ⊢
      rw [set, if_neg he, List.map_cons, List.map_cons, List.sum_cons, List.sum_cons, ih hgrows,
        Nat.add_assoc]

/-- A sum over the entries of one key is the value of the key. -/
theorem sum_of_key {g : ν → ℕ} {es : List (κ × ν)} (hkeys : (es.map Prod.fst).Nodup) (k : κ) :
    (es.map fun e => if e.1 = k then g e.2 else 0).sum = ((get? k es).map g).getD 0 := by
  induction es with
  | nil => rfl
  | cons e es ih =>
    rw [List.map_cons, List.nodup_cons] at hkeys
    rw [List.map_cons, List.sum_cons, ih hkeys.2, get?_cons]
    by_cases he : e.1 = k
    · have hnone : get? k es = none := by
        rw [get?, List.find?_eq_none.2, Option.map_none]
        intro e' he' hkey
        exact hkeys.1 (he.trans (of_decide_eq_true hkey).symm ▸ List.mem_map_of_mem he')
      rw [if_pos he, if_pos he, hnone]
      rfl
    · rw [if_neg he, if_neg he, Nat.zero_add]

end Sums

end AmoAnalytics.JsMap
