import Mathlib

/-!
# The first of the least elements

The loop that keeps an element until a strictly smaller one comes ends with the first of the least elements.
-/

namespace AmoAnalytics.FirstLeast

variable {α κ : Type*} [LinearOrder κ]

/-- The body of the loop. -/
def keep (key : α → κ) (best : Option α) (x : α) : Option α :=
  match best with
  | none => some x
  | some b => if key x < key b then some x else some b

/-- `b` is the first of the least elements of the list. -/
def IsFirstLeast (key : α → κ) (l : List α) (b : α) : Prop :=
  ∃ before after, l = before ++ b :: after ∧ (∀ x ∈ before, key b < key x) ∧ ∀ x ∈ after, key b ≤ key x

variable {key : α → κ} {l : List α} {b : α}

theorem IsFirstLeast.le (h : IsFirstLeast key l b) {x : α} (hx : x ∈ l) : key b ≤ key x := by
  obtain ⟨before, after, rfl, hbefore, hafter⟩ := h
  rcases List.mem_append.1 hx with hx | hx
  · exact (hbefore x hx).le
  · rcases List.mem_cons.1 hx with rfl | hx
    · exact le_rfl
    · exact hafter x hx

theorem foldl_keep_append (l : List α) (x : α) :
    (l ++ [x]).foldl (keep key) none = keep key (l.foldl (keep key) none) x := by
  rw [List.foldl_append]
  rfl

theorem foldl_keep_none : l.foldl (keep key) none = none ↔ l = [] := by
  induction l using List.reverseRecOn with
  | nil => simp
  | append_singleton l x ih =>
    rw [foldl_keep_append]
    cases l.foldl (keep key) none with
    | none => simp [keep]
    | some b =>
      unfold keep
      dsimp only
      split_ifs <;> simp

theorem foldl_keep_some (h : l.foldl (keep key) none = some b) : IsFirstLeast key l b := by
  induction l using List.reverseRecOn generalizing b with
  | nil => cases h
  | append_singleton l x ih =>
    rw [foldl_keep_append] at h
    cases hbest : l.foldl (keep key) none with
    | none =>
      rw [hbest] at h
      obtain rfl : x = b := Option.some.inj h
      refine ⟨[], [], ?_, by simp, by simp⟩
      rw [foldl_keep_none.1 hbest]
    | some c =>
      have hleast := ih hbest
      rw [hbest] at h
      unfold keep at h
      dsimp only at h
      split_ifs at h with hlt
      · cases h
        exact ⟨l, [], rfl, fun y hy => hlt.trans_le (hleast.le hy), by simp⟩
      · cases h
        obtain ⟨before, after, rfl, hbefore, hafter⟩ := hleast
        refine ⟨before, after ++ [x], by simp, hbefore, fun y hy => ?_⟩
        rcases List.mem_append.1 hy with hy | hy
        · exact hafter y hy
        · rw [List.mem_singleton.1 hy]
          exact not_lt.1 hlt

/-- Where the elements of each key come in order, the first one of a key is its least. -/
theorem find?_least {ι : Type*} [DecidableEq ι] {f : α → ι} (h : l.Pairwise fun a b => f a = f b → key a ≤ key b)
    {i : ι} (hfind : (l.find? fun a => decide (f a = i)) = some b) :
    b ∈ l ∧ f b = i ∧ ∀ a ∈ l, f a = i → key b ≤ key a := by
  obtain ⟨hb, before, after, rfl, hbefore⟩ := List.find?_eq_some_iff_append.1 hfind
  have hi : f b = i := of_decide_eq_true hb
  refine ⟨by simp, hi, fun a ha hia => ?_⟩
  rcases List.mem_append.1 ha with ha | ha
  · exact absurd hia (by simpa using hbefore a ha)
  · rcases List.mem_cons.1 ha with rfl | ha
    · exact le_rfl
    · exact (List.pairwise_cons.1 (List.pairwise_append.1 h).2.1).1 a ha (hi.trans hia.symm)

/-- When the elements come with positions that never decrease, the first of the least has the least position among
those with its key. -/
theorem IsFirstLeast.position_le {T : List (ℕ × α)} (h : IsFirstLeast key (T.map Prod.snd) b)
    (hT : T.Pairwise fun x y => x.1 ≤ y.1) :
    ∃ k, (k, b) ∈ T ∧ ∀ x ∈ T, key b ≤ key x.2 ∧ (key x.2 = key b → k ≤ x.1) := by
  have hle := fun x hx => h.le (x := x) hx
  obtain ⟨before, after, hsplit, hbefore, -⟩ := h
  obtain ⟨first, rest, rfl, hfirst, hrest⟩ := List.map_eq_append_iff.1 hsplit
  obtain ⟨⟨k, c⟩, last, rfl, rfl, -⟩ := List.map_eq_cons_iff.1 hrest
  refine ⟨k, by simp, fun x hx => ⟨hle _ (List.mem_map_of_mem hx), fun hkey => ?_⟩⟩
  rcases List.mem_append.1 hx with hx | hx
  · have hlt := hbefore x.2 (hfirst ▸ List.mem_map_of_mem hx)
    exact absurd hkey hlt.ne'
  · rcases List.mem_cons.1 hx with rfl | hx
    · exact le_rfl
    · exact (List.pairwise_cons.1 (List.pairwise_append.1 hT).2.1).1 x hx

end AmoAnalytics.FirstLeast
