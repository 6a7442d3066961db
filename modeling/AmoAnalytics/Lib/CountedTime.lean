import Mathlib

/-!
# Time counted in whole units

The instants are the integers, and the unit from `t` to `t + 1` counts when `P t`. `spent P a b` is the length of
what counts in `[a, b)`: it is additive, and an instant whose last unit counts is the least one with its time spent.
Loops that may not stop are functions of a fuel, and `Yields` says that one does.
-/

namespace AmoAnalytics.CountedTime

section Spent

variable (P : ℤ → Prop) [DecidablePred P] {a b c : ℤ}

/-- The units of `[a, b)` that count. -/
noncomputable def spent (a b : ℤ) : ℤ := ((Finset.Ico a b).filter P).card

theorem spent_add (hab : a ≤ b) (hbc : b ≤ c) : spent P a c = spent P a b + spent P b c := by
  have hdisjoint : Disjoint ((Finset.Ico a b).filter P) ((Finset.Ico b c).filter P) :=
    Finset.disjoint_filter_filter (Finset.Ico_disjoint_Ico_consecutive a b c)
  unfold spent
  rw [← Finset.Ico_union_Ico_eq_Ico hab hbc, Finset.filter_union, Finset.card_union_of_disjoint hdisjoint]
  exact Nat.cast_add _ _

variable {P}

/-- Nothing is spent where nothing counts. -/
theorem spent_eq_zero (h : ∀ t, a ≤ t → t < b → ¬ P t) : spent P a b = 0 := by
  unfold spent
  rw [Finset.filter_false_of_mem, Finset.card_empty]
  · rfl
  · intro t ht
    exact h t (Finset.mem_Ico.1 ht).1 (Finset.mem_Ico.1 ht).2

theorem spent_of_le (h : b ≤ a) : spent P a b = 0 :=
  spent_eq_zero fun _ hat htb => absurd (hat.trans_lt htb) h.not_gt

/-- Where everything counts, the whole length is spent. -/
theorem spent_eq_length (hab : a ≤ b) (h : ∀ t, a ≤ t → t < b → P t) : spent P a b = b - a := by
  unfold spent
  rw [Finset.filter_true_of_mem, Int.card_Ico]
  · exact Int.toNat_of_nonneg (sub_nonneg.2 hab)
  · intro t ht
    exact h t (Finset.mem_Ico.1 ht).1 (Finset.mem_Ico.1 ht).2

theorem spent_pos {t : ℤ} (hat : a ≤ t) (htb : t < b) (h : P t) : 0 < spent P a b :=
  Int.natCast_pos.2 (Finset.card_pos.2 ⟨t, Finset.mem_filter.2 ⟨Finset.mem_Ico.2 ⟨hat, htb⟩, h⟩⟩)

/-- An instant after a unit that counts is the least one with its time spent. -/
theorem isLeast_spent {t d : ℤ} (hat : a < t) (hlast : P (t - 1)) (hd : spent P a t = d) :
    IsLeast {u | a ≤ u ∧ spent P a u = d} t := by
  refine ⟨⟨hat.le, hd⟩, fun u hu => ?_⟩
  obtain ⟨hau, hspent⟩ := hu
  by_contra hlt
  have hmore : 0 < spent P u t := spent_pos (t := t - 1) (by omega) (by omega) hlast
  have hsum := spent_add P hau (not_le.1 hlt).le
  omega

end Spent

/-! ## Loops with a fuel -/

section Yields

variable {α : Type*} {f : ℕ → Option α} {v w : α}

/-- With enough fuel the loop stops with the value. -/
def Yields (f : ℕ → Option α) (v : α) : Prop := ∃ n, ∀ fuel, n ≤ fuel → f fuel = some v

theorem Yields.unique (h : Yields f v) (h' : Yields f w) : v = w := by
  obtain ⟨n, hn⟩ := h
  obtain ⟨m, hm⟩ := h'
  have hv := hn (max n m) (le_max_left _ _)
  have hw := hm (max n m) (le_max_right _ _)
  exact Option.some.inj (hv.symm.trans hw)

theorem Yields.iff_eq (h : Yields f v) : Yields f w ↔ v = w :=
  ⟨h.unique, fun heq => heq ▸ h⟩

end Yields

end AmoAnalytics.CountedTime
