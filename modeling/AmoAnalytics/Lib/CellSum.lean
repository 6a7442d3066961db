import Mathlib

/-!
# Sums over the cells of a partition

What a list holds of a whole that is divided into cells is the sum of what it holds of the cells.
-/

namespace AmoAnalytics

variable {α ι M : Type*} [AddCommMonoid M]

/-- Weighing the elements of each cell weighs those of the whole. -/
theorem sum_cells {s : Finset ι} {cell : ι → α → Prop} {whole : α → Prop} [∀ i, DecidablePred (cell i)]
    [DecidablePred whole] {l : List α} (hcover : ∀ x ∈ l, (whole x ↔ ∃ i ∈ s, cell i x))
    (hunique : ∀ i ∈ s, ∀ j ∈ s, ∀ x ∈ l, cell i x → cell j x → i = j) (w : α → M) :
    ∑ i ∈ s, ((l.filter fun x => cell i x).map w).sum = ((l.filter fun x => whole x).map w).sum := by
  induction l with
  | nil => simp
  | cons x l ih =>
    have hih := ih (fun y hy => hcover y (List.mem_cons_of_mem _ hy))
      fun i hi j hj y hy => hunique i hi j hj y (List.mem_cons_of_mem _ hy)
    have hcell : ∀ i, (((x :: l).filter fun x => cell i x).map w).sum =
        (if cell i x then w x else 0) + ((l.filter fun x => cell i x).map w).sum := by
      intro i
      by_cases hx : cell i x
      · rw [List.filter_cons_of_pos (by simpa using hx), if_pos hx, List.map_cons, List.sum_cons]
      · rw [List.filter_cons_of_neg (by simpa using hx), if_neg hx, zero_add]
    have hsum : ∑ i ∈ s, (if cell i x then w x else 0) = if whole x then w x else 0 := by
      by_cases hx : whole x
      · obtain ⟨i, hi, hcell⟩ := (hcover x List.mem_cons_self).1 hx
        rw [if_pos hx, Finset.sum_eq_single_of_mem i hi, if_pos hcell]
        exact fun j hj hne => if_neg fun h => hne (hunique j hj i hi x List.mem_cons_self h hcell)
      · rw [if_neg hx]
        exact Finset.sum_eq_zero fun i hi =>
          if_neg fun h => hx ((hcover x List.mem_cons_self).2 ⟨i, hi, h⟩)
    simp only [hcell]
    rw [Finset.sum_add_distrib, hsum, hih]
    by_cases hx : whole x
    · rw [List.filter_cons_of_pos (by simpa using hx), if_pos hx, List.map_cons, List.sum_cons]
    · rw [List.filter_cons_of_neg (by simpa using hx), if_neg hx, zero_add]

/-- Sums over a set and a list in either order. -/
theorem sum_list_comm (s : Finset ι) (f : ι → α → M) (l : List α) :
    ∑ i ∈ s, (l.map (f i)).sum = (l.map fun x => ∑ i ∈ s, f i x).sum := by
  induction l with
  | nil => simp
  | cons x l ih =>
    simp only [List.map_cons, List.sum_cons]
    rw [Finset.sum_add_distrib, ih]

/-- The sum over what a partial function gives, from the elements it is given. -/
theorem sum_filterMap {β : Type*} (f : α → Option β) (g : β → M) (l : List α) :
    ((l.filterMap f).map g).sum = (l.map fun x => ((f x).map g).getD 0).sum := by
  induction l with
  | nil => rfl
  | cons x l ih =>
    cases hx : f x with
    | none => rw [List.filterMap_cons_none hx, List.map_cons, List.sum_cons, hx, ih]; exact (zero_add _).symm
    | some y => rw [List.filterMap_cons_some hx, List.map_cons, List.map_cons, List.sum_cons, List.sum_cons, hx, ih]; rfl

end AmoAnalytics
