import Mathlib.Algebra.Order.BigOperators.Group.List
import Mathlib.Algebra.Order.Group.Defs

/-!
# Weighted scans

A list of weighted values is read from its start until the weights that were read reach a target. On a list in the
order of its values, the value where the scan stops has at least the target's weight at or below it, and a larger
target stops no earlier.
-/

namespace AmoAnalytics.WeightedScan

variable {α M : Type*} [AddCommGroup M]

section Weight

variable [LinearOrder α] {items : List (α × M)} {x : α}

/-- The weight of the values at or below one. -/
def weightUpTo (x : α) (items : List (α × M)) : M := ((items.filter fun item => item.1 ≤ x).map Prod.snd).sum

def totalWeight (items : List (α × M)) : M := (items.map Prod.snd).sum

theorem weightUpTo_cons (item : α × M) :
    weightUpTo x (item :: items) = (if item.1 ≤ x then item.2 else 0) + weightUpTo x items := by
  unfold weightUpTo
  rw [List.filter_cons]
  simp only [decide_eq_true_eq]
  split_ifs with h
  · rw [List.map_cons, List.sum_cons]
  · rw [zero_add]

end Weight

variable [LinearOrder M]

/-- The first value at which `read` and the weights up to it reach the target. -/
def scan (target : M) : M → List (α × M) → Option α
  | _, [] => none
  | read, item :: items => if target ≤ read + item.2 then some item.1 else scan target (read + item.2) items

variable {target target' read : M} {items : List (α × M)} {x y : α}

theorem scan_cons_of_le {item : α × M} (h : target ≤ read + item.2) :
    scan target read (item :: items) = some item.1 := if_pos h

theorem scan_cons_of_lt {item : α × M} (h : read + item.2 < target) :
    scan target read (item :: items) = scan target (read + item.2) items := if_neg h.not_ge

theorem scan_mem (h : scan target read items = some x) : x ∈ items.map Prod.fst := by
  induction items generalizing read with
  | nil => exact nomatch h
  | cons item items ih =>
    rw [List.map_cons]
    rcases le_or_gt target (read + item.2) with hle | hlt
    · rw [scan_cons_of_le hle] at h
      exact Option.some.inj h ▸ List.mem_cons_self
    · rw [scan_cons_of_lt hlt] at h
      exact List.mem_cons_of_mem _ (ih h)

/-- A target within the weight of a list is reached. -/
theorem exists_scan (hne : items ≠ []) (h : target ≤ read + totalWeight items) :
    ∃ x, scan target read items = some x := by
  induction items generalizing read with
  | nil => exact absurd rfl hne
  | cons item items ih =>
    rcases le_or_gt target (read + item.2) with hle | hlt
    · exact ⟨item.1, scan_cons_of_le hle⟩
    · rw [totalWeight, List.map_cons, List.sum_cons, ← add_assoc] at h
      rw [scan_cons_of_lt hlt]
      refine ih ?_ h
      rintro rfl
      rw [List.map_nil, List.sum_nil, add_zero] at h
      exact absurd h hlt.not_ge

section Ordered

variable [LinearOrder α]

/-- A larger target stops no earlier. -/
theorem scan_mono (hsorted : items.Pairwise fun a b => a.1 ≤ b.1) (hle : target ≤ target')
    (hx : scan target read items = some x) (hy : scan target' read items = some y) : x ≤ y := by
  induction items generalizing read with
  | nil => exact nomatch hx
  | cons item items ih =>
    obtain ⟨hfirst, hrest⟩ := List.pairwise_cons.1 hsorted
    rcases le_or_gt target (read + item.2) with hstop | hgo
    · rw [scan_cons_of_le hstop] at hx
      obtain rfl := Option.some.inj hx
      have hmem := scan_mem hy
      rw [List.map_cons] at hmem
      rcases List.mem_cons.1 hmem with rfl | hmem
      · exact le_rfl
      · obtain ⟨other, hother, rfl⟩ := List.mem_map.1 hmem
        exact hfirst other hother
    · rw [scan_cons_of_lt hgo] at hx
      rw [scan_cons_of_lt (hgo.trans_le hle)] at hy
      exact ih hrest hx hy

variable [IsOrderedAddMonoid M]

theorem weightUpTo_nonneg (hweights : ∀ item ∈ items, 0 ≤ item.2) : 0 ≤ weightUpTo x items := by
  refine List.sum_nonneg fun weight hweight => ?_
  obtain ⟨item, hitem, rfl⟩ := List.mem_map.1 hweight
  exact hweights item (List.mem_filter.1 hitem).1

/-- The weight at or below the value where the scan stops reaches the target. -/
theorem le_weightUpTo (hsorted : items.Pairwise fun a b => a.1 ≤ b.1) (hweights : ∀ item ∈ items, 0 ≤ item.2)
    (h : scan target read items = some x) : target ≤ read + weightUpTo x items := by
  induction items generalizing read with
  | nil => exact nomatch h
  | cons item items ih =>
    obtain ⟨hfirst, hrest⟩ := List.pairwise_cons.1 hsorted
    obtain ⟨_, hnonneg⟩ := List.forall_mem_cons.1 hweights
    rw [weightUpTo_cons, ← add_assoc]
    rcases le_or_gt target (read + item.2) with hle | hlt
    · rw [scan_cons_of_le hle] at h
      obtain rfl := Option.some.inj h
      rw [if_pos le_rfl]
      exact hle.trans (le_add_of_nonneg_right (weightUpTo_nonneg hnonneg))
    · rw [scan_cons_of_lt hlt] at h
      obtain ⟨other, hother, rfl⟩ := List.mem_map.1 (scan_mem h)
      rw [if_pos (hfirst other hother)]
      exact ih hrest hnonneg h

end Ordered

end AmoAnalytics.WeightedScan
