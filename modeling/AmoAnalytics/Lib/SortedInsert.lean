import Mathlib.Data.List.Sort
import Mathlib.Tactic.Common

/-!
# Adding an element to a sorted selection

`ORDER BY` as a stable insertion sort: an element added anywhere to the list is added somewhere to the sorted list,
and nothing else moves.
-/

namespace AmoAnalytics.SortedInsert

variable {α : Type*} {r : α → α → Prop} [DecidableRel r]

/-- `inserted` is `base` with the element added. -/
def Adds (x : α) (base inserted : List α) : Prop :=
  ∃ before after, base = before ++ after ∧ inserted = before ++ x :: after

theorem adds_cons (x : α) (base : List α) : Adds x base (x :: base) := ⟨[], base, rfl, rfl⟩

theorem Adds.cons {x : α} {base inserted : List α} (h : Adds x base inserted) (y : α) :
    Adds x (y :: base) (y :: inserted) := by
  obtain ⟨before, after, rfl, rfl⟩ := h
  exact ⟨y :: before, after, rfl, rfl⟩

theorem adds_orderedInsert (x : α) (base : List α) : Adds x base (base.orderedInsert r x) := by
  induction base with
  | nil => exact ⟨[], [], rfl, rfl⟩
  | cons y base ih =>
    rw [List.orderedInsert_cons]
    split
    · exact adds_cons x _
    · exact ih.cons y

variable [IsTrans α r]

/-- Another element goes to its place whether or not the first one is there. -/
theorem Adds.orderedInsert {x : α} {base inserted : List α} (h : Adds x base inserted) (hsorted : inserted.Pairwise r)
    (y : α) : Adds x (base.orderedInsert r y) (inserted.orderedInsert r y) := by
  obtain ⟨before, after, rfl, rfl⟩ := h
  induction before with
  | nil =>
    rw [List.nil_append, List.nil_append, List.orderedInsert_cons]
    split
    · next hyx =>
      -- `y` stands before `x`, hence before what follows
      cases after with
      | nil => exact ⟨[y], [], rfl, rfl⟩
      | cons z after =>
        have hxz : r x z := (List.pairwise_cons.1 hsorted).1 z List.mem_cons_self
        rw [List.orderedInsert_cons_of_le r after (trans_of r hyx hxz)]
        exact ⟨[y], z :: after, rfl, rfl⟩
    · exact adds_cons x _
  | cons z before ih =>
    rw [List.cons_append, List.cons_append, List.orderedInsert_cons, List.orderedInsert_cons]
    split
    · exact ⟨y :: z :: before, after, rfl, rfl⟩
    · exact (ih (List.pairwise_cons.1 hsorted).2).cons z

theorem adds_insertionSort [Std.Total r] (x : α) (l₁ l₂ : List α) :
    Adds x ((l₁ ++ l₂).insertionSort r) ((l₁ ++ x :: l₂).insertionSort r) := by
  induction l₁ with
  | nil => exact adds_orderedInsert x _
  | cons y l₁ ih =>
    rw [List.cons_append, List.cons_append, List.insertionSort_cons, List.insertionSort_cons]
    exact ih.orderedInsert (List.pairwise_insertionSort r _) y

end AmoAnalytics.SortedInsert
