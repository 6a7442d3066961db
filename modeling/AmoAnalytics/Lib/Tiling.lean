import Mathlib

/-!
# Consecutive intervals

A list of intervals of integers, each with its two ends, tiles a range when each interval begins right after the one
before it. Such intervals are disjoint and cover exactly the range.
-/

namespace AmoAnalytics.Tiling

/-- The intervals follow each other without a gap, from `a` up to but not including `b`; none is empty. -/
def Tiles : ℤ → List (ℤ × ℤ) → ℤ → Prop
  | a, [], b => a = b
  | a, w :: ws, b => w.1 = a ∧ w.1 ≤ w.2 ∧ Tiles (w.2 + 1) ws b

variable {a b c x : ℤ} {w : ℤ × ℤ} {ws vs : List (ℤ × ℤ)}

@[simp] theorem tiles_nil : Tiles a [] b ↔ a = b := Iff.rfl

@[simp] theorem tiles_cons : Tiles a (w :: ws) b ↔ w.1 = a ∧ w.1 ≤ w.2 ∧ Tiles (w.2 + 1) ws b := Iff.rfl

theorem Tiles.append (h : Tiles a ws b) (h' : Tiles b vs c) : Tiles a (ws ++ vs) c := by
  induction ws generalizing a with
  | nil =>
    obtain rfl : a = b := h
    exact h'
  | cons w ws ih => exact ⟨h.1, h.2.1, ih h.2.2⟩

theorem Tiles.le (h : Tiles a ws b) : a ≤ b := by
  induction ws generalizing a with
  | nil => exact (show a = b from h).le
  | cons w ws ih =>
    have hrest := ih h.2.2
    have hfirst := h.1
    have hnonempty := h.2.1
    omega

/-- The intervals cover exactly the range. -/
theorem Tiles.covers (h : Tiles a ws b) : (∃ w ∈ ws, w.1 ≤ x ∧ x ≤ w.2) ↔ a ≤ x ∧ x < b := by
  induction ws generalizing a with
  | nil =>
    obtain rfl : a = b := h
    simp
  | cons w ws ih =>
    obtain ⟨rfl, hnonempty, hrest⟩ := h
    have hle := hrest.le
    rw [List.exists_mem_cons_iff, ih hrest]
    omega

theorem Tiles.bounds (h : Tiles a ws b) (hw : w ∈ ws) : a ≤ w.1 ∧ w.1 ≤ w.2 ∧ w.2 < b := by
  induction ws generalizing a with
  | nil => cases hw
  | cons v ws ih =>
    obtain ⟨rfl, hnonempty, hrest⟩ := h
    have hle := hrest.le
    rcases List.mem_cons.1 hw with rfl | hw
    · exact ⟨le_rfl, hnonempty, by omega⟩
    · obtain ⟨hfrom, hto, hend⟩ := ih hrest hw
      exact ⟨by omega, hto, hend⟩

/-- No two of the intervals meet. -/
theorem Tiles.disjoint (h : Tiles a ws b) : ws.Pairwise fun v w => v.2 < w.1 := by
  induction ws generalizing a with
  | nil => exact .nil
  | cons v ws ih =>
    refine List.pairwise_cons.2 ⟨fun w hw => ?_, ih h.2.2⟩
    have hw := (h.2.2.bounds hw).1
    omega

end AmoAnalytics.Tiling
