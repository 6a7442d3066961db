import Mathlib

/-!
# Keys joined by a separator

A composite key written into one string, `a ++ ":" ++ b`, determines its parts as soon as the part
on one side of the separator is known not to contain it.
-/

namespace AmoAnalytics.JoinedKey

/-- The separator does not occur in the text. -/
def Free (c : Char) (s : String) : Prop := c ∉ s.toList

instance (c : Char) (s : String) : Decidable (Free c s) := by unfold Free; infer_instance

section Lists

variable {α : Type*} {c : α}

/-- Split at the first separator: a prefix without the separator is determined. -/
theorem append_cons_inj_left {a a' b b' : List α} (ha : c ∉ a) (ha' : c ∉ a')
    (h : a ++ c :: b = a' ++ c :: b') : a = a' ∧ b = b' := by
  induction a generalizing a' with
  | nil =>
    cases a' with
    | nil => exact ⟨rfl, by simpa using h⟩
    | cons x xs =>
      obtain ⟨rfl, -⟩ : c = x ∧ _ := by simpa using h
      exact absurd List.mem_cons_self ha'
  | cons x xs ih =>
    cases a' with
    | nil =>
      obtain ⟨rfl, -⟩ : x = c ∧ _ := by simpa using h
      exact absurd List.mem_cons_self ha
    | cons y ys =>
      obtain ⟨rfl, hrest⟩ : x = y ∧ xs ++ c :: b = ys ++ c :: b' := by simpa using h
      obtain ⟨rfl, rfl⟩ := ih (fun hm => ha (List.mem_cons_of_mem _ hm))
        (fun hm => ha' (List.mem_cons_of_mem _ hm)) hrest
      exact ⟨rfl, rfl⟩

/-- Split at the last separator: a suffix without the separator is determined. -/
theorem append_cons_inj_right {a a' b b' : List α} (hb : c ∉ b) (hb' : c ∉ b')
    (h : a ++ c :: b = a' ++ c :: b') : a = a' ∧ b = b' := by
  have hrev : b.reverse ++ c :: a.reverse = b'.reverse ++ c :: a'.reverse := by
    simpa using congrArg List.reverse h
  obtain ⟨h₁, h₂⟩ := append_cons_inj_left (by simpa using hb) (by simpa using hb') hrev
  exact ⟨List.reverse_injective h₂, List.reverse_injective h₁⟩

end Lists

variable {a a' b b' : String}

theorem colon_inj_left (ha : Free ':' a) (ha' : Free ':' a') (h : a ++ ":" ++ b = a' ++ ":" ++ b') :
    a = a' ∧ b = b' := by
  have hl : a.toList ++ ':' :: b.toList = a'.toList ++ ':' :: b'.toList := by
    simpa using congrArg String.toList h
  obtain ⟨h₁, h₂⟩ := append_cons_inj_left ha ha' hl
  exact ⟨String.ext h₁, String.ext h₂⟩

theorem colon_inj_right (hb : Free ':' b) (hb' : Free ':' b')
    (h : a ++ ":" ++ b = a' ++ ":" ++ b') : a = a' ∧ b = b' := by
  have hl : a.toList ++ ':' :: b.toList = a'.toList ++ ':' :: b'.toList := by
    simpa using congrArg String.toList h
  obtain ⟨h₁, h₂⟩ := append_cons_inj_right hb hb' hl
  exact ⟨String.ext h₁, String.ext h₂⟩

theorem append_left_cancel (h : a ++ b = a ++ b') : b = b' := by
  have hl : a.toList ++ b.toList = a.toList ++ b'.toList := by
    simpa using congrArg String.toList h
  exact String.ext (List.append_cancel_left hl)
end AmoAnalytics.JoinedKey
