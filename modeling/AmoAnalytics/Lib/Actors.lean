import Mathlib

/-!
# Lists of actors

The actors of a system are a list, and a step replaces one of them or appends new ones. The lemmas say which
actors a list has after such a step, and how a property of all actors or of all pairs goes through it.
-/

namespace AmoAnalytics.Actors

variable {ℓ : Type*} {actors added : List ℓ} {i j : ℕ} {a b : ℓ}

/-- An actor after the actor `i` has been replaced. -/
theorem getElem?_set_cases (h : (actors.set i a)[j]? = some b) :
    (j = i ∧ b = a) ∨ (j ≠ i ∧ actors[j]? = some b) := by
  by_cases hj : j = i
  · subst hj
    obtain ⟨-, rfl⟩ := List.getElem?_eq_some_iff.1 h
    exact Or.inl ⟨rfl, List.getElem_set_self _⟩
  · refine Or.inr ⟨hj, ?_⟩
    rw [← h]
    exact (List.getElem?_set_ne (Ne.symm hj)).symm

theorem getElem?_set_self_of_some (h : actors[i]? = some b) : (actors.set i a)[i]? = some a := by
  obtain ⟨hlt, -⟩ := List.getElem?_eq_some_iff.1 h
  exact List.getElem?_set_self hlt

/-- An actor after others were appended. -/
theorem getElem?_append_cases (h : (actors ++ added)[j]? = some b) :
    actors[j]? = some b ∨ (actors.length ≤ j ∧ b ∈ added) := by
  rcases Nat.lt_or_ge j actors.length with hlt | hge
  · exact Or.inl (by rwa [List.getElem?_append_left hlt] at h)
  · rw [List.getElem?_append_right hge] at h
    exact Or.inr ⟨hge, List.mem_of_getElem? h⟩

theorem getElem?_append_of_some (h : actors[j]? = some b) : (actors ++ added)[j]? = some b := by
  obtain ⟨hlt, -⟩ := List.getElem?_eq_some_iff.1 h
  exact (List.getElem?_append_left hlt).trans h

/-- A relation between any two different actors. -/
def Pairs (R : ℓ → ℓ → Prop) (actors : List ℓ) : Prop :=
  ∀ (i j : ℕ) (a b : ℓ), i ≠ j → actors[i]? = some a → actors[j]? = some b → R a b

variable {R : ℓ → ℓ → Prop}

theorem pairs_nil : Pairs R [] := fun _ _ _ _ _ h => nomatch h

/-- A replaced actor that every other one is related to keeps the relation. -/
theorem Pairs.set (h : Pairs R actors)
    (hnew : ∀ (j : ℕ) (b : ℓ), j ≠ i → actors[j]? = some b → R a b ∧ R b a) : Pairs R (actors.set i a) := by
  intro j k b c hjk hj hk
  rcases getElem?_set_cases hj with ⟨rfl, rfl⟩ | ⟨hji, hj'⟩
  · rcases getElem?_set_cases hk with ⟨rfl, -⟩ | ⟨hki, hk'⟩
    · exact absurd rfl hjk
    · exact (hnew k c hki hk').1
  · rcases getElem?_set_cases hk with ⟨rfl, rfl⟩ | ⟨-, hk'⟩
    · exact (hnew j b hji hj').2
    · exact h j k b c hjk hj' hk'

/-- A new actor that every other one is related to keeps the relation. -/
theorem Pairs.append (h : Pairs R actors) (hnew : ∀ b ∈ actors, R a b ∧ R b a) :
    Pairs R (actors ++ [a]) := by
  intro j k b c hjk hj hk
  obtain ⟨hjlt, -⟩ := List.getElem?_eq_some_iff.1 hj
  obtain ⟨hklt, -⟩ := List.getElem?_eq_some_iff.1 hk
  rw [List.length_append, List.length_singleton] at hjlt hklt
  rcases getElem?_append_cases hj with hj' | ⟨hjle, hj'⟩
  · rcases getElem?_append_cases hk with hk' | ⟨-, hk'⟩
    · exact h j k b c hjk hj' hk'
    · obtain rfl := List.mem_singleton.1 hk'
      exact (hnew b (List.mem_of_getElem? hj')).2
  · obtain rfl := List.mem_singleton.1 hj'
    rcases getElem?_append_cases hk with hk' | ⟨hkle, -⟩
    · exact (hnew c (List.mem_of_getElem? hk')).1
    · omega

/-- What holds of the new actor and of every other one holds of all. -/
theorem forall_mem_set {P : ℓ → Prop} (ha : P a)
    (h : ∀ (j : ℕ) (b : ℓ), j ≠ i → actors[j]? = some b → P b) :
    ∀ b ∈ actors.set i a, P b := by
  intro b hb
  obtain ⟨j, hj⟩ := List.mem_iff_getElem?.1 hb
  rcases getElem?_set_cases hj with ⟨-, rfl⟩ | ⟨hne, hj⟩
  · exact ha
  · exact h j b hne hj

end AmoAnalytics.Actors
