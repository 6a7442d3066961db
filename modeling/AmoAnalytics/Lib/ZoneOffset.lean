import Mathlib

/-!
# Local time by an offset function

A time zone adds an offset to every instant. The offset is constant between its transitions, so where these are far
enough apart an offset seen anywhere in a window is seen at one of its ends (`offset_eq_or`), and a local time comes
from at most two instants, one for each end (`instant_eq_or`).
-/

namespace AmoAnalytics.ZoneOffset

variable {off : ℤ → ℤ}

/-- The local time of an instant. -/
def localTime (off : ℤ → ℤ) (t : ℤ) : ℤ := t + off t

/-- The offset changes at `t`. -/
def Transition (off : ℤ → ℤ) (t : ℤ) : Prop := off (t - 1) ≠ off t

/-- Transitions are at least `gap` apart. -/
def Apart (off : ℤ → ℤ) (gap : ℤ) : Prop :=
  ∀ s t, Transition off s → Transition off t → s < t → s + gap ≤ t

/-- Between two different offsets lies a transition. -/
theorem exists_transition {a b : ℤ} (hab : a ≤ b) (hne : off a ≠ off b) : ∃ t, a < t ∧ t ≤ b ∧ Transition off t := by
  induction b, hab using Int.leInduction with
  | base => exact absurd rfl hne
  | succ b hab ih =>
    by_cases hlast : Transition off (b + 1)
    · exact ⟨b + 1, by omega, le_rfl, hlast⟩
    · have hsame : off b = off (b + 1) := by
        have h := not_not.1 hlast
        rwa [add_sub_cancel_right] at h
      obtain ⟨t, hat, htb, ht⟩ := ih (hsame ▸ hne)
      exact ⟨t, hat, by omega, ht⟩

/-- In a window no longer than the distance of the transitions every offset is that of an end. -/
theorem offset_eq_or {a b t : ℤ} (h : Apart off (b - a)) (hat : a ≤ t) (htb : t ≤ b) :
    off t = off a ∨ off t = off b := by
  by_contra hne
  obtain ⟨hleft, hright⟩ := not_or.1 hne
  obtain ⟨s, has, hst, hs⟩ := exists_transition hat (Ne.symm hleft)
  obtain ⟨u, htu, hub, hu⟩ := exists_transition htb hright
  have := h s u hs hu (by omega)
  omega

/-- The instants of a local time, where offsets are at most `w`. -/
theorem instant_eq_or {w target t : ℤ} (hbound : ∀ t, |off t| ≤ w) (h : Apart off (2 * w))
    (ht : localTime off t = target) : t = target - off (target - w) ∨ t = target - off (target + w) := by
  unfold localTime at ht
  obtain ⟨hlow, hhigh⟩ := abs_le.1 (hbound t)
  have hwindow : Apart off (target + w - (target - w)) := by
    rwa [show target + w - (target - w) = 2 * w by ring]
  rcases offset_eq_or hwindow (by omega : target - w ≤ t) (by omega) with hoff | hoff
  · exact Or.inl (by omega)
  · exact Or.inr (by omega)

/-- One transition, at `change`. -/
def oneTransition (change before after : ℤ) (t : ℤ) : ℤ := if t < change then before else after

theorem apart_oneTransition (change before after gap : ℤ) : Apart (oneTransition change before after) gap := by
  have hat : ∀ {t}, Transition (oneTransition change before after) t → t = change := by
    intro t ht
    unfold Transition oneTransition at ht
    split_ifs at ht <;> omega
  intro s t hs ht hst
  have hs := hat hs
  have ht := hat ht
  omega

/-! ## The only instant with a property -/

/-- `answer` is the only instant with the property, and there is none or more than one where it is absent. -/
structure Sole (P : ℤ → Prop) (answer : Option ℤ) : Prop where
  some_iff : ∀ t, answer = some t ↔ P t ∧ ∀ u, P u → u = t
  none_iff : answer = none ↔ ¬ ∃! t, P t

theorem Sole.of_some_iff {P : ℤ → Prop} {answer : Option ℤ}
    (h : ∀ t, answer = some t ↔ P t ∧ ∀ u, P u → u = t) : Sole P answer := by
  refine ⟨h, ?_⟩
  rw [Option.eq_none_iff_forall_ne_some]
  constructor
  · rintro hnone ⟨t, ht⟩
    exact hnone t ((h t).2 ht)
  · intro hnot t ht
    exact hnot ⟨t, (h t).1 ht⟩

theorem Sole.congr {P Q : ℤ → Prop} {answer : Option ℤ} (h : Sole P answer) (hiff : ∀ t, P t ↔ Q t) :
    Sole Q answer := by
  obtain rfl : P = Q := funext fun t => propext (hiff t)
  exact h

/-- The only member of a list, where the list holds all instants with the property. -/
theorem Sole.of_list {P : ℤ → Prop} {candidates : List ℤ} (h : ∀ t, t ∈ candidates ↔ P t) :
    Sole P (match candidates.dedup with
      | [t] => some t
      | _ => none) := by
  have hmem : ∀ t, t ∈ candidates.dedup ↔ P t := fun t => List.mem_dedup.trans (h t)
  have hnodup := candidates.nodup_dedup
  refine .of_some_iff fun t => ?_
  generalize candidates.dedup = instants at hmem hnodup
  rcases instants with _ | ⟨a, _ | ⟨b, rest⟩⟩
  · exact iff_of_false nofun fun ht => absurd ((hmem t).2 ht.1) List.not_mem_nil
  · have ha : ∀ u, P u ↔ u = a := fun u => (hmem u).symm.trans List.mem_singleton
    constructor
    · intro heq
      obtain rfl : a = t := Option.some.inj heq
      exact ⟨(ha a).2 rfl, fun u hu => (ha u).1 hu⟩
    · rintro ⟨ht, -⟩
      rw [(ha t).1 ht]
  · refine iff_of_false nofun fun ht => ?_
    have hab : a = b := (ht.2 a ((hmem a).1 List.mem_cons_self)).trans
      (ht.2 b ((hmem b).1 (List.mem_cons_of_mem a List.mem_cons_self))).symm
    exact (List.nodup_cons.1 hnodup).1 (hab ▸ List.mem_cons_self)

end AmoAnalytics.ZoneOffset
