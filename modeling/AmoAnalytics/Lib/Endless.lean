import AmoAnalytics.Lib.Run

/-!
# Endless runs

An endless run of a step function is a sequence of states, each reached from the one before by an action. What every
step keeps holds from its first time on; a measure that no step raises becomes constant; and weak fairness turns what
stays enabled into what occurs.
-/

namespace AmoAnalytics.Run

variable {σ α : Type*} {step : σ → α → Option σ} {states : ℕ → σ} {actions : ℕ → α}

/-- The actions lead from each state to the next one. -/
def Endless (step : σ → α → Option σ) (states : ℕ → σ) (actions : ℕ → α) : Prop :=
  ∀ n, step (states n) (actions n) = some (states (n + 1))

/-- What is enabled from some time on occurs after it. -/
def WeakFair (enabled occurs : ℕ → Prop) : Prop :=
  ∀ n, (∀ m, n ≤ m → enabled m) → ∃ m, n ≤ m ∧ occurs m

namespace Endless

variable (h : Endless step states actions)

include h

theorem reachable (n : ℕ) : Reachable step (states 0) (states n) := by
  induction n with
  | zero => exact .refl _
  | succ n ih => exact ih.trans (.single trivial (h n))

/-- What every step from a reachable state keeps holds from its first time on. -/
theorem stable {P : σ → Prop} (hkeeps : ∀ s a t, Reachable step (states 0) s → step s a = some t → P s → P t)
    {n m : ℕ} (hle : n ≤ m) (hP : P (states n)) : P (states m) := by
  induction m, hle using Nat.le_induction with
  | base => exact hP
  | succ m _ ih => exact hkeeps _ _ _ (h.reachable m) (h m) ih

/-- What becomes true is made true by a step. -/
theorem exists_step {P : σ → Prop} {m : ℕ} (hnot : ¬ P (states 0)) (hP : P (states m)) :
    ∃ k < m, step (states k) (actions k) = some (states (k + 1)) ∧ ¬ P (states k) ∧ P (states (k + 1)) := by
  induction m with
  | zero => exact absurd hP hnot
  | succ m ih =>
    by_cases hm : P (states m)
    · obtain ⟨k, hk, hstep⟩ := ih hm
      exact ⟨k, by omega, hstep⟩
    · exact ⟨m, by omega, h m, hm, hP⟩

end Endless

/-- A measure that does not rise from some time on becomes constant. -/
theorem eventually_const {f : ℕ → ℕ} {n : ℕ} (h : ∀ m, n ≤ m → f (m + 1) ≤ f m) :
    ∃ k, n ≤ k ∧ ∀ m, k ≤ m → f m = f k := by
  have hanti : ∀ {a b}, n ≤ a → a ≤ b → f b ≤ f a := by
    intro a b hna hab
    induction b, hab using Nat.le_induction with
    | base => exact le_rfl
    | succ b hab ih => exact (h b (hna.trans hab)).trans ih
  have hne : {v | ∃ k, n ≤ k ∧ f k = v}.Nonempty := ⟨f n, n, le_rfl, rfl⟩
  obtain ⟨k, hk, hmin⟩ := Nat.sInf_mem hne
  refine ⟨k, hk, fun m hm => le_antisymm (hanti hk hm) ?_⟩
  rw [hmin]
  exact Nat.sInf_le ⟨m, hk.trans hm, rfl⟩

end AmoAnalytics.Run
