import Mathlib.Algebra.BigOperators.Ring.Finset
import Mathlib.Algebra.Order.BigOperators.Group.Finset
import Mathlib.Algebra.Order.Ring.Defs
import Mathlib.Tactic.Linarith
import Mathlib.Tactic.Ring

/-!
# Weighted increments

`weightedIncrements P f n` weighs each of the first `n` increments of `P` with `f`. If `P` is the distribution of a
first event in discrete time and `f d` the probability of what has to follow an event at time `d`, this is the
probability of both.
-/

namespace AmoAnalytics.WeightedIncrements

variable {K : Type*} [CommRing K] [LinearOrder K] [IsStrictOrderedRing K]

def weightedIncrements (P f : ℕ → K) (n : ℕ) : K := ∑ d ∈ Finset.range n, (P (d + 1) - P d) * f d

variable {P Q f g : ℕ → K}

theorem weightedIncrements_nonneg (hP : Monotone P) (hf : ∀ d, 0 ≤ f d) (n : ℕ) : 0 ≤ weightedIncrements P f n :=
  Finset.sum_nonneg fun d _ => mul_nonneg (sub_nonneg.2 (hP d.le_succ)) (hf d)

/-- Weights up to one give no more than what `P` gains. -/
theorem weightedIncrements_le (hP : Monotone P) (hf : ∀ d, f d ≤ 1) (n : ℕ) :
    weightedIncrements P f n ≤ P n - P 0 := by
  rw [← Finset.sum_range_sub P n]
  exact Finset.sum_le_sum fun d _ => mul_le_of_le_one_right (sub_nonneg.2 (hP d.le_succ)) (hf d)

/-- Greater weights and more increments give more. -/
theorem weightedIncrements_mono (hP : Monotone P) (hf : ∀ d, f d ≤ g d) (hg : ∀ d, 0 ≤ g d) {n m : ℕ} (hnm : n ≤ m) :
    weightedIncrements P f n ≤ weightedIncrements P g m := by
  have hweights : weightedIncrements P f n ≤ weightedIncrements P g n :=
    Finset.sum_le_sum fun d _ => mul_le_mul_of_nonneg_left (hf d) (sub_nonneg.2 (hP d.le_succ))
  refine hweights.trans (Finset.sum_le_sum_of_subset_of_nonneg (Finset.range_mono hnm) fun d _ _ => ?_)
  exact mul_nonneg (sub_nonneg.2 (hP d.le_succ)) (hg d)

/-- Summation by parts: under falling weights the gain of `Q` over `P` counts at least with the last weight. -/
theorem weightedIncrements_gain (hf : Antitone f) (n : ℕ) (h₀ : P 0 = Q 0) (hPQ : ∀ d ≤ n, P d ≤ Q d) :
    (Q n - P n) * f n ≤ weightedIncrements Q f n - weightedIncrements P f n := by
  induction n with
  | zero => simp [weightedIncrements, h₀]
  | succ n ih =>
    have hbefore := ih fun d hd => hPQ d (hd.trans n.le_succ)
    have hweight : (Q (n + 1) - P (n + 1)) * f (n + 1) ≤ (Q (n + 1) - P (n + 1)) * f n :=
      mul_le_mul_of_nonneg_left (hf n.le_succ) (sub_nonneg.2 (hPQ _ le_rfl))
    unfold weightedIncrements at *
    rw [Finset.sum_range_succ, Finset.sum_range_succ]
    linarith [sub_mul (Q (n + 1)) (P (n + 1)) (f n), sub_mul (Q (n + 1)) (Q n) (f n),
      sub_mul (P (n + 1)) (P n) (f n), sub_mul (Q n) (P n) (f n)]

/-- Under falling weights a distribution that is nowhere lower gives no less. -/
theorem weightedIncrements_le_of_le (hf : Antitone f) (hf₀ : ∀ d, 0 ≤ f d) (n : ℕ) (h₀ : P 0 = Q 0)
    (hPQ : ∀ d ≤ n, P d ≤ Q d) : weightedIncrements P f n ≤ weightedIncrements Q f n := by
  have hgain := weightedIncrements_gain hf n h₀ hPQ
  have hlast : 0 ≤ (Q n - P n) * f n := mul_nonneg (sub_nonneg.2 (hPQ n le_rfl)) (hf₀ n)
  linarith

end AmoAnalytics.WeightedIncrements
