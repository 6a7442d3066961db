import Mathlib.Algebra.Order.Floor.Ring
import Mathlib.Algebra.Order.Round
import Mathlib.Data.Int.Log
import Mathlib.Tactic.FieldSimp
import Mathlib.Tactic.Linarith
import Mathlib.Tactic.NormNum
import Mathlib.Tactic.Push
import Mathlib.Tactic.Ring

/-!
# Rounding of decimals

Rounding to the nearest integer, to a number of places and to a number of significant digits, with a half rounded away
from zero. Each is odd. A decimal that has no more digits is not changed, and the rounded value is the nearest integer
that is not at a half towards zero (`roundAway_eq_iff`).
-/

namespace AmoAnalytics.DecimalRounding

variable {K : Type*} [Field K] [LinearOrder K] [IsStrictOrderedRing K] [FloorRing K]

-- The literals of the definitions below.
local instance atLeastTwo_two : Nat.AtLeastTwo 2 := ⟨le_rfl⟩

local instance atLeastTwo_ten : Nat.AtLeastTwo 10 := ⟨by omega⟩

def roundAway (x : K) : ℤ := if 0 ≤ x then ⌊x + 1 / 2⌋ else -⌊-x + 1 / 2⌋

theorem roundAway_neg (x : K) : roundAway (-x) = -roundAway x := by
  unfold roundAway
  rcases lt_trichotomy x 0 with h | h | h
  · rw [if_pos (neg_nonneg.2 h.le), if_neg (not_le.2 h), neg_neg]
  · have hhalf : ⌊(0 : K) + 1 / 2⌋ = 0 := Int.floor_eq_iff.2 ⟨by norm_num, by norm_num⟩
    simp only [h, neg_zero, le_refl, if_true, hhalf]
  · rw [if_neg (not_le.2 (neg_neg_of_pos h)), if_pos h.le, neg_neg]

/-- The nearest integer, and of two the one that is away from zero. -/
theorem roundAway_eq_iff {x : K} {n : ℤ} :
    roundAway x = n ↔ |(n : K) - x| < 1 / 2 ∨ |(n : K) - x| = 1 / 2 ∧ 0 < ((n : K) - x) * x := by
  have hnonneg : ∀ {x : K} {n : ℤ}, 0 ≤ x → (roundAway x = n ↔
      |(n : K) - x| < 1 / 2 ∨ |(n : K) - x| = 1 / 2 ∧ 0 < ((n : K) - x) * x) := by
    intro x n hx
    rw [roundAway, if_pos hx, Int.floor_eq_iff]
    constructor
    · rintro ⟨hlow, hhigh⟩
      rcases lt_or_eq_of_le hlow with hlt | heq
      · exact .inl (abs_lt.2 ⟨by linarith, by linarith⟩)
      · have hhalf : (n : K) - x = 1 / 2 := by linarith
        rw [hhalf]
        refine .inr ⟨abs_of_pos (by norm_num), mul_pos (by norm_num) (lt_of_le_of_ne hx fun hzero => ?_)⟩
        have htwo : ((2 * n : ℤ) : K) = ((1 : ℤ) : K) := by
          push_cast
          linarith
        have hodd := Int.cast_inj.1 htwo
        omega
    · rintro (hlt | ⟨heq, hpos⟩)
      · obtain ⟨hlow, hhigh⟩ := abs_lt.1 hlt
        exact ⟨by linarith, by linarith⟩
      · have hsign : 0 < (n : K) - x := by
          by_contra hnot
          exact absurd hpos (not_lt.2 (mul_nonpos_of_nonpos_of_nonneg (not_lt.1 hnot) hx))
        rw [abs_of_pos hsign] at heq
        exact ⟨by linarith, by linarith⟩
  rcases le_or_gt 0 x with hx | hx
  · exact hnonneg hx
  · have hneg := hnonneg (n := -n) (neg_nonneg.2 hx.le)
    have hflip : ((-n : ℤ) : K) - -x = -((n : K) - x) := by
      push_cast
      ring
    rwa [roundAway_neg, neg_inj, hflip, abs_neg, neg_mul_neg] at hneg

theorem roundAway_intCast (n : ℤ) : roundAway (n : K) = n := by
  rw [roundAway_eq_iff, sub_self, abs_zero]
  exact .inl (by norm_num)

/-! ## Places -/

def toPlaces (places : ℕ) (x : K) : K := roundAway (x * 10 ^ places) / 10 ^ places

theorem toPlaces_neg (places : ℕ) (x : K) : toPlaces places (-x) = -toPlaces places x := by
  rw [toPlaces, neg_mul, roundAway_neg, Int.cast_neg, neg_div]
  rfl

/-- A difference is rounded to the difference of the rounded values if their errors differ by less than half a unit,
or by half a unit away from zero. -/
theorem toPlaces_sub_iff (places : ℕ) (x y : K) :
    toPlaces places (x - y) = toPlaces places x - toPlaces places y ↔
      |(toPlaces places x - x) - (toPlaces places y - y)| * 10 ^ places < 1 / 2 ∨
        |(toPlaces places x - x) - (toPlaces places y - y)| * 10 ^ places = 1 / 2 ∧
          0 < ((toPlaces places x - x) - (toPlaces places y - y)) * (x - y) := by
  have hten : (0 : K) < 10 ^ places := by positivity
  have hinteger : toPlaces places (x - y) = toPlaces places x - toPlaces places y ↔
      roundAway ((x - y) * 10 ^ places) = roundAway (x * 10 ^ places) - roundAway (y * 10 ^ places) := by
    unfold toPlaces
    rw [← sub_div, div_left_inj' hten.ne', ← Int.cast_sub, Int.cast_inj]
  have herror : ((roundAway (x * 10 ^ places) - roundAway (y * 10 ^ places) : ℤ) : K) - (x - y) * 10 ^ places =
      ((toPlaces places x - x) - (toPlaces places y - y)) * 10 ^ places := by
    unfold toPlaces
    push_cast
    field_simp
    ring
  rw [hinteger, roundAway_eq_iff, herror, abs_mul, abs_of_pos hten]
  refine or_congr_right (and_congr_right fun _ => ?_)
  have hscale : ((toPlaces places x - x) - (toPlaces places y - y)) * 10 ^ places * ((x - y) * 10 ^ places) =
      ((toPlaces places x - x) - (toPlaces places y - y)) * (x - y) * (10 ^ places * 10 ^ places) := by
    ring
  rw [hscale]
  exact mul_pos_iff_of_pos_right (mul_pos hten hten)

/-! ## Significant digits -/

/-- The unit of the last of the significant digits. -/
def lastUnit (digits : ℕ) (x : K) : K := 10 ^ (Int.log 10 |x| + 1 - digits)

def toPrecision (digits : ℕ) (x : K) : K := roundAway (x / lastUnit digits x) * lastUnit digits x

theorem toPrecision_neg (digits : ℕ) (x : K) : toPrecision digits (-x) = -toPrecision digits x := by
  unfold toPrecision lastUnit
  rw [abs_neg, neg_div, roundAway_neg, Int.cast_neg, neg_mul]

/-- A decimal with no more digits is not changed. -/
theorem toPrecision_of_short {digits places : ℕ} {k : ℤ} (hk : |k| < 10 ^ digits) :
    toPrecision digits ((k : K) / 10 ^ places) = (k : K) / 10 ^ places := by
  set x : K := (k : K) / 10 ^ places with hx
  have hunit : lastUnit digits x ≠ 0 := zpow_ne_zero _ (by norm_num)
  obtain ⟨z, hz⟩ : ∃ z : ℤ, x / lastUnit digits x = z := by
    rcases eq_or_ne k 0 with rfl | hne
    · exact ⟨0, by rw [hx]; simp⟩
    have hpos : 0 < |x| := abs_pos.2 (div_ne_zero (Int.cast_ne_zero.2 hne) (by positivity))
    have habs : |x| = ((|k| : ℤ) : K) / 10 ^ places := by
      rw [hx, abs_div, abs_of_pos (by positivity : (0 : K) < 10 ^ places), Int.cast_abs]
    have hlog : Int.log 10 |x| < (digits : ℤ) - places := by
      rw [← Int.lt_zpow_iff_log_lt (by norm_num) hpos, habs]
      have hcast : ((|k| : ℤ) : K) < 10 ^ digits := by exact_mod_cast hk
      calc ((|k| : ℤ) : K) / 10 ^ places < 10 ^ digits / 10 ^ places :=
            div_lt_div_of_pos_right hcast (by positivity)
        _ = ((10 : ℕ) : K) ^ ((digits : ℤ) - places) := by
          rw [zpow_sub₀ (by norm_num), zpow_natCast, zpow_natCast]
          norm_num
    obtain ⟨m, hm⟩ := Int.eq_ofNat_of_zero_le (show 0 ≤ (digits : ℤ) - places - 1 - Int.log 10 |x| by omega)
    refine ⟨k * 10 ^ m, ?_⟩
    have hexponent : Int.log 10 |x| + 1 - digits = -((m : ℤ) + places) := by omega
    unfold lastUnit
    rw [hexponent, zpow_neg, div_inv_eq_mul, zpow_add₀ (by norm_num), zpow_natCast, zpow_natCast, hx]
    push_cast
    field_simp
  rw [toPrecision, hz, roundAway_intCast, ← hz, div_mul_cancel₀ _ hunit]

end AmoAnalytics.DecimalRounding
