/-
The least-squares line through finitely many points.

A line fits when its residuals sum to zero, and also when each is weighted with the abscissa of
its point.  Such a line has the smallest sum of squares (`Fits.squares_le`), and where two
abscissas differ it is the only one that has it (`Fits.slope_unique`).  `fits_slope` solves the
two equations; the denominator of the slope is positive by `spread_pos`.
-/
import Mathlib.Algebra.Order.BigOperators.Ring.Finset
import Mathlib.Algebra.BigOperators.Field
import Mathlib.Tactic.FieldSimp
import Mathlib.Tactic.LinearCombination
import Mathlib.Tactic.Linarith
import Mathlib.Tactic.Positivity

namespace Dnss
namespace LeastSquares

open Finset

variable {ι K : Type*} [Field K] [LinearOrder K] [IsStrictOrderedRing K]
variable {s : Finset ι} {x y : ι → K} {a b : K}

/-- The sum of the squared residuals of the line with intercept `a` and slope `b`. -/
def squares (s : Finset ι) (x y : ι → K) (a b : K) : K := ∑ i ∈ s, (y i - (a + b * x i)) ^ 2

/-- No other line has a smaller sum. -/
def Best (s : Finset ι) (x y : ι → K) (a b : K) : Prop :=
  ∀ a' b', squares s x y a b ≤ squares s x y a' b'

structure Fits (s : Finset ι) (x y : ι → K) (a b : K) : Prop where
  level : ∑ i ∈ s, (y i - (a + b * x i)) = 0
  moment : ∑ i ∈ s, x i * (y i - (a + b * x i)) = 0

/-- The number of points times the sum of squares, less the square of the sum. -/
def spread (s : Finset ι) (x : ι → K) : K := s.card * ∑ i ∈ s, x i ^ 2 - (∑ i ∈ s, x i) ^ 2

def slope (s : Finset ι) (x y : ι → K) : K :=
  (s.card * ∑ i ∈ s, x i * y i - (∑ i ∈ s, x i) * ∑ i ∈ s, y i) / spread s x

def intercept (s : Finset ι) (x y : ι → K) : K :=
  (∑ i ∈ s, y i - slope s x y * ∑ i ∈ s, x i) / s.card

omit [LinearOrder K] [IsStrictOrderedRing K] in
/-- Another line is off by the square of the difference. -/
theorem Fits.squares_eq (h : Fits s x y a b) (a' b' : K) :
    squares s x y a' b' = squares s x y a b + ∑ i ∈ s, ((a - a') + (b - b') * x i) ^ 2 := by
  have hcross : ∑ i ∈ s, (y i - (a + b * x i)) * ((a - a') + (b - b') * x i) = 0 := by
    calc ∑ i ∈ s, (y i - (a + b * x i)) * ((a - a') + (b - b') * x i)
        = ∑ i ∈ s, ((a - a') * (y i - (a + b * x i)) +
            (b - b') * (x i * (y i - (a + b * x i)))) :=
          sum_congr rfl fun i _ => by ring
      _ = (a - a') * ∑ i ∈ s, (y i - (a + b * x i)) +
            (b - b') * ∑ i ∈ s, x i * (y i - (a + b * x i)) := by
          rw [sum_add_distrib, mul_sum, mul_sum]
      _ = 0 := by rw [h.level, h.moment, mul_zero, mul_zero, add_zero]
  calc squares s x y a' b'
      = ∑ i ∈ s, ((y i - (a + b * x i)) ^ 2 + ((a - a') + (b - b') * x i) ^ 2 +
          2 * ((y i - (a + b * x i)) * ((a - a') + (b - b') * x i))) :=
        sum_congr rfl fun i _ => by ring
    _ = squares s x y a b + ∑ i ∈ s, ((a - a') + (b - b') * x i) ^ 2 +
          2 * ∑ i ∈ s, (y i - (a + b * x i)) * ((a - a') + (b - b') * x i) := by
        rw [sum_add_distrib, sum_add_distrib, mul_sum, squares]
    _ = squares s x y a b + ∑ i ∈ s, ((a - a') + (b - b') * x i) ^ 2 := by
        rw [hcross, mul_zero, add_zero]

theorem Fits.squares_le (h : Fits s x y a b) : Best s x y a b := by
  intro a' b'
  have hnonneg : 0 ≤ ∑ i ∈ s, ((a - a') + (b - b') * x i) ^ 2 :=
    sum_nonneg fun i _ => sq_nonneg _
  rw [h.squares_eq a' b']
  linarith

/-- A line that is as good has the same slope. -/
theorem Fits.slope_unique (h : Fits s x y a b) {i j : ι} (hi : i ∈ s) (hj : j ∈ s)
    (hne : x i ≠ x j) {a' b' : K} (hbest : Best s x y a' b') : b' = b := by
  have hle := hbest a b
  have heq := h.squares_eq a' b'
  have hzero : ∑ k ∈ s, ((a - a') + (b - b') * x k) ^ 2 = 0 := by
    refine le_antisymm ?_ (sum_nonneg fun k _ => sq_nonneg _)
    linarith
  have hpoint : ∀ k ∈ s, (a - a') + (b - b') * x k = 0 := by
    intro k hk
    have hsquare := (sum_eq_zero_iff_of_nonneg fun k _ => sq_nonneg _).mp hzero k hk
    exact pow_eq_zero_iff two_ne_zero |>.mp hsquare
  have hdiff : (b - b') * (x i - x j) = 0 := by
    linear_combination hpoint i hi - hpoint j hj
  rcases mul_eq_zero.mp hdiff with hslope | hx
  · exact (sub_eq_zero.mp hslope).symm
  · exact absurd (sub_eq_zero.mp hx) hne

/-- The spread is positive where two abscissas differ. -/
theorem spread_pos {i j : ι} (hi : i ∈ s) (hj : j ∈ s) (hne : x i ≠ x j) : 0 < spread s x := by
  have hcard : 0 < (s.card : K) := by
    exact_mod_cast card_pos.mpr ⟨i, hi⟩
  have hsum : s.card * spread s x = ∑ k ∈ s, (s.card * x k - ∑ l ∈ s, x l) ^ 2 := by
    calc s.card * spread s x
        = s.card ^ 2 * ∑ k ∈ s, x k ^ 2 - 2 * s.card * (∑ l ∈ s, x l) * ∑ k ∈ s, x k +
            s.card * (∑ l ∈ s, x l) ^ 2 := by
          unfold spread
          ring
      _ = ∑ k ∈ s, (s.card ^ 2 * x k ^ 2 - 2 * s.card * (∑ l ∈ s, x l) * x k +
            (∑ l ∈ s, x l) ^ 2) := by
          rw [sum_add_distrib, sum_sub_distrib, mul_sum, mul_sum, sum_const, nsmul_eq_mul]
      _ = ∑ k ∈ s, (s.card * x k - ∑ l ∈ s, x l) ^ 2 := sum_congr rfl fun k _ => by ring
  have hpos : 0 < ∑ k ∈ s, (s.card * x k - ∑ l ∈ s, x l) ^ 2 := by
    by_contra hle
    have hzero : ∑ k ∈ s, (s.card * x k - ∑ l ∈ s, x l) ^ 2 = 0 :=
      le_antisymm (not_lt.mp hle) (sum_nonneg fun k _ => sq_nonneg _)
    have hpoint : ∀ k ∈ s, s.card * x k = ∑ l ∈ s, x l := by
      intro k hk
      have hsquare := (sum_eq_zero_iff_of_nonneg fun k _ => sq_nonneg _).mp hzero k hk
      exact sub_eq_zero.mp (pow_eq_zero_iff two_ne_zero |>.mp hsquare)
    exact hne (mul_left_cancel₀ hcard.ne' ((hpoint i hi).trans (hpoint j hj).symm))
  rw [← hsum] at hpos
  exact pos_of_mul_pos_right hpos hcard.le

/-- The usual formulas give a line that fits. -/
theorem fits_slope {i j : ι} (hi : i ∈ s) (hj : j ∈ s) (hne : x i ≠ x j) :
    Fits s x y (intercept s x y) (slope s x y) := by
  have hspread := (spread_pos hi hj hne).ne'
  have hcard : (s.card : K) ≠ 0 := by
    exact_mod_cast (card_pos.mpr ⟨i, hi⟩).ne'
  have hintercept : intercept s x y * s.card = ∑ i ∈ s, y i - slope s x y * ∑ i ∈ s, x i :=
    div_mul_cancel₀ _ hcard
  have hslope : slope s x y * spread s x =
      s.card * ∑ i ∈ s, x i * y i - (∑ i ∈ s, x i) * ∑ i ∈ s, y i :=
    div_mul_cancel₀ _ hspread
  refine ⟨?_, ?_⟩
  · rw [sum_sub_distrib, sum_add_distrib, ← mul_sum, sum_const, nsmul_eq_mul]
    linear_combination -hintercept
  · have hexpand : ∑ i ∈ s, x i * (y i - (intercept s x y + slope s x y * x i)) =
        ∑ i ∈ s, x i * y i - intercept s x y * ∑ i ∈ s, x i -
          slope s x y * ∑ i ∈ s, x i ^ 2 := by
      rw [mul_sum, mul_sum, ← sum_sub_distrib, ← sum_sub_distrib]
      exact sum_congr rfl fun i _ => by ring
    rw [hexpand]
    refine mul_left_cancel₀ hcard ?_
    unfold spread at hslope
    linear_combination -(∑ i ∈ s, x i) * hintercept - hslope

end LeastSquares
end Dnss
