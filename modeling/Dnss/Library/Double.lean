/-
Floating-point numbers as a program compares them.

A double is a rational number, an infinity or not a number.  Comparisons are those of
the processor: everything that involves a NaN is false.  A decimal literal is the
nearest number with 53 significant bits, ties to even, so `0.05` is not a twentieth.

There is no arithmetic here.  `lt_trans` and `lt_irrefl` are what proofs about branches
on comparisons need, and `trunc` is the conversion to an integer.
-/
import Mathlib.Data.Rat.Floor
import Mathlib.Tactic.Linarith

namespace Dnss

inductive Double where
  | nan
  | negInf
  | posInf
  | fin (q : ℚ)
  deriving DecidableEq

namespace Double

def lt : Double → Double → Prop
  | .fin a, .fin b => a < b
  | .negInf, .fin _ => True
  | .negInf, .posInf => True
  | .fin _, .posInf => True
  | _, _ => False

instance : LT Double := ⟨lt⟩

instance decidableLt : (a b : Double) → Decidable (a < b)
  | .fin a, .fin b => inferInstanceAs (Decidable (a < b))
  | .negInf, .fin _ => isTrue trivial
  | .negInf, .posInf => isTrue trivial
  | .fin _, .posInf => isTrue trivial
  | .nan, _ => isFalse (by rintro ⟨⟩)
  | .posInf, _ => isFalse (by rintro ⟨⟩)
  | .negInf, .nan => isFalse (by rintro ⟨⟩)
  | .negInf, .negInf => isFalse (by rintro ⟨⟩)
  | .fin _, .nan => isFalse (by rintro ⟨⟩)
  | .fin _, .negInf => isFalse (by rintro ⟨⟩)

/-! ## Literals -/

instance (n : Nat) : OfNat Double n := ⟨.fin n⟩

/-- The integer nearest to `n / d`, ties to even. -/
def roundDiv (n d : Nat) : Nat :=
  if 2 * (n % d) < d then n / d
  else if d < 2 * (n % d) then n / d + 1
  else n / d + (n / d) % 2

/-- The exponent `k` that gives `n / d * 2 ^ k` 53 bits, for `n / d` below `2 ^ 52`. -/
def scaleFor (n d : Nat) : Nat :=
  let k := 52 + d.log2 - n.log2
  if n * 2 ^ k < 2 ^ 52 * d then k + 1 else k

/-- The literal `m * 10 ^ -e`, which is below `2 ^ 52`. -/
def ofDecimal (m e : Nat) : Double :=
  .fin ((roundDiv (m * 2 ^ scaleFor m (10 ^ e)) (10 ^ e) : ℚ) / 2 ^ scaleFor m (10 ^ e))

instance : OfScientific Double where
  ofScientific m negative e := if negative then ofDecimal m e else .fin (m * 10 ^ e : ℚ)

example : (0.05 : Double) = .fin (3602879701896397 / 2 ^ 56) := by decide +kernel

/-! ## Order -/

theorem lt_irrefl (a : Double) : ¬ a < a := by
  intro h
  cases a with
  | fin a =>
    have hlt : a < a := h
    linarith
  | _ => exact h

theorem lt_trans {a b c : Double} (hab : a < b) (hbc : b < c) : a < c := by
  cases a with
  | nan => cases b <;> exact hab.elim
  | posInf => cases b <;> exact hab.elim
  | negInf =>
    cases c with
    | fin c => trivial
    | posInf => trivial
    | nan => cases b <;> exact hbc.elim
    | negInf => cases b <;> exact hbc.elim
  | fin a =>
    cases b with
    | nan => exact hab.elim
    | negInf => exact hab.elim
    | posInf => cases c <;> exact hbc.elim
    | fin b =>
      cases c with
      | fin c =>
        have hab' : a < b := hab
        have hbc' : b < c := hbc
        show a < c
        linarith
      | posInf => trivial
      | nan => exact hbc.elim
      | negInf => exact hbc.elim

/-- A number does not lie below `a` and above `b` when `a` is below `b`. -/
theorem not_lt_of_gt {a b x : Double} (hab : a < b) (hx : b < x) : ¬ x < a := by
  intro hlt
  exact lt_irrefl a (lt_trans hab (lt_trans hx hlt))

/-! ## Conversion -/

/-- The integer part. -/
def trunc (q : ℚ) : Int := if 0 ≤ q then q.floor else q.ceil

theorem le_trunc {q : ℚ} {n : Int} (hn : 0 ≤ n) (h : (n : ℚ) ≤ q) : n ≤ trunc q := by
  have hq : 0 ≤ q := le_trans (by exact_mod_cast hn) h
  rw [trunc, if_pos hq]
  exact Rat.le_floor_iff.mpr h

theorem trunc_le {q : ℚ} {n : Int} (hq : 0 ≤ q) (h : q ≤ n) : trunc q ≤ n := by
  rw [trunc, if_pos hq]
  have hfloor : (q.floor : ℚ) ≤ n := le_trans (Rat.floor_le q) h
  exact_mod_cast hfloor

end Double
end Dnss
