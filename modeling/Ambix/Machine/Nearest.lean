import Mathlib.Algebra.Order.Floor.Ring
import Mathlib.Data.Rat.Floor
import Mathlib.Tactic.Linarith
import Mathlib.Tactic.Positivity

/-! Rounding to nearest: no number of the format is nearer than the result. How ties are
broken is left open. -/
namespace Machine

section nearest
variable {R : Type*} [Field R] [LinearOrder R] [IsStrictOrderedRing R] {F : Set ℚ} {x : R} {y z : ℚ}

/-- `y` is `x`, rounded to the format `F`. -/
structure Nearest (F : Set ℚ) (x : R) (y : ℚ) : Prop where
  mem : y ∈ F
  least : ∀ z ∈ F, |x-y| ≤ |x-z|

/-- Numbers of the format stay. -/
theorem Nearest.exact (hy : y ∈ F) : Nearest F (y : R) y := by
  refine ⟨hy, fun z _ => ?_⟩
  rw [sub_self, abs_zero]
  exact abs_nonneg _

theorem Nearest.lower (h : Nearest F x y) (hz : z ∈ F) (hzx : (z : R) ≤ x) : z ≤ y := by
  by_contra hlt
  have hyz : (y : R) < z := Rat.cast_lt.mpr (not_le.mp hlt)
  have hleast := h.least z hz
  rw [abs_of_nonneg (by linarith), abs_of_nonneg (by linarith)] at hleast
  linarith

theorem Nearest.upper (h : Nearest F x y) (hz : z ∈ F) (hxz : x ≤ (z : R)) : y ≤ z := by
  by_contra hlt
  have hzy : (z : R) < y := Rat.cast_lt.mpr (not_le.mp hlt)
  have hleast := h.least z hz
  rw [abs_of_nonpos (by linarith), abs_of_nonpos (by linarith)] at hleast
  linarith

/-- Where the format is fine enough, rounding does not reach the next whole number. -/
theorem Nearest.floor {n : Nat} (h : Nearest F x y) (hn : (n : ℚ) ∈ F) (hnx : (n : R) ≤ x)
    (hz : z ∈ F) (hxz : x ≤ (z : R)) (hzn : z < n+1) : ⌊y⌋ = n := by
  apply Int.floor_eq_iff.mpr
  constructor
  · rw [Int.cast_natCast]
    exact h.lower hn (by rwa [Rat.cast_natCast])
  · rw [Int.cast_natCast]
    exact (h.upper hz hxz).trans_lt hzn

end nearest

/-- Significands of `p` bits, with any exponent. -/
def binary (p : Nat) : Set ℚ := {x | ∃ m e : ℤ, |m| < 2^p ∧ x = m*2^e}

theorem natCast_binary {n p : Nat} (h : n < 2^p) : (n : ℚ) ∈ binary p := by
  refine ⟨n, 0, ?_, by simp⟩
  rw [Nat.abs_cast]
  exact_mod_cast h

theorem pred_binary {n k p : Nat} (hn : 0 < n) (h : n*2^k ≤ 2^p) :
    (n : ℚ)-1/2^k ∈ binary p := by
  have hpos : 1 ≤ n*2^k := Nat.mul_pos hn (Nat.two_pow_pos k)
  refine ⟨(n*2^k : Nat)-1, -k, ?_, ?_⟩
  · rw [abs_of_nonneg (by omega)]
    exact_mod_cast (show ((n*2^k : Nat) : ℤ)-1 < (2^p : Nat) by omega)
  · have hk : (2 : ℚ)^k ≠ 0 := by positivity
    push_cast
    rw [zpow_neg, zpow_natCast]
    field_simp

end Machine
