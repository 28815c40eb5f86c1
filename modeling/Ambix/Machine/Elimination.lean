import Mathlib.Data.Matrix.Mul
import Mathlib.Tactic.Ring

/-! Elimination by row operations. A pass scales row `k` and adds multiples of it to the other rows,
which is a multiplication from the left, so that it commutes with one from the right. -/
namespace Machine

section sweep
variable {K : Type*} [CommRing K] {n : Nat}

/-- Row `k` times `v`, and `f r` times that added to every other row `r`. -/
def rowSweep (k : Fin n) (v : K) (f : Fin n → K) (M : Matrix (Fin n) (Fin n) K) :
    Matrix (Fin n) (Fin n) K :=
  .of fun r c => if r = k then M k c*v else M r c+f r*(M k c*v)

theorem rowSweep_pivot (k : Fin n) (v : K) (f : Fin n → K) (M : Matrix (Fin n) (Fin n) K)
    (c : Fin n) : rowSweep k v f M k c = M k c*v := if_pos rfl

theorem rowSweep_other {k r : Fin n} (hr : r ≠ k) (v : K) (f : Fin n → K)
    (M : Matrix (Fin n) (Fin n) K) (c : Fin n) :
    rowSweep k v f M r c = M r c+f r*(M k c*v) := if_neg hr

theorem rowSweep_mul (k : Fin n) (v : K) (f : Fin n → K) (M N : Matrix (Fin n) (Fin n) K) :
    rowSweep k v f M*N = rowSweep k v f (M*N) := by
  ext r c
  by_cases hr : r = k
  · subst hr
    rw [rowSweep_pivot, Matrix.mul_apply, Matrix.mul_apply, Finset.sum_mul]
    refine Finset.sum_congr rfl fun j _ => ?_
    rw [rowSweep_pivot]
    ring
  · rw [rowSweep_other hr, Matrix.mul_apply, Matrix.mul_apply, Matrix.mul_apply, Finset.sum_mul,
      Finset.mul_sum, ← Finset.sum_add_distrib]
    refine Finset.sum_congr rfl fun j _ => ?_
    rw [rowSweep_other hr]
    ring

/-- The first `k` columns are those of the identity. -/
def Reduced (k : Nat) (M : Matrix (Fin n) (Fin n) K) : Prop :=
  ∀ r c : Fin n, (c : Nat) < k → M r c = if r = c then 1 else 0

theorem Reduced.zero (M : Matrix (Fin n) (Fin n) K) : Reduced 0 M :=
  fun _ c hc => absurd hc (Nat.not_lt_zero c)

/-- A sweep with the inverse of the pivot clears one more column. -/
theorem Reduced.step {k : Fin n} {v : K} {M : Matrix (Fin n) (Fin n) K} (h : Reduced k M)
    (hv : M k k*v = 1) : Reduced (k+1) (rowSweep k v (fun r => -M r k) M) := by
  intro r c hc
  by_cases hck : c = k
  · subst hck
    by_cases hr : r = c
    · rw [if_pos hr, hr, rowSweep_pivot, hv]
    · rw [if_neg hr, rowSweep_other hr, hv, mul_one, add_neg_cancel]
  · -- the pivot row has only zeros left of the pivot
    have hlt : (c : Nat) < k := by
      have hne : (c : Nat) ≠ k := fun he => hck (Fin.ext he)
      omega
    have hrow : M k c = 0 := by
      rw [h k c hlt, if_neg (Ne.symm hck)]
    by_cases hr : r = k
    · rw [hr, rowSweep_pivot, hrow, zero_mul, if_neg (Ne.symm hck)]
    · rw [rowSweep_other hr, hrow, zero_mul, mul_zero, add_zero, h r c hlt]

theorem Reduced.eq_one {M : Matrix (Fin n) (Fin n) K} (h : Reduced n M) : M = 1 := by
  ext r c
  rw [h r c c.isLt, Matrix.one_apply]

end sweep
end Machine
