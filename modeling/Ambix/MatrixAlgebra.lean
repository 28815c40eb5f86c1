import Ambix.MatrixFill
import Mathlib.Algebra.BigOperators.Fin
import Mathlib.Data.Matrix.Mul

/-! The entries of a matrix object as a matrix, and what the operations of matrix.c are there. -/
namespace Ambix
open Machine

section block
variable {K : Type} [Zero K]

def AmbixMatrix.block (m : AmbixMatrix K) (r c : Nat) : Matrix (Fin r) (Fin c) K :=
  .of fun i j => m.data i j

theorem AmbixMatrix.ext_block {m m' : AmbixMatrix K} {r c : Nat} (hr : m.rows.toNat = r)
    (hc : m.cols.toNat = c) (hr' : m'.rows.toNat = r) (hc' : m'.cols.toNat = c)
    (h : m.block r c = m'.block r c) : m = m' := by
  refine ext_entries (UInt32.toNat_inj.mp (hr.trans hr'.symm))
    (UInt32.toNat_inj.mp (hc.trans hc'.symm)) fun i j hi hj => ?_
  exact congrFun (congrFun h ⟨i, hr ▸ hi⟩) ⟨j, hc ▸ hj⟩

theorem AmbixMatrix.ofFn_block {rows cols : UInt32} (f : Nat → Nat → K) {r c : Nat}
    (hr : rows.toNat = r) (hc : cols.toNat = c) :
    (ofFn rows cols f).block r c = .of fun i j => f i j := by
  subst hr hc
  ext i j
  exact ofFn_data i.isLt j.isLt

theorem matrixTranspose_block (m : AmbixMatrix K) {r c : Nat} (hr : m.rows.toNat = r)
    (hc : m.cols.toNat = c) : (matrixTranspose m).block c r = (m.block r c).transpose := by
  rw [matrixTranspose_eq]
  exact AmbixMatrix.ofFn_block _ hc hr

end block

theorem matrixMultiply_block {K : Type} [Semiring K] {left right : AmbixMatrix K}
    (dest : AmbixMatrix K) {r n c : Nat} (hr : left.rows.toNat = r) (hn : left.cols.toNat = n)
    (hn' : right.rows.toNat = n) (hc : right.cols.toNat = c) :
    ∃ m, matrixMultiply left right dest = some m ∧ m.rows = left.rows ∧ m.cols = right.cols ∧
      m.block r c = left.block r n*right.block n c := by
  subst hr hn hc
  refine ⟨_, matrixMultiply_eq left right dest (UInt32.toNat_inj.mp hn'.symm), rfl, rfl, ?_⟩
  ext i j
  rw [AmbixMatrix.ofFn_block _ rfl rfl, Matrix.mul_apply, Matrix.of_apply]
  exact (Fin.sum_univ_eq_sum_range (fun k => left.data i k*right.data k j) _).symm

theorem matrixMultiply_eq_of_block {K : Type} [Semiring K] {left right m : AmbixMatrix K}
    (dest : AmbixMatrix K) {r n c : Nat} (hr : left.rows.toNat = r) (hn : left.cols.toNat = n)
    (hn' : right.rows.toNat = n) (hc : right.cols.toNat = c) (hmr : m.rows.toNat = r)
    (hmc : m.cols.toNat = c) (h : left.block r n*right.block n c = m.block r c) :
    matrixMultiply left right dest = some m := by
  obtain ⟨product, hproduct, hpr, hpc, hblock⟩ := matrixMultiply_block dest hr hn hn' hc
  rw [hproduct]
  refine congrArg some (AmbixMatrix.ext_block ?_ ?_ hmr hmc (hblock.trans h))
  · rw [hpr, hr]
  · rw [hpc, hc]

abbrev Square {K : Type} [Zero K] (m : AmbixMatrix K) (n : Nat) : Prop :=
  m.rows.toNat = n ∧ m.cols.toNat = n

/-- The bytes of the entries can be counted, as those of every object in memory. -/
def InMemory {K : Type} [Zero K] (m : AmbixMatrix K) : Prop :=
  4*(m.rows.toNat*m.cols.toNat) < 2^64

theorem Square.lt {K : Type} [Zero K] {m : AmbixMatrix K} {n : Nat} (h : Square m n)
    (hmem : InMemory m) : n < 2^31 := by
  rw [InMemory, h.1, h.2] at hmem
  by_contra hlarge
  have hsquare := Nat.mul_le_mul (Nat.le_of_not_lt hlarge) (Nat.le_of_not_lt hlarge)
  omega

theorem square_product {K : Type} [Semiring K] {left right m : AmbixMatrix K} {n : Nat}
    (hleft : Square left n) (hright : Square right n) (hm : Square m n)
    (h : left.block n n*right.block n n = m.block n n) (dest : AmbixMatrix K) :
    matrixMultiply left right dest = some m :=
  matrixMultiply_eq_of_block dest hleft.1 hleft.2 hright.1 hright.2 hm.1 hm.2 h

theorem fillIdentity_square {K : Type} [Field K] {m : AmbixMatrix K} {n : Nat} (hm : Square m n) :
    Square (fillIdentity m) n := by
  obtain ⟨hr, hc⟩ := fillEntries_size m (fun r c => if r = c then (1 : K) else 0)
  exact ⟨(congrArg UInt32.toNat hr).trans hm.1, (congrArg UInt32.toNat hc).trans hm.2⟩

theorem fillIdentity_block {K : Type} [Field K] {m : AmbixMatrix K} {n : Nat}
    (hr : m.rows.toNat = n) (hc : m.cols.toNat = n) (hn : n < 2^31) :
    (fillIdentity m).block n n = 1 := by
  rw [fillIdentity, fillEntries_eq _ (hr ▸ hn) (hc ▸ hn), AmbixMatrix.ofFn_block _ hr hc]
  ext i j
  rw [Matrix.of_apply, Matrix.one_apply]
  exact if_congr Fin.val_inj rfl rfl

end Ambix
