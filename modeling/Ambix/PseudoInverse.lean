import Ambix.CholeskyLoops
import Ambix.Machine.Penrose
import Mathlib.Algebra.Order.Ring.Rat

/-! `_ambix_matrix_pinv` on a matrix of full rank whose Gram matrix is decomposed without a pivot
that is too small. -/
namespace Ambix
open Machine

section blocks
variable {K : Type} [Field K] {A : AmbixMatrix K} {r c : Nat}

theorem gram_block {n k : Nat} (hn : (wider A).rows.toNat = n) (hk : (wider A).cols.toNat = k) :
    (gram A).block n n = (wider A).block n k*((wider A).block n k).transpose := by
  subst hn hk
  ext i j
  rw [gram, AmbixMatrix.ofFn_block _ rfl rfl, Matrix.mul_apply, Matrix.of_apply, gramEntry]
  exact (Fin.sum_univ_eq_sum_range (fun k => (wider A).data i k*(wider A).data j k) _).symm

theorem gram_inMemory (hmem : InMemory A) : (wider A).rows.toNat < 2^31 := by
  rw [wider_rows]
  have hsquare : Square (gram A) (min A.rows.toNat A.cols.toNat) :=
    ⟨wider_rows A, wider_rows A⟩
  refine hsquare.lt (lt_of_le_of_lt ?_ hmem)
  rw [hsquare.1, hsquare.2]
  exact Nat.mul_le_mul_left 4 (Nat.mul_le_mul (Nat.min_le_left _ _) (Nat.min_le_right _ _))

theorem FullRank.nonzero (h : FullRank A) (hpos : 0 < min A.rows.toNat A.cols.toNat) :
    ∃ r c, A.data r c ≠ 0 := by
  by_contra hnone
  have hzero : A.block A.rows.toNat A.cols.toNat = 0 := by
    ext i j
    exact not_not.mp fun hne => hnone ⟨i, j, hne⟩
  rw [FullRank, hzero, Matrix.rank_zero] at h
  omega

end blocks

section pinv
variable {K : Type} [Field K] [LinearOrder K] [IsStrictOrderedRing K] {A : AmbixMatrix K}
  {r c : Nat}

/-- No pivot is below 1e-7 times the largest diagonal entry. -/
def LargePivots (A : AmbixMatrix K) : Prop :=
  ∀ i < (gram A).cols.toNat, ∀ j < (gram A).cols.toNat,
    gramEntry A j j*pinvEps ≤ decompPivot (gram A) pinvEps i

theorem gram_inverse (hmem : InMemory A) (hrank : FullRank A) (hlarge : LargePivots A) {n : Nat}
    (hn : (wider A).rows.toNat = n) :
    Square (amCholesky2Inverse (amCholesky2Decomp (gram A) pinvEps).matrix).1 n ∧
      (amCholesky2Inverse (amCholesky2Decomp (gram A) pinvEps).matrix).1.block n n*
        (gram A).block n n = 1 := by
  have hgram := gram_entries A
  have hsmall := gram_inMemory hmem
  rw [hn] at hgram hsmall
  have hscale := (choleskyScale_symm hgram (gramEntry_symm A)).2
  have hpositive (hpos : 0 < n) : 0 < (choleskyScale n (gram A)).1 := by
    refine LargestDiagonal.pos_iff (A := A) (hn.symm ▸ hscale) |>.mpr (hrank.nonzero ?_)
    rwa [← wider_rows, hn]
  have hkept (i : Nat) (hi : i < n) :
      (choleskyScale n (gram A)).1*pinvEps ≤ decompPivot (gram A) pinvEps i := by
    obtain hzero | ⟨j, hj, hmax⟩ := hscale.attained
    · exact absurd hzero (hpositive (by omega)).ne'
    · rw [hmax]
      exact hlarge i (hn.symm ▸ hi) j (hn.symm ▸ hj)
  exact cholesky_inverse hgram hsmall (gramEntry_symm A) hkept fun i hi =>
    (mul_pos (hpositive (by omega)) pinvEps_pos).trans_le (hkept i hi)

theorem pinv_tall (hr : A.rows.toNat = r) (hc : A.cols.toNat = c) (hmem : InMemory A)
    (hrank : FullRank A) (hlarge : LargePivots A) (dest : Option (AmbixMatrix K))
    (htall : A.rows > A.cols) : ∃ P, (matrixPinv A dest).ret = some P ∧ P.rows = A.cols ∧
      P.cols = A.rows ∧ P.block c r*A.block r c = 1 ∧ Penrose (A.block r c) (P.block c r) := by
  obtain ⟨htr, htc⟩ := matrixTranspose_size A
  have htrows : (matrixTranspose A).rows.toNat = c := by rw [htr, hc]
  have htcols : (matrixTranspose A).cols.toNat = r := by rw [htc, hr]
  have htrans := matrixTranspose_block A hr hc
  have hwider : wider A = matrixTranspose A := if_pos htall
  obtain ⟨hsquare, hinverse⟩ := gram_inverse hmem hrank hlarge (hwider ▸ htrows)
  rw [gram_block (hwider ▸ htrows) (hwider ▸ htcols), hwider, htrans] at hinverse
  obtain ⟨P, hP, hPr, hPc, hblock⟩ := matrixMultiply_block (dest.getD matrixNull) hsquare.1
    hsquare.2 htrows htcols
  have hProws : P.rows = A.cols := UInt32.toNat_inj.mp (by rw [hPr, hsquare.1, hc])
  obtain ⟨hone, hpenrose⟩ := penrose_tall hinverse
  rw [← htrans, ← hblock, htrans, Matrix.transpose_transpose] at hone hpenrose
  rw [matrixPinv_eq, matrixPinvertCholesky_eq, if_pos (decide_eq_true htall)]
  dsimp only
  exact ⟨P, hP, hProws, hPc.trans htc, hone, hpenrose⟩

theorem pinv_wide (hr : A.rows.toNat = r) (hc : A.cols.toNat = c) (hmem : InMemory A)
    (hrank : FullRank A) (hlarge : LargePivots A) (dest : Option (AmbixMatrix K))
    (hwide : ¬ A.rows > A.cols) : ∃ P, (matrixPinv A dest).ret = some P ∧ P.rows = A.cols ∧
      P.cols = A.rows ∧ A.block r c*P.block c r = 1 ∧ Penrose (A.block r c) (P.block c r) := by
  obtain ⟨htr, htc⟩ := matrixTranspose_size A
  have htrows : (matrixTranspose A).rows.toNat = c := by rw [htr, hc]
  have htcols : (matrixTranspose A).cols.toNat = r := by rw [htc, hr]
  have htrans := matrixTranspose_block A hr hc
  have hwider : wider A = A := if_neg hwide
  have hrows : (wider A).rows.toNat = r := by rw [hwider, hr]
  have hcols : (wider A).cols.toNat = c := by rw [hwider, hc]
  obtain ⟨hsquare, hinverse⟩ := gram_inverse hmem hrank hlarge hrows
  rw [gram_block hrows hcols, hwider] at hinverse
  obtain ⟨P, hP, hPr, hPc, hblock⟩ := matrixMultiply_block (dest.getD matrixNull) htrows htcols
    hsquare.1 hsquare.2
  have hPcols : P.cols = A.rows := UInt32.toNat_inj.mp (by rw [hPc, hsquare.2, hr])
  obtain ⟨hone, hpenrose⟩ := penrose_wide hinverse
  rw [← htrans, ← hblock] at hone hpenrose
  rw [matrixPinv_eq, matrixPinvertCholesky_eq, if_neg (by rwa [decide_eq_true_iff])]
  dsimp only
  exact ⟨P, hP, hPr.trans htr, hPcols, hone, hpenrose⟩

end pinv

/-- The pseudo-inverse of a matrix of full rank, into any object. -/
theorem pinv_penrose {A : AmbixMatrix ℚ} {r c : Nat} (hr : A.rows.toNat = r) (hc : A.cols.toNat = c)
    (hmem : InMemory A) (hrank : FullRank A) (hlarge : LargePivots A)
    (dest : Option (AmbixMatrix ℚ)) :
    ∃ P, (matrixPinv A dest).ret = some P ∧ P.rows = A.cols ∧ P.cols = A.rows ∧
      Penrose (A.block r c) (P.block c r) ∧
      (c ≤ r → P.block c r*A.block r c = 1) ∧ (r ≤ c → A.block r c*P.block c r = 1) := by
  by_cases htall : A.rows > A.cols
  · obtain ⟨P, hP, hrows, hcols, hone, hpenrose⟩ := pinv_tall hr hc hmem hrank hlarge dest htall
    have hlt : c < r := by
      rw [← hr, ← hc]
      exact UInt32.lt_iff_toNat_lt.mp htall
    exact ⟨P, hP, hrows, hcols, hpenrose, fun _ => hone, fun h => absurd hlt (Nat.not_lt_of_le h)⟩
  · obtain ⟨P, hP, hrows, hcols, hone, hpenrose⟩ := pinv_wide hr hc hmem hrank hlarge dest htall
    have hle : r ≤ c := by
      rw [← hr, ← hc]
      exact Nat.le_of_not_lt fun h => htall (UInt32.lt_iff_toNat_lt.mpr h)
    refine ⟨P, hP, hrows, hcols, hpenrose, fun h => ?_, fun _ => hone⟩
    obtain rfl : r = c := Nat.le_antisymm hle h
    exact mul_eq_one_comm.mp hone

/-- More rows than columns, into an object of another size. -/
theorem pinv_penrose_tall : ∃ P, (matrixPinv (AmbixMatrix.ofFn 3 2 fun r c =>
      if r ≤ c then (1 : ℚ) else 0) (some (matrixInit 3 1))).ret = some P ∧
    Penrose ((AmbixMatrix.ofFn 3 2 fun r c => if r ≤ c then (1 : ℚ) else 0).block 3 2)
      (P.block 2 3) := by
  have hblock : (AmbixMatrix.ofFn 3 2 fun r c => if r ≤ c then (1 : ℚ) else 0).block 3 2 =
      !![1, 1; 0, 1; 0, 0] := by decide +kernel
  have hgram : (!![1, 1; 0, 1; 0, 0] : Matrix (Fin 3) (Fin 2) ℚ).transpose*
      (!![1, 1; 0, 1; 0, 0] : Matrix (Fin 3) (Fin 2) ℚ) = !![1, 1; 1, 2] := by decide +kernel
  have hrank : FullRank (AmbixMatrix.ofFn 3 2 fun r c => if r ≤ c then (1 : ℚ) else 0) := by
    change (AmbixMatrix.block _ 3 2).rank = 2
    rw [hblock, ← Matrix.rank_transpose_mul_self, hgram]
    refine Matrix.rank_of_isUnit _ ((Matrix.isUnit_iff_isUnit_det _).mpr ?_)
    rw [Matrix.det_fin_two_of, one_mul, mul_one, show (2 : ℚ)-1 = 1 by norm_num]
    exact isUnit_one
  have hlarge : LargePivots (AmbixMatrix.ofFn 3 2 fun r c => if r ≤ c then (1 : ℚ) else 0) := by
    unfold LargePivots
    decide +kernel
  obtain ⟨P, hP, -, -, hpenrose, -⟩ := pinv_penrose (r := 3) (c := 2) rfl rfl
    (Nat.lt_of_sub_eq_succ rfl) hrank hlarge (some (matrixInit 3 1))
  exact ⟨P, hP, hpenrose⟩

end Ambix
