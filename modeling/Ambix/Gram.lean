import Ambix.MatrixInvert
import Ambix.MatrixLoops
import Mathlib.Algebra.Order.BigOperators.Ring.Finset
import Mathlib.LinearAlgebra.Matrix.Rank
import Mathlib.Tactic.NormNum

/-! The symmetric product that `_ambix_matrix_pinv` inverts, the passes of its decomposition and the
scale of the pivots. -/
namespace Ambix
open Machine

section passes
variable {K : Type} [Field K] [LinearOrder K]

theorem Cholesky.pass_small {columns i : Nat} {eps : K} {s : Cholesky K}
    (h : s.matrix.data i i < eps) : (pass columns eps i s).divisors = s.divisors := by
  rw [pass, if_pos h]

theorem Cholesky.pass_pivot {columns i : Nat} {eps : K} {s : Cholesky K}
    (h : eps ≤ s.matrix.data i i) : pass columns eps i s =
      loopFrom (i+1) columns (choleskyColumn columns i (s.matrix.data i i))
        { s with rank := s.rank+1 } :=
  if_neg (not_lt.mpr h)

theorem amCholesky2Decomp_eq (mtx : AmbixMatrix K) (toler : K) :
    amCholesky2Decomp mtx toler =
      loop (Cholesky.pass mtx.cols.toNat ((choleskyScale mtx.cols.toNat mtx).1*toler))
        mtx.cols.toNat ⟨(choleskyScale mtx.cols.toNat mtx).2, 0, 1, []⟩ := rfl

end passes

section scale
variable {K : Type} [Field K] [LinearOrder K] {m : AmbixMatrix K} {n : Nat} {g : Nat → Nat → K}

/-- The largest diagonal entry, at least 0. -/
structure LargestDiagonal (n : Nat) (g : Nat → Nat → K) (scale : K) : Prop where
  nonneg : 0 ≤ scale
  le : ∀ i < n, g i i ≤ scale
  attained : scale = 0 ∨ ∃ i < n, scale = g i i

theorem choleskyScale_symm (hm : Entries m n g) (hsymm : ∀ r c, g r c = g c r) :
    Entries (choleskyScale n m).2 n g ∧ LargestDiagonal n g (choleskyScale n m).1 := by
  have hinv : Entries (choleskyScale n m).2 n g ∧ 0 ≤ (choleskyScale n m).1 ∧
      (∀ i < n, g i i ≤ (choleskyScale n m).1) ∧
      ((choleskyScale n m).1 = 0 ∨ ∃ i < n, (choleskyScale n m).1 = g i i) := by
    refine loop_invariant (fun k (s : K × AmbixMatrix K) => Entries s.2 n g ∧ 0 ≤ s.1 ∧
      (∀ i < k, g i i ≤ s.1) ∧ (s.1 = 0 ∨ ∃ i < n, s.1 = g i i)) ?_ ?_
    · exact ⟨hm, le_rfl, fun i hi => absurd hi (Nat.not_lt_zero i), Or.inl rfl⟩
    · rintro k ⟨scale, x⟩ hk ⟨hx, hnonneg, hle, hattained⟩
      have hcopy : Entries (loopFrom (k+1) n (fun j m => m.set j k (m.data k j)) x) n g := by
        refine loop_invariant (fun _ y => Entries y n g) hx fun t y ht hy => ?_
        refine (hy.set _ _ _).congr fun r c _ _ => ?_
        split
        · rename_i hrc
          rw [hrc.1, hrc.2, hy.data k _ hk (by omega)]
          exact hsymm _ _
        · rfl
      refine ⟨hcopy, ?_⟩
      dsimp only at hx hnonneg hle hattained ⊢
      rw [hx.data k k hk hk]
      by_cases hlarger : scale < g k k
      · rw [if_pos hlarger]
        refine ⟨hnonneg.trans hlarger.le, fun i hi => ?_, Or.inr ⟨k, hk, rfl⟩⟩
        rcases Nat.lt_succ_iff_lt_or_eq.mp hi with hlt | heq
        · exact (hle i hlt).trans hlarger.le
        · rw [heq]
      · rw [if_neg hlarger]
        refine ⟨hnonneg, fun i hi => ?_, hattained⟩
        rcases Nat.lt_succ_iff_lt_or_eq.mp hi with hlt | heq
        · exact hle i hlt
        · rw [heq]
          exact not_lt.mp hlarger
  exact ⟨hinv.1, hinv.2.1, hinv.2.2.1, hinv.2.2.2⟩

end scale

section gram
variable {K : Type} [Field K]

/-- As many independent rows or columns as there can be. -/
def FullRank (A : AmbixMatrix K) : Prop :=
  (A.block A.rows.toNat A.cols.toNat).rank = min A.rows.toNat A.cols.toNat

/-- The matrix, or its transpose if it has more rows than columns. -/
def wider (A : AmbixMatrix K) : AmbixMatrix K :=
  if A.rows > A.cols then matrixTranspose A else A

def gramEntry (A : AmbixMatrix K) (i j : Nat) : K :=
  ∑ k ∈ Finset.range (wider A).cols.toNat, (wider A).data i k*(wider A).data j k

/-- `A^T*A` if there are more rows than columns, else `A*A^T`. -/
def gram (A : AmbixMatrix K) : AmbixMatrix K :=
  .ofFn (wider A).rows (wider A).rows (gramEntry A)

theorem gramEntry_symm (A : AmbixMatrix K) (i j : Nat) : gramEntry A i j = gramEntry A j i :=
  Finset.sum_congr rfl fun _ _ => mul_comm _ _

theorem gram_entries (A : AmbixMatrix K) :
    Entries (gram A) (wider A).rows.toNat (gramEntry A) :=
  ⟨⟨rfl, rfl⟩, fun _ _ hr hc => AmbixMatrix.ofFn_data hr hc⟩

theorem matrixTranspose_data (A : AmbixMatrix K) (i j : Nat) :
    (matrixTranspose A).data i j = A.data j i := by
  rw [matrixTranspose_eq]
  by_cases hij : i < A.cols.toNat ∧ j < A.rows.toNat
  · exact if_pos hij
  · exact (if_neg hij).trans (A.blank j i fun h => hij h.symm).symm

theorem wider_nonzero {A : AmbixMatrix K} :
    (∃ r c, (wider A).data r c ≠ 0) ↔ ∃ r c, A.data r c ≠ 0 := by
  by_cases htall : A.rows > A.cols
  · rw [wider, if_pos htall]
    constructor
    · rintro ⟨r, c, h⟩
      exact ⟨c, r, by rwa [← matrixTranspose_data]⟩
    · rintro ⟨r, c, h⟩
      exact ⟨c, r, by rwa [matrixTranspose_data]⟩
  · rw [wider, if_neg htall]

theorem wider_rows (A : AmbixMatrix K) :
    (wider A).rows.toNat = min A.rows.toNat A.cols.toNat := by
  rw [wider]
  split
  · rename_i htall
    have hlt := UInt32.lt_iff_toNat_lt.mp htall
    rw [(matrixTranspose_size A).1]
    omega
  · rename_i htall
    have hle : ¬ A.cols.toNat < A.rows.toNat := fun h => htall (UInt32.lt_iff_toNat_lt.mpr h)
    omega

theorem matrixMultiply_gram (A : AmbixMatrix K) :
    (if decide (A.rows > A.cols) = true then matrixMultiply (matrixTranspose A) A matrixNull
      else matrixMultiply A (matrixTranspose A) matrixNull) = some (gram A) := by
  obtain ⟨htr, htc⟩ := matrixTranspose_size A
  by_cases htall : A.rows > A.cols
  · rw [if_pos (decide_eq_true htall), matrixMultiply_eq _ _ _ htc, gram, wider, if_pos htall, htr]
    refine congrArg some (AmbixMatrix.ofFn_congr fun i j _ _ => ?_)
    rw [gramEntry, wider, if_pos htall]
    exact Finset.sum_congr rfl fun k _ => congrArg _ (matrixTranspose_data A j k).symm
  · rw [if_neg (by rwa [decide_eq_true_iff]), matrixMultiply_eq _ _ _ htr.symm, gram, wider,
      if_neg htall, htc]
    refine congrArg some (AmbixMatrix.ofFn_congr fun i j _ _ => ?_)
    rw [gramEntry, wider, if_neg htall]
    exact Finset.sum_congr rfl fun k _ => congrArg _ (matrixTranspose_data A k j)

end gram

section positive
variable {K : Type} [Field K] [LinearOrder K] [IsStrictOrderedRing K] {scale : K}
  {A : AmbixMatrix K}

theorem gramEntry_nonneg (A : AmbixMatrix K) (i : Nat) : 0 ≤ gramEntry A i i :=
  Finset.sum_nonneg fun _ _ => mul_self_nonneg _

theorem gramEntry_pos : (∃ i < (wider A).rows.toNat, 0 < gramEntry A i i) ↔
    ∃ r c, A.data r c ≠ 0 := by
  rw [← wider_nonzero]
  constructor
  · rintro ⟨i, _, hpos⟩
    obtain ⟨k, _, hk⟩ := Finset.exists_ne_zero_of_sum_ne_zero hpos.ne'
    exact ⟨i, k, left_ne_zero_of_mul hk⟩
  · rintro ⟨r, c, h⟩
    have hin : r < (wider A).rows.toNat ∧ c < (wider A).cols.toNat :=
      not_not.mp fun hout => h ((wider A).blank r c hout)
    refine ⟨r, hin.1, Finset.sum_pos' (fun _ _ => mul_self_nonneg _) ⟨c, ?_, ?_⟩⟩
    · exact Finset.mem_range.mpr hin.2
    · exact mul_self_pos.mpr h

theorem pinvEps_pos : (0 : K) < pinvEps := one_div_pos.mpr (pow_pos (by norm_num) 7)

theorem LargestDiagonal.pos_iff (h : LargestDiagonal (wider A).rows.toNat (gramEntry A) scale) :
    0 < scale ↔ ∃ r c, A.data r c ≠ 0 := by
  rw [← gramEntry_pos]
  constructor
  · intro hpos
    obtain hzero | ⟨i, hi, hscale⟩ := h.attained
    · exact absurd hzero hpos.ne'
    · exact ⟨i, hi, hscale ▸ hpos⟩
  · rintro ⟨i, hi, hpos⟩
    exact hpos.trans_le (h.le i hi)

end positive

section pinv
variable {K : Type} [Field K] [LinearOrder K]

theorem matrixPinvertCholesky_eq (A : AmbixMatrix K) (P : Option (AmbixMatrix K)) (eps : K) :
    matrixPinvertCholesky A P eps =
      ⟨if decide (A.rows > A.cols) = true then
          matrixMultiply (amCholesky2Inverse (amCholesky2Decomp (gram A) eps).matrix).1
            (matrixTranspose A) (P.getD matrixNull)
        else matrixMultiply (matrixTranspose A)
          (amCholesky2Inverse (amCholesky2Decomp (gram A) eps).matrix).1 (P.getD matrixNull),
        (amCholesky2Decomp (gram A) eps).divisors ++
          (amCholesky2Inverse (amCholesky2Decomp (gram A) eps).matrix).2⟩ := by
  rw [matrixPinvertCholesky]
  dsimp only
  rw [matrixMultiply_gram]

/-- The fallback never runs. -/
theorem matrixPinv_eq (A : AmbixMatrix K) (P : Option (AmbixMatrix K)) :
    matrixPinv A P = matrixPinvertCholesky A P pinvEps := by
  obtain ⟨m, hm, -⟩ := matrixPinvertCholesky_some A P pinvEps
  rw [matrixPinv, hm]
  dsimp only
  rw [← hm]

end pinv
end Ambix
