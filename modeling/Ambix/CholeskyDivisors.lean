import Ambix.Gram
import Mathlib.Algebra.Order.Ring.Rat

/-! The divisors of `_ambix_matrix_pinv`. The threshold of the pivots is a fraction of the largest
diagonal entry, so that it is 0, and no longer above a pivot that is 0, for the zero matrix. -/
namespace Ambix
open Machine

section column
variable {K : Type} [Field K]

theorem pivot_divisors (columns i : Nat) (pivot : K) (s : Cholesky K) :
    (loopFrom (i+1) columns (choleskyColumn columns i pivot) s).divisors =
      s.divisors ++ List.replicate (columns-(i+1)) pivot := by
  refine loop_invariant (fun t (x : Cholesky K) =>
    x.divisors = s.divisors ++ List.replicate t pivot) (List.append_nil _).symm fun t x _ hx => ?_
  rw [List.replicate_succ', ← List.append_assoc, ← hx]
  rfl

end column

section divisors
variable {K : Type} [Field K] [LinearOrder K] {columns i : Nat} {eps d : K} {s : Cholesky K}

theorem pass_divisors : d ∈ (Cholesky.pass columns eps i s).divisors ↔
    d ∈ s.divisors ∨ eps ≤ d ∧ i+2 ≤ columns ∧ d = s.matrix.data i i := by
  by_cases hsmall : s.matrix.data i i < eps
  · rw [Cholesky.pass_small hsmall]
    refine ⟨Or.inl, fun h => h.resolve_right fun hnew => ?_⟩
    exact absurd hnew.1 (not_le.mpr (hnew.2.2 ▸ hsmall))
  · rw [Cholesky.pass_pivot (not_lt.mp hsmall), pivot_divisors, List.mem_append,
      List.mem_replicate]
    refine or_congr_right ⟨fun h => ⟨?_, by omega, h.2⟩, fun h => ⟨by omega, h.2.2⟩⟩
    rw [h.2]
    exact not_lt.mp hsmall

theorem decomp_divisors (mtx : AmbixMatrix K) (toler : K) :
    ∀ d ∈ (amCholesky2Decomp mtx toler).divisors,
      (choleskyScale mtx.cols.toNat mtx).1*toler ≤ d ∧ 2 ≤ mtx.cols.toNat := by
  rw [amCholesky2Decomp_eq]
  refine loop_invariant (fun _ (s : Cholesky K) => ∀ d ∈ s.divisors,
    (choleskyScale mtx.cols.toNat mtx).1*toler ≤ d ∧ 2 ≤ mtx.cols.toNat)
    (fun d hd => absurd hd List.not_mem_nil) fun i s _ hs d hd => ?_
  rcases pass_divisors.mp hd with hbefore | ⟨hlarge, hmany, -⟩
  · exact hs d hbefore
  · exact ⟨hlarge, by omega⟩

theorem decomp_first {mtx : AmbixMatrix K} {toler : K} (hmany : 2 ≤ mtx.cols.toNat)
    (hfirst : (choleskyScale mtx.cols.toNat mtx).1*toler ≤
      (choleskyScale mtx.cols.toNat mtx).2.data 0 0) :
    (choleskyScale mtx.cols.toNat mtx).2.data 0 0 ∈ (amCholesky2Decomp mtx toler).divisors := by
  have hinv : (mtx.cols.toNat = 0 →
        (amCholesky2Decomp mtx toler).matrix = (choleskyScale mtx.cols.toNat mtx).2) ∧
      (0 < mtx.cols.toNat → (choleskyScale mtx.cols.toNat mtx).2.data 0 0 ∈
        (amCholesky2Decomp mtx toler).divisors) := by
    rw [amCholesky2Decomp_eq]
    refine loop_invariant (fun i (s : Cholesky K) =>
      (i = 0 → s.matrix = (choleskyScale mtx.cols.toNat mtx).2) ∧
      (0 < i → (choleskyScale mtx.cols.toNat mtx).2.data 0 0 ∈ s.divisors))
      ⟨fun _ => rfl, fun h => absurd h (Nat.lt_irrefl 0)⟩ fun i s _ hs =>
        ⟨fun h => absurd h (Nat.succ_ne_zero i), fun _ => pass_divisors.mpr ?_⟩
    cases i with
    | zero => exact Or.inr ⟨hfirst, hmany, by rw [hs.1 rfl]⟩
    | succ i => exact Or.inl (hs.2 (Nat.succ_pos i))
  exact hinv.2 (by omega)

theorem inverse_divisors (mtx : AmbixMatrix K) : ∀ d ∈ (amCholesky2Inverse mtx).2, 0 < d := by
  refine loop_invariant (fun _ (s : AmbixMatrix K × List K) => ∀ d ∈ s.2, 0 < d)
    (fun d hd => absurd hd List.not_mem_nil) fun i s _ hs => ?_
  dsimp only
  split
  · rename_i hpivot
    intro d hd
    rcases List.mem_append.mp hd with hbefore | hnew
    · exact hs d hbefore
    · rw [List.mem_singleton.mp hnew]
      exact hpivot
  · exact hs

end divisors

section zero
variable {K : Type} [Field K] [LinearOrder K] [IsStrictOrderedRing K]

/-- All divisors of the Cholesky way are other than 0 if the matrix is, or if there is only one
pivot. -/
theorem gram_divisors (A : AmbixMatrix K) {toler : K} (htoler : 0 < toler) :
    (∀ d ∈ (amCholesky2Decomp (gram A) toler).divisors, d ≠ 0) ↔
      (∃ r c, A.data r c ≠ 0) ∨ (wider A).rows.toNat ≤ 1 := by
  obtain ⟨hentries, hscale⟩ := choleskyScale_symm (gram_entries A) (gramEntry_symm A)
  change Entries (choleskyScale (gram A).cols.toNat _).2 _ _ at hentries
  change LargestDiagonal _ _ (choleskyScale (gram A).cols.toNat _).1 at hscale
  rw [← hscale.pos_iff]
  constructor
  · intro hall
    by_contra hnot
    obtain ⟨hsmall, hmany⟩ := not_or.mp hnot
    have hzero := le_antisymm (not_lt.mp hsmall) hscale.nonneg
    have hpivot : (choleskyScale (gram A).cols.toNat (gram A)).2.data 0 0 = 0 := by
      rw [hentries.data 0 0 (by omega) (by omega)]
      exact le_antisymm ((hscale.le 0 (by omega)).trans_eq hzero) (gramEntry_nonneg A 0)
    refine hall _ (decomp_first (Nat.lt_of_not_le hmany) ?_) hpivot
    rw [hzero, zero_mul, hpivot]
  · intro hsome d hd
    obtain ⟨hlarge, hmany⟩ := decomp_divisors (gram A) toler d hd
    have hpos := hsome.resolve_right (Nat.not_le_of_lt hmany)
    exact ((mul_pos hpos htoler).trans_le hlarge).ne'

end zero

/-- `_ambix_matrix_pinv` divides by 0 exactly for the zero matrix with several rows and columns. -/
theorem divisors_nonzero_iff (A : AmbixMatrix ℚ) :
    (∀ d ∈ (matrixPinv A none).divisors, d ≠ 0) ↔
      (∃ r c, A.data r c ≠ 0) ∨ A.rows.toNat ≤ 1 ∨ A.cols.toNat ≤ 1 := by
  rw [matrixPinv_eq, matrixPinvertCholesky_eq, ← min_le_iff, ← wider_rows,
    ← gram_divisors A pinvEps_pos]
  constructor
  · exact fun h d hd => h d (List.mem_append_left _ hd)
  · intro h d hd
    rcases List.mem_append.mp hd with hdecomp | hinverse
    · exact h d hdecomp
    · exact (inverse_divisors _ d hinverse).ne'

/-- Two rows and two columns of zeros. -/
theorem divisors_nonzero_fails :
    ¬ ∀ A : AmbixMatrix ℚ, ∀ d ∈ (matrixPinv A none).divisors, d ≠ 0 :=
  fun h => h (matrixInit 2 2) 0 (by decide +kernel) rfl

end Ambix
