import Ambix.Machine.Elimination
import Mathlib.LinearAlgebra.Matrix.NonsingularInverse

/-! A symmetric matrix as `L*D*L^T`, with `L` lower triangular and 1 on its diagonal, and the
inverse that the factors give. Entries are functions of the row and the column. -/
namespace Machine

section square
variable {K : Type*} {n : Nat}

/-- The `n` by `n` matrix of the entries `g r c`. -/
def entryMatrix (n : Nat) (g : Nat → Nat → K) : Matrix (Fin n) (Fin n) K := .of fun r c => g r c

@[simp] theorem entryMatrix_apply (g : Nat → Nat → K) (r c : Fin n) :
    entryMatrix n g r c = g r c := rfl

theorem entryMatrix_one [Zero K] [One K] {g : Nat → Nat → K}
    (h : ∀ r c, r < n → c < n → g r c = if r = c then 1 else 0) : entryMatrix n g = 1 :=
  Matrix.ext fun r c => (h r c r.isLt c.isLt).trans (if_congr Fin.val_inj rfl rfl)

end square

/-! Triangular factors. -/

section lower
variable {K : Type*} [CommRing K] {n : Nat} {g : Nat → Nat → K}

def unitLower (g : Nat → Nat → K) (r c : Nat) : K :=
  if r = c then 1 else if c < r then g r c else 0

theorem unitLower_diag (g : Nat → Nat → K) (r : Nat) : unitLower g r r = 1 := if_pos rfl

theorem unitLower_below (g : Nat → Nat → K) {r c : Nat} (h : c < r) : unitLower g r c = g r c := by
  rw [unitLower, if_neg h.ne', if_pos h]

theorem unitLower_above (g : Nat → Nat → K) {r c : Nat} (h : r < c) : unitLower g r c = 0 := by
  rw [unitLower, if_neg h.ne, if_neg (Nat.lt_asymm h)]

/-- The inverse after the columns before `i` have been eliminated. -/
def lowerInverse (g : Nat → Nat → K) : Nat → Nat → Nat → K
  | 0 => fun r c => if r = c then 1 else 0
  | i+1 => fun r c =>
    if i < r then lowerInverse g i r c+-g r i*lowerInverse g i i c else lowerInverse g i r c

theorem lowerInverse_succ_below {i r : Nat} (h : i < r) (c : Nat) : lowerInverse g (i+1) r c =
    lowerInverse g i r c+-g r i*lowerInverse g i i c := if_pos h

theorem lowerInverse_succ_above {i r : Nat} (h : r ≤ i) (c : Nat) :
    lowerInverse g (i+1) r c = lowerInverse g i r c := if_neg (Nat.not_lt_of_le h)

theorem lowerInverse_above (i : Nat) {r c : Nat} (h : r < c) : lowerInverse g i r c = 0 := by
  induction i generalizing r with
  | zero => exact if_neg h.ne
  | succ i ih =>
    by_cases hir : i < r
    · rw [lowerInverse_succ_below hir, ih h, ih (hir.trans h), mul_zero, add_zero]
    · rw [lowerInverse_succ_above (Nat.le_of_not_lt hir), ih h]

theorem lowerInverse_diag (i r : Nat) : lowerInverse g i r r = 1 := by
  induction i with
  | zero => exact if_pos rfl
  | succ i ih =>
    by_cases hir : i < r
    · rw [lowerInverse_succ_below hir, ih, lowerInverse_above i hir, mul_zero, add_zero]
    · rw [lowerInverse_succ_above (Nat.le_of_not_lt hir), ih]

theorem lowerInverse_right {i r c : Nat} (h : i ≤ c) (hrc : r ≠ c) : lowerInverse g i r c = 0 := by
  induction i with
  | zero => exact if_neg hrc
  | succ i ih =>
    by_cases hir : i < r
    · rw [lowerInverse_succ_below hir, ih (Nat.le_of_succ_le h), lowerInverse_above i h, mul_zero,
        add_zero]
    · rw [lowerInverse_succ_above (Nat.le_of_not_lt hir), ih (Nat.le_of_succ_le h)]

theorem lowerInverse_congr {g' : Nat → Nat → K} (h : ∀ r c, r < n → c < r → g r c = g' r c)
    (i : Nat) {r : Nat} (hr : r < n) (c : Nat) : lowerInverse g i r c = lowerInverse g' i r c := by
  induction i generalizing r with
  | zero => rfl
  | succ i ih =>
    by_cases hir : i < r
    · rw [lowerInverse_succ_below hir, lowerInverse_succ_below hir, ih hr, ih (hir.trans hr),
        h r i hr hir]
    · rw [lowerInverse_succ_above (Nat.le_of_not_lt hir),
        lowerInverse_succ_above (Nat.le_of_not_lt hir), ih hr]

theorem unitLower_lowerInverse (i r c : Nat) :
    unitLower (lowerInverse g i) r c = lowerInverse g i r c := by
  rcases Nat.lt_trichotomy r c with h | h | h
  · rw [unitLower_above _ h, lowerInverse_above i h]
  · rw [h, unitLower_diag, lowerInverse_diag]
  · rw [unitLower_below _ h]

theorem lowerInverse_sweep (g : Nat → Nat → K) (i : Fin n) :
    entryMatrix n (lowerInverse g (i+1)) =
      rowSweep i 1 (fun r => if i < r then -g r i else 0) (entryMatrix n (lowerInverse g i)) := by
  ext r c
  by_cases hr : r = i
  · rw [hr, rowSweep_pivot, mul_one]
    exact lowerInverse_succ_above (Nat.le_refl _) _
  · rw [rowSweep_other hr, mul_one]
    by_cases hir : i < r
    · rw [if_pos hir]
      exact lowerInverse_succ_below hir _
    · rw [if_neg hir, zero_mul, add_zero]
      exact lowerInverse_succ_above (Nat.le_of_not_lt hir) _

/-- The factor with the columns before `i` eliminated. -/
def cleared (g : Nat → Nat → K) (i r c : Nat) : K :=
  if c < i then if r = c then 1 else 0 else unitLower g r c

theorem cleared_before (g : Nat → Nat → K) {i c : Nat} (h : c < i) (r : Nat) :
    cleared g i r c = if r = c then 1 else 0 := if_pos h

theorem cleared_after (g : Nat → Nat → K) {i c : Nat} (h : i ≤ c) (r : Nat) :
    cleared g i r c = unitLower g r c := if_neg (Nat.not_lt_of_le h)

theorem cleared_pivot (g : Nat → Nat → K) (i c : Nat) :
    cleared g i i c = if i = c then 1 else 0 := by
  by_cases hc : c < i
  · exact cleared_before g hc i
  · rw [cleared_after g (Nat.le_of_not_lt hc), unitLower, if_neg hc]

theorem cleared_step (g : Nat → Nat → K) {i r : Nat} (hr : r ≠ i) (c : Nat) :
    cleared g i r c+(if i < r then -g r i else 0)*(if i = c then 1 else 0) =
      cleared g (i+1) r c := by
  by_cases hic : i = c
  · rw [if_pos hic, mul_one, ← hic, cleared_after g (Nat.le_refl i),
      cleared_before g (Nat.lt_succ_self i), if_neg hr]
    by_cases hir : i < r
    · rw [if_pos hir, unitLower_below g hir, add_neg_cancel]
    · rw [if_neg hir, unitLower_above g (by omega), add_zero]
  · rw [if_neg hic, mul_zero, add_zero]
    by_cases hc : c < i
    · rw [cleared_before g hc, cleared_before g (Nat.lt_succ_of_lt hc)]
    · rw [cleared_after g (Nat.le_of_not_lt hc), cleared_after g (by omega)]

theorem cleared_sweep (g : Nat → Nat → K) (i : Fin n) :
    rowSweep i 1 (fun r => if i < r then -g r i else 0) (entryMatrix n (cleared g i)) =
      entryMatrix n (cleared g (i+1)) := by
  ext r c
  by_cases hr : r = i
  · rw [hr, rowSweep_pivot, mul_one, entryMatrix_apply, entryMatrix_apply, cleared_pivot]
    by_cases hc : (c : Nat) < i+1
    · rw [cleared_before g hc]
    · rw [cleared_after g (Nat.le_of_not_lt hc), unitLower_above g (by omega), if_neg (by omega)]
  · rw [rowSweep_other hr, mul_one, entryMatrix_apply, entryMatrix_apply, entryMatrix_apply,
      cleared_pivot]
    exact cleared_step g (fun h => hr (Fin.ext h)) c

theorem lowerInverse_mul (g : Nat → Nat → K) {i : Nat} (hi : i ≤ n) :
    entryMatrix n (lowerInverse g i)*entryMatrix n (unitLower g) = entryMatrix n (cleared g i) := by
  induction i with
  | zero =>
    rw [entryMatrix_one (g := lowerInverse g 0) fun r c _ _ => rfl, one_mul]
    rfl
  | succ i ih =>
    rw [lowerInverse_sweep g ⟨i, hi⟩, rowSweep_mul, ih (Nat.le_of_succ_le hi)]
    exact cleared_sweep g ⟨i, hi⟩

theorem lowerInverse_mul_factor (g : Nat → Nat → K) :
    entryMatrix n (lowerInverse g n)*entryMatrix n (unitLower g) = 1 :=
  (lowerInverse_mul g (Nat.le_refl n)).trans
    (entryMatrix_one fun r _ _ hc => cleared_before g hc r)

end lower

/-! The factors of a symmetric matrix. -/

section schur
variable {K : Type*} [Field K] {n : Nat} {G : Nat → Nat → K}

/-- What is left of `G` when the pivots before `i` have been eliminated. -/
def schur (G : Nat → Nat → K) : Nat → Nat → Nat → K
  | 0 => G
  | i+1 => fun r c => schur G i r c-schur G i c i/schur G i i i*schur G i r i

/-- The multiplier of row `c` in row `r`. -/
def multiplier (G : Nat → Nat → K) (r c : Nat) : K := schur G c r c/schur G c c c

theorem schur_expand {i r c : Nat} (hi : i ≤ c) (hcr : c ≤ r)
    (hpivot : ∀ t < i, schur G t t t ≠ 0) :
    G r c = ∑ t ∈ Finset.range i, unitLower (multiplier G) r t*schur G t t t*
      unitLower (multiplier G) c t+schur G i r c := by
  induction i with
  | zero => rw [Finset.sum_range_zero, zero_add, schur]
  | succ i ih =>
    rw [ih (Nat.le_of_succ_le hi) fun t ht => hpivot t (Nat.lt_succ_of_lt ht),
      Finset.sum_range_succ, unitLower_below _ (Nat.lt_of_lt_of_le hi hcr), unitLower_below _ hi,
      add_assoc]
    refine congrArg _ ?_
    have hne := hpivot i (Nat.lt_succ_self i)
    change _ = schur G i r i/schur G i i i*schur G i i i*(schur G i c i/schur G i i i)+
      (schur G i r c-schur G i c i/schur G i i i*schur G i r i)
    rw [div_mul_cancel₀ _ hne]
    ring

theorem schur_sum {r c : Nat} (hcr : c ≤ r) (hr : r < n)
    (hpivot : ∀ t < n, schur G t t t ≠ 0) :
    G r c = ∑ t ∈ Finset.range n, unitLower (multiplier G) r t*schur G t t t*
      unitLower (multiplier G) c t := by
  have hc : c < n := Nat.lt_of_le_of_lt hcr hr
  rw [schur_expand (Nat.le_refl c) hcr fun t ht => hpivot t (ht.trans hc)]
  have hlast : schur G c r c =
      unitLower (multiplier G) r c*schur G c c c*unitLower (multiplier G) c c := by
    rw [unitLower_diag, mul_one]
    rcases Nat.lt_or_eq_of_le hcr with hlt | rfl
    · rw [unitLower_below _ hlt, multiplier, div_mul_cancel₀ _ (hpivot c hc)]
    · rw [unitLower_diag, one_mul]
  rw [hlast, ← Finset.sum_range_succ]
  refine Finset.sum_subset (Finset.range_subset_range.mpr hc) fun t _ ht => ?_
  have habove : unitLower (multiplier G) c t = 0 :=
    unitLower_above _ (by rw [Finset.mem_range] at ht; omega)
  rw [habove, mul_zero]

/-- `G = L*D*L^T`. -/
theorem factorization (hsymm : ∀ r c, G r c = G c r) (hpivot : ∀ t < n, schur G t t t ≠ 0) :
    entryMatrix n G = entryMatrix n (unitLower (multiplier G))*
      Matrix.diagonal (fun t : Fin n => schur G t t t)*
        (entryMatrix n (unitLower (multiplier G))).transpose := by
  ext r c
  have hsum : G r c = ∑ t ∈ Finset.range n, unitLower (multiplier G) r t*schur G t t t*
      unitLower (multiplier G) c t := by
    rcases Nat.le_total c r with hcr | hrc
    · exact schur_sum hcr r.isLt hpivot
    · rw [hsymm, schur_sum hrc c.isLt hpivot]
      exact Finset.sum_congr rfl fun t _ => by ring
  rw [Matrix.mul_apply, entryMatrix_apply, hsum, ← Fin.sum_univ_eq_sum_range (fun t =>
    unitLower (multiplier G) r t*schur G t t t*unitLower (multiplier G) c t)]
  refine Finset.sum_congr rfl fun t _ => ?_
  rw [Matrix.mul_diagonal]
  rfl

/-- The inverse of a product `L*D*L^T` from that of `L`. -/
theorem inverse_of_factors {L F : Matrix (Fin n) (Fin n) K} {d : Fin n → K} (hd : ∀ t, d t ≠ 0)
    (hF : F*L = 1) : F.transpose*Matrix.diagonal (fun t => 1/d t)*F*
      (L*Matrix.diagonal d*L.transpose) = 1 := by
  have hdiagonal : Matrix.diagonal (fun t => 1/d t)*Matrix.diagonal d = 1 := by
    rw [Matrix.diagonal_mul_diagonal, ← Matrix.diagonal_one]
    exact congrArg _ (funext fun t => one_div_mul_cancel (hd t))
  calc F.transpose*Matrix.diagonal (fun t => 1/d t)*F*(L*Matrix.diagonal d*L.transpose)
      = F.transpose*(Matrix.diagonal (fun t => 1/d t)*(F*L)*Matrix.diagonal d)*L.transpose := by
        simp only [Matrix.mul_assoc]
    _ = (L*F).transpose := by
        rw [hF, mul_one, hdiagonal, mul_one, Matrix.transpose_mul]
    _ = 1 := by
        rw [mul_eq_one_comm.mp hF, Matrix.transpose_one]

/-- Entry `(r, c)` of `F^T*E*F` from the first `m` rows of `F`, where `g` holds `F` below its
diagonal and `E` on it. -/
def packedProduct (g : Nat → Nat → K) (m r c : Nat) : K :=
  ∑ t ∈ Finset.range m, unitLower g t r*g t t*unitLower g t c

theorem packedProduct_symm (g : Nat → Nat → K) (m r c : Nat) :
    packedProduct g m r c = packedProduct g m c r :=
  Finset.sum_congr rfl fun t _ => by ring

theorem packedProduct_factors (g : Nat → Nat → K) :
    entryMatrix n (packedProduct g n) = (entryMatrix n (unitLower g)).transpose*
      Matrix.diagonal (fun t : Fin n => g t t)*entryMatrix n (unitLower g) := by
  ext r c
  rw [Matrix.mul_apply, entryMatrix_apply, packedProduct, ← Fin.sum_univ_eq_sum_range (fun t =>
    unitLower g t r*g t t*unitLower g t c)]
  refine Finset.sum_congr rfl fun t _ => ?_
  rw [Matrix.mul_diagonal]
  rfl

/-- The inverted factors, multiplied out, are the inverse of `G`. -/
theorem packedProduct_mul (hsymm : ∀ r c, G r c = G c r) (hpivot : ∀ t < n, schur G t t t ≠ 0)
    {f : Nat → Nat → K} (hlower : ∀ r c, r < n → c < r → f r c = lowerInverse (multiplier G) n r c)
    (hdiag : ∀ t < n, f t t = 1/schur G t t t) :
    entryMatrix n (packedProduct f n)*entryMatrix n G = 1 := by
  have hunit : entryMatrix n (unitLower f) = entryMatrix n (lowerInverse (multiplier G) n) := by
    ext r c
    rw [entryMatrix_apply, entryMatrix_apply, ← unitLower_lowerInverse, unitLower, unitLower]
    by_cases hcr : (c : Nat) < r
    · rw [hlower r c r.isLt hcr]
    · rw [if_neg hcr, if_neg hcr]
  have hdiagonal : (fun t : Fin n => f t t) = fun t : Fin n => 1/schur G t t t :=
    funext fun t => hdiag t t.isLt
  rw [packedProduct_factors, hunit, hdiagonal, factorization hsymm hpivot]
  exact inverse_of_factors (fun t => hpivot t t.isLt) (lowerInverse_mul_factor _)

end schur
end Machine
