import Ambix.ConversionMatrices
import Ambix.Machine.Placement
import Mathlib.Tactic.FinCases
import Mathlib.Tactic.LinearCombination

/-! The matrices of adaptor_fuma.c as placements of channels, and what undoes them. -/
namespace Ambix
open Machine

/-! The objects the functions put together. -/

section objects
variable {K : Type} [Field K] {rows cols count : UInt32} {m n : Nat}

def routesTo (f : Fin n → Fin m) : List Int := List.ofFn fun j => ((f j : Nat) : Int)

theorem routesTo_getElem? (f : Fin n → Fin m) (j : Fin n) :
    (routesTo f)[(j : Nat)]? = some ((f j : Nat) : Int) := by
  rw [routesTo, List.getElem?_ofFn, dif_pos j.isLt]

theorem mem_routesTo {f : Fin n → Fin m} {r : Int} (hr : r ∈ routesTo f) :
    ∃ k : Nat, r = k ∧ k < m := by
  obtain ⟨j, rfl⟩ := List.mem_ofFn.mp hr
  exact ⟨f j, rfl, (f j).isLt⟩

theorem routedMatrix_columns (hr : rows.toNat = m) (hc : cols.toNat = n) (f : Fin n → Fin m) :
    (routedMatrix (routesTo f) true (matrixInit rows cols : AmbixMatrix K)).block m n =
      placement f 1 := by
  rw [routedMatrix, matrixInit_rows, matrixInit_cols, AmbixMatrix.ofFn_block _ hr hc]
  ext r j
  have hzero : (matrixInit rows cols : AmbixMatrix K).data r j = 0 := ite_self _
  simp only [Matrix.of_apply, placement_apply, passOf, placeOf, if_true, routesTo_getElem?,
    Option.some.injEq, Nat.cast_inj, hzero, Pi.one_apply, Fin.val_inj, eq_comm]

theorem routedMatrix_rows (hr : rows.toNat = n) (hc : cols.toNat = m) (f : Fin n → Fin m) :
    (routedMatrix (routesTo f) false (matrixInit rows cols : AmbixMatrix K)).block n m =
      (placement f 1).transpose := by
  rw [routedMatrix, matrixInit_rows, matrixInit_cols, AmbixMatrix.ofFn_block _ hr hc]
  ext j r
  have hzero : (matrixInit rows cols : AmbixMatrix K).data j r = 0 := ite_self _
  simp only [Matrix.of_apply, Matrix.transpose_apply, placement_apply, passOf, placeOf,
    Bool.false_eq_true, if_false, routesTo_getElem?, Option.some.injEq, Nat.cast_inj, hzero,
    Pi.one_apply, Fin.val_inj, eq_comm]

theorem routesTo_passes {f : Fin n → Fin m} {r : Int} (hr : r ∈ routesTo f) {max : UInt32}
    (hmax : max.toNat = m) : ¬ r < 0 ∧ ¬ routeIndex r > max ∧
      ((routeIndex r).toNat : Int) = r ∧ r < m := by
  obtain ⟨k, rfl, hk⟩ := mem_routesTo hr
  have hlt := max.toNat_lt
  have hindex : (routeIndex (k : Int)).toNat = k := routeIndex_nat (by omega)
  rw [gt_iff_lt, UInt32.lt_iff_toNat_lt, hindex]
  omega

theorem matrixRouter_routes (hcount : count.toNat = n) (f : Fin n → Fin n) (swap : Bool) :
    matrixRouter (routesTo f) count swap =
      .ok (some (routedMatrix (routesTo f) swap (matrixInit count count : AmbixMatrix K))) := by
  rw [← routerOn_routeIndex]
  refine routed_some (by simp [routesTo, hcount]) (by cases swap <;> rfl) (fun r hr => ?_)
    fun r hr => Or.inr ?_
  · exact not_or_intro (routesTo_passes hr hcount).1 (routesTo_passes hr hcount).2.1
  · have hplace : placeOf swap count.toNat count.toNat = n := by cases swap <;> exact hcount
    exact ⟨id, (routesTo_passes hr hcount).2.2.1, hplace ▸ (routesTo_passes hr hcount).2.2.2⟩

theorem matrixPermutate_routes {swap : Bool} (hpass : passOf swap rows.toNat cols.toNat = n)
    (hplace : placeOf swap rows.toNat cols.toNat = m) (f : Fin n → Fin m) :
    matrixPermutate (matrixInit rows cols) (routesTo f) swap =
      .ok (some (routedMatrix (routesTo f) swap (matrixInit rows cols : AmbixMatrix K))) := by
  have hmax : (if swap then rows else cols).toNat = m := by cases swap <;> exact hplace
  have hcount : (if swap then cols else rows).toNat = n := by cases swap <;> exact hpass
  rw [← permutateOn_routeIndex]
  refine routed_some ((List.length_ofFn).trans hcount.symm) (hcount.trans hpass.symm)
    (fun r hr => (routesTo_passes hr hmax).2.1) fun r hr => Or.inr ?_
  exact ⟨(routesTo_passes hr hmax).1, (routesTo_passes hr hmax).2.2.1,
    hplace.symm ▸ (routesTo_passes hr hmax).2.2.2⟩

theorem matrixDiag_weights (hcount : count.toNat = n) (w : Fin n → K) :
    ∃ M, matrixDiag (List.ofFn w) count = .ok M ∧ Square M n ∧
      M.block n n = Matrix.diagonal w := by
  have hlist : List.ofFn w = (List.range n).map fun i => if h : i < n then w ⟨i, h⟩ else 0 := by
    refine List.ext_getElem (by simp) fun i hi _ => ?_
    have hi' : i < n := by simpa using hi
    simp [hi']
  rw [hlist]
  refine ⟨_, matrixDiag_eq hcount _, ⟨hcount, hcount⟩, ?_⟩
  rw [AmbixMatrix.ofFn_block _ hcount hcount]
  ext i j
  simp [Matrix.diagonal_apply, Fin.val_inj]

theorem fillIdentity_wide (hr : rows.toNat = n) (hc : cols.toNat = m) (hnm : n ≤ m)
    (hm : m < 2^31) : (fillIdentity (matrixInit rows cols : AmbixMatrix K)).block n m =
      (placement (Fin.castLE hnm) 1).transpose := by
  have hn : n < 2^31 := by omega
  rw [fillIdentity, fillEntries_eq _ (hr ▸ hn) (hc ▸ hm), matrixInit_rows, matrixInit_cols,
    AmbixMatrix.ofFn_block _ hr hc]
  ext i j
  simp [Matrix.transpose_apply, placement_apply, Fin.ext_iff, eq_comm]

theorem fillIdentity_tall (hr : rows.toNat = m) (hc : cols.toNat = n) (hnm : n ≤ m)
    (hm : m < 2^31) : (fillIdentity (matrixInit rows cols : AmbixMatrix K)).block m n =
      placement (Fin.castLE hnm) 1 := by
  have hn : n < 2^31 := by omega
  rw [fillIdentity, fillEntries_eq _ (hr ▸ hm) (hc ▸ hn), matrixInit_rows, matrixInit_cols,
    AmbixMatrix.ofFn_block _ hr hc]
  ext i j
  simp [placement_apply, Fin.ext_iff]

end objects

/-! The tables. -/

section tables
variable {K : Type} [Field K] {n : Nat}

def fumaWeights (w u p n l : K) : Fin 16 → K :=
  ![w, -1, 1, -1, u, -u, 1, -u, u, -p, n, -l, 1, -l, n, -p]

theorem fumaWeights_undo {w u p n l w' u' p' n' l' : K} (hw : w*w' = 1) (hu : u*u' = 1)
    (hp : p*p' = 1) (hn : n*n' = 1) (hl : l*l' = 1) (r : Fin 16) :
    fumaWeights w u p n l r*fumaWeights w' u' p' n' l' r = 1 := by
  fin_cases r <;> simp [fumaWeights, hw, hu, hp, hn, hl]

/-- Where the routes of all sixteen channels lead. -/
def fumaPlace : Fin 16 → Fin 16 := ![0, 2, 3, 1, 8, 6, 4, 5, 7, 15, 13, 11, 9, 10, 12, 14]

theorem fumaOrder_eq : fumaOrder = routesTo fumaPlace := by decide

theorem fumaPlace_injective : Function.Injective fumaPlace := by decide

def toAmbixWeights (sqrt : K → K) : Fin 16 → K :=
  fumaWeights (sqrt (2 : ℕ)) (sqrt (3 : ℕ)/(2 : ℕ)) (sqrt ((5 : ℕ)/(2 : ℕ))/(2 : ℕ))
    (sqrt (5 : ℕ)/(3 : ℕ)) ((4 : ℕ)*sqrt ((2 : ℕ)/(5 : ℕ))/(3 : ℕ))

def toFumaWeights (sqrt : K → K) : Fin 16 → K :=
  fumaWeights (1/sqrt (2 : ℕ)) ((2 : ℕ)/sqrt (3 : ℕ)) ((2 : ℕ)*sqrt ((2 : ℕ)/(5 : ℕ)))
    ((3 : ℕ)/sqrt (5 : ℕ)) ((3 : ℕ)*sqrt ((5 : ℕ)/(2 : ℕ))/(4 : ℕ))

theorem toAmbixWeights_eq (sqrt : K → K) : toAmbixWeights sqrt =
    fumaWeights (sqrt 2) (sqrt 3/2) (sqrt (5/2)/2) (sqrt 5/3) (4*sqrt (2/5)/3) := by
  simp only [toAmbixWeights, Nat.cast_ofNat]

theorem toFumaWeights_eq (sqrt : K → K) : toFumaWeights sqrt =
    fumaWeights (1/sqrt 2) (2/sqrt 3) (2*sqrt (2/5)) (3/sqrt 5) (3*sqrt (5/2)/4) := by
  simp only [toFumaWeights, Nat.cast_ofNat]

theorem fumaRouter (swap : Bool) : ∃ O : AmbixMatrix K, matrixRouter fumaOrder 16 swap =
      .ok (some O) ∧ Square O 16 ∧
    O.block 16 16 = if swap then placement fumaPlace 1 else (placement fumaPlace 1).transpose := by
  have h16 : (16 : UInt32).toNat = 16 := rfl
  rw [fumaOrder_eq]
  refine ⟨_, matrixRouter_routes h16 fumaPlace swap, ⟨h16, h16⟩, ?_⟩
  cases swap with
  | false => exact routedMatrix_rows h16 h16 fumaPlace
  | true => exact routedMatrix_columns h16 h16 fumaPlace

theorem fumaDiag (w : Fin 16 → K) : ∃ D, matrixDiag (List.ofFn w) 16 = .ok D ∧ Square D 16 ∧
    D.block 16 16 = Matrix.diagonal w :=
  matrixDiag_weights (show (16 : UInt32).toNat = 16 from rfl) w

theorem fuma2ambixWeightorder_block (sqrt : K → K) : ∃ M,
    fuma2ambixWeightorder sqrt = .ok (some M) ∧ Square M 16 ∧
      M.block 16 16 = placement fumaPlace (toAmbixWeights sqrt) := by
  obtain ⟨D, hD, hdsize, hdblock⟩ := fumaDiag (toAmbixWeights sqrt)
  rw [toAmbixWeights_eq] at hD
  obtain ⟨O, hO, hosize, hoblock⟩ := fumaRouter (K := K) true
  obtain ⟨M, hM, hr, hc, hblock⟩ :=
    matrixMultiply_block matrixNull hdsize.1 hdsize.2 hosize.1 hosize.2
  refine ⟨M, ?_, ⟨by rw [hr, hdsize.1], by rw [hc, hosize.2]⟩, ?_⟩
  · exact bind_eq_ok.mpr ⟨D, hD, bind_eq_ok.mpr ⟨_, hO, congrArg Except.ok hM⟩⟩
  · rw [hblock, hdblock, hoblock, if_pos rfl, diagonal_mul_placement]
    simp only [Pi.one_apply, mul_one]

theorem ambix2fumaWeightorder_block (sqrt : K → K) : ∃ M,
    ambix2fumaWeightorder sqrt = .ok (some M) ∧ Square M 16 ∧
      M.block 16 16 = (placement fumaPlace (toFumaWeights sqrt)).transpose := by
  obtain ⟨D, hD, hdsize, hdblock⟩ := fumaDiag (toFumaWeights sqrt)
  rw [toFumaWeights_eq] at hD
  obtain ⟨O, hO, hosize, hoblock⟩ := fumaRouter (K := K) false
  obtain ⟨M, hM, hr, hc, hblock⟩ :=
    matrixMultiply_block matrixNull hosize.1 hosize.2 hdsize.1 hdsize.2
  refine ⟨M, ?_, ⟨by rw [hr, hosize.1], by rw [hc, hdsize.2]⟩, ?_⟩
  · exact bind_eq_ok.mpr ⟨D, hD, bind_eq_ok.mpr ⟨_, hO, congrArg Except.ok hM⟩⟩
  · rw [hblock, hdblock, hoblock, if_neg Bool.false_ne_true, ← Matrix.diagonal_transpose,
      ← Matrix.transpose_mul, diagonal_mul_placement]
    simp only [Pi.one_apply, mul_one]

/-- The channels of a file of `n` among all sixteen: their rows are in the full set. -/
structure FumaSet (n : Nat) where
  reduce : Fin n → Fin 16
  reducer : fumaReducer n = routesTo reduce
  inside : ∀ j, (fumaPlace (reduce j) : Nat) < (fumaFullset n).toNat
  distinct : Function.Injective reduce

def FumaSet.row (s : FumaSet n) (j : Fin n) : Fin (fumaFullset n).toNat :=
  ⟨fumaPlace (s.reduce j), s.inside j⟩

theorem FumaSet.castLE_row (s : FumaSet n) :
    Fin.castLE (fumaFullset_le n) ∘ s.row = fumaPlace ∘ s.reduce := rfl

theorem FumaSet.row_injective (s : FumaSet n) : Function.Injective s.row := by
  apply Function.Injective.of_comp (f := Fin.castLE (fumaFullset_le n))
  rw [s.castLE_row]
  exact fumaPlace_injective.comp s.distinct

theorem fumaFullset_large (hn : 16 < n) : fumaFullset n = 0 := by
  unfold fumaFullset
  split
  all_goals first | rfl | omega

theorem fumaFullset_small {count : UInt32} (hn : fumaFullset count.toNat ≠ 0) : ¬ count > 16 :=
  fun hlarge => hn (fumaFullset_large (UInt32.lt_iff_toNat_lt.mp hlarge))

theorem fumaTables : ∀ n < 17, fumaFullset n ≠ 0 → (fumaReducer n).length = n ∧
    (fumaReducer n).Nodup ∧ ∀ r ∈ fumaReducer n, 0 ≤ r ∧
      ∃ h : r.toNat < 16, (fumaPlace ⟨r.toNat, h⟩ : Nat) < (fumaFullset n).toNat := by
  decide

theorem fumaSet_exists (hn : fumaFullset n ≠ 0) : Nonempty (FumaSet n) := by
  have hsmall : n < 17 := by
    by_contra hlarge
    exact hn (fumaFullset_large (by omega))
  obtain ⟨hlen, hnodup, hroutes⟩ := fumaTables n hsmall hn
  have hroute (j : Fin n) := hroutes _ (List.get_mem (fumaReducer n) (j.cast hlen.symm))
  refine ⟨fun j => ⟨_, (hroute j).2.1⟩, ?_, fun j => (hroute j).2.2, ?_⟩
  · refine List.ext_getElem (by simp [routesTo, hlen]) fun i hi _ => ?_
    have hpos := (hroutes _ (List.getElem_mem hi)).1
    simp [routesTo, hpos]
  · intro i j hij
    have hi := (hroute i).1
    have hj := (hroute j).1
    have hnat := Fin.val_inj.mpr hij
    dsimp only at hnat
    have hcast := List.nodup_iff_injective_get.mp hnodup
      (show (fumaReducer n).get (i.cast hlen.symm) = (fumaReducer n).get (j.cast hlen.symm) by
        omega)
    exact Fin.cast_injective hlen.symm hcast

end tables

/-! The conversions. -/

section conversions
variable {K : Type} [Field K] {rows cols : UInt32} {n : Nat}

theorem matrixMultiply3_block {A B C : AmbixMatrix K} {r p q c : Nat} (hr : A.rows.toNat = r)
    (hp : A.cols.toNat = p) (hp' : B.rows.toNat = p) (hq : B.cols.toNat = q)
    (hq' : C.rows.toNat = q) (hc : C.cols.toNat = c) : ∃ M, matrixMultiply3 A (some B) C = some M ∧
      M.rows = A.rows ∧ M.cols = C.cols ∧ M.block r c = A.block r p*B.block p q*C.block q c := by
  obtain ⟨T, hT, htr, htc, htblock⟩ := matrixMultiply_block matrixNull hr hp hp' hq
  obtain ⟨M, hM, hmr, hmc, hmblock⟩ :=
    matrixMultiply_block matrixNull (by rw [htr, hr]) (by rw [htc, hq]) hq' hc
  refine ⟨M, ?_, hmr.trans htr, hmc, by rw [hmblock, htblock]⟩
  simp only [matrixMultiply3, Option.bind_eq_bind, Option.bind_some, hT, hM]

theorem FumaSet.reducer_columns (s : FumaSet n) (hcols : cols.toNat = n) :
    ∃ R : AmbixMatrix K, matrixPermutate (matrixInit 16 cols) (fumaReducer n) true =
        .ok (some R) ∧ R.rows.toNat = 16 ∧ R.cols = cols ∧
      R.block 16 n = placement s.reduce 1 := by
  have h16 : (16 : UInt32).toNat = 16 := rfl
  rw [s.reducer]
  exact ⟨_, matrixPermutate_routes (show passOf true _ _ = n from hcols) h16 s.reduce, h16, rfl,
    routedMatrix_columns h16 hcols s.reduce⟩

theorem FumaSet.reducer_rows (s : FumaSet n) (hrows : rows.toNat = n) :
    ∃ R : AmbixMatrix K, matrixPermutate (matrixInit rows 16) (fumaReducer n) false =
        .ok (some R) ∧ R.rows = rows ∧ R.cols.toNat = 16 ∧
      R.block n 16 = (placement s.reduce 1).transpose := by
  have h16 : (16 : UInt32).toNat = 16 := rfl
  rw [s.reducer]
  exact ⟨_, matrixPermutate_routes (show passOf false _ _ = n from hrows) h16 s.reduce, rfl, h16,
    routedMatrix_rows hrows h16 s.reduce⟩

theorem FumaSet.rows_kept (s : FumaSet n) (w : Fin 16 → K) :
    (placement (Fin.castLE (fumaFullset_le n)) (1 : Fin 16 → K)).transpose*
        (placement fumaPlace w*placement s.reduce (1 : Fin 16 → K)) =
      placement s.row (w ∘ Fin.castLE (fumaFullset_le n)) := by
  rw [placement_mul_placement, ← s.castLE_row,
    transpose_mul_placement (Fin.castLE_injective _)]

theorem matrixFuma2ambix_block (sqrt : K → K) (s : FumaSet n) (hn : fumaFullset n ≠ 0)
    (hcols : cols.toNat = n) : ∃ M, matrixFuma2ambix sqrt cols = .ok (some M) ∧
      M.rows = fumaFullset n ∧ M.cols = cols ∧ M.block (fumaFullset n).toNat n =
        placement s.row (toAmbixWeights sqrt ∘ Fin.castLE (fumaFullset_le n)) := by
  have h16 : (16 : UInt32).toNat = 16 := rfl
  obtain ⟨hr, hc⟩ := fillEntries_size (matrixInit (fumaFullset n) 16 : AmbixMatrix K)
    fun r c => if r = c then 1 else 0
  obtain ⟨W, hW, hwsize, hwblock⟩ := fuma2ambixWeightorder_block sqrt
  obtain ⟨R, hR, hrr, hrc, hrblock⟩ := s.reducer_columns (K := K) hcols
  obtain ⟨M, hM, hmr, hmc, hmblock⟩ := matrixMultiply3_block (congrArg UInt32.toNat hr)
    (congrArg UInt32.toNat hc) hwsize.1 hwsize.2 hrr (by rw [hrc, hcols])
  refine ⟨M, ?_, hmr.trans hr, hmc.trans hrc, ?_⟩
  · subst hcols
    rw [matrixFuma2ambix, if_neg (fumaFullset_small hn), if_neg hn]
    exact bind_eq_ok.mpr ⟨_, hW, bind_eq_ok.mpr ⟨_, hR, congrArg Except.ok hM⟩⟩
  · rw [← s.rows_kept, ← hwblock, ← hrblock, ← Matrix.mul_assoc, ← fillIdentity_wide rfl h16 _
      (by decide)]
    exact hmblock

theorem matrixAmbix2fuma_block (sqrt : K → K) (s : FumaSet n) (hn : fumaFullset n ≠ 0)
    (hrows : rows.toNat = n) : ∃ M, matrixAmbix2fuma sqrt rows = .ok (some M) ∧
      M.rows = rows ∧ M.cols = fumaFullset n ∧ M.block n (fumaFullset n).toNat =
        (placement s.row (toFumaWeights sqrt ∘ Fin.castLE (fumaFullset_le n))).transpose := by
  have h16 : (16 : UInt32).toNat = 16 := rfl
  obtain ⟨hr, hc⟩ := fillEntries_size (matrixInit 16 (fumaFullset n) : AmbixMatrix K)
    fun r c => if r = c then 1 else 0
  obtain ⟨W, hW, hwsize, hwblock⟩ := ambix2fumaWeightorder_block sqrt
  obtain ⟨R, hR, hrr, hrc, hrblock⟩ := s.reducer_rows (K := K) hrows
  obtain ⟨M, hM, hmr, hmc, hmblock⟩ := matrixMultiply3_block (by rw [hrr, hrows]) hrc hwsize.1
    hwsize.2 (congrArg UInt32.toNat hr) (congrArg UInt32.toNat hc)
  refine ⟨M, ?_, hmr.trans hrr, hmc.trans hc, ?_⟩
  · subst hrows
    rw [matrixAmbix2fuma, if_neg (fumaFullset_small hn), if_neg hn]
    exact bind_eq_ok.mpr ⟨_, hW, bind_eq_ok.mpr ⟨_, hR, congrArg Except.ok hM⟩⟩
  · rw [← s.rows_kept, Matrix.transpose_mul, Matrix.transpose_mul, Matrix.transpose_transpose,
      ← hwblock, ← hrblock, ← fillIdentity_tall h16 rfl _ (by decide)]
    exact hmblock

end conversions

/-! With the roots of the reals the weights undo each other. -/

theorem roots_undo : √(2/5 : ℝ)*√(5/2) = 1 := by
  rw [← Real.sqrt_mul (by norm_num)]
  norm_num

theorem weights_undo (r : Fin 16) : toFumaWeights Real.sqrt r*toAmbixWeights Real.sqrt r = 1 := by
  have h2 : √(2 : ℝ) ≠ 0 := (Real.sqrt_pos.mpr (by norm_num)).ne'
  have h3 : √(3 : ℝ) ≠ 0 := (Real.sqrt_pos.mpr (by norm_num)).ne'
  have h5 : √(5 : ℝ) ≠ 0 := (Real.sqrt_pos.mpr (by norm_num)).ne'
  rw [toFumaWeights_eq, toAmbixWeights_eq]
  apply fumaWeights_undo
  · rw [one_div, inv_mul_cancel₀ h2]
  · field_simp
  · linear_combination roots_undo
  · field_simp
  · linear_combination roots_undo

/-- The numbers of channels that have a Furse-Malham format. -/
def fumaCounts : List Nat := [1, 3, 4, 5, 6, 7, 8, 9, 11, 16]

theorem fumaFullset_iff (n : Nat) : fumaFullset n ≠ 0 ↔ n ∈ fumaCounts := by
  by_cases hn : 16 < n
  · have hno : n ∉ fumaCounts := by
      simp only [fumaCounts, List.mem_cons, List.not_mem_nil, or_false]
      omega
    exact iff_of_false (not_not_intro (fumaFullset_large hn)) hno
  · have hall : ∀ k < 17, fumaFullset k ≠ 0 ↔ k ∈ fumaCounts := by decide
    exact hall n (by omega)

theorem fumaFullset_full {n : UInt32} (hn : n.toNat ∈ fumaCounts) (hfull : isFullset n = true) :
    (fumaFullset n.toNat).toNat = n.toNat := by
  have hsquares : ∀ c ∈ fumaCounts, ∀ k < 16, c = (k+1)*(k+1) → (fumaFullset c).toNat = c := by
    decide
  have hbound : ∀ c ∈ fumaCounts, 0 < c ∧ c ≤ 16 := by decide
  obtain ⟨hpos, hle⟩ := hbound _ hn
  cases (isFullset_iff n).mp hfull with
  | inl hzero =>
    rw [hzero] at hpos
    cases hpos
  | inr hsquare =>
    obtain ⟨k, hk⟩ := hsquare
    refine hsquares _ hn k ?_ hk
    by_contra hlarge
    have hmul := Nat.mul_le_mul (Nat.le_of_not_lt hlarge) (Nat.le_of_not_lt hlarge)
    nlinarith

theorem matrixFill_fuma {K : Type} [Field K] {sqrt : K → K} {matrix : AmbixMatrix K}
    {r : Option (AmbixMatrix K)} (h : matrixFuma2ambix sqrt matrix.cols = .ok r) :
    matrixFill sqrt matrix .fuma = .ok r := by
  rw [matrixFill, h]
  cases r <;> simp

theorem matrixFill_toFuma {K : Type} [Field K] {sqrt : K → K} {matrix : AmbixMatrix K}
    {r : Option (AmbixMatrix K)} (h : matrixAmbix2fuma sqrt matrix.rows = .ok r) :
    matrixFill sqrt matrix .toFuma = .ok r := by
  rw [matrixFill, h]
  cases r <;> simp

theorem fuma_none {K : Type} [Field K] (sqrt : K → K) {count : UInt32}
    (hcount : count.toNat ∉ fumaCounts) : matrixFuma2ambix sqrt count = .ok none ∧
      matrixAmbix2fuma sqrt count = .ok none := by
  have hzero : fumaFullset count.toNat = 0 := by
    by_contra hne
    exact hcount ((fumaFullset_iff _).mp hne)
  rw [matrixFuma2ambix, matrixAmbix2fuma]
  simp [hzero]

section inverse
variable {count : UInt32} {s : FumaSet count.toNat} {A F : AmbixMatrix ℝ}

/-- The two conversions of one set. -/
structure Converts (s : FumaSet count.toNat) (A F : AmbixMatrix ℝ) : Prop where
  rows : A.rows = fumaFullset count.toNat
  cols : A.cols = count
  rows' : F.rows = count
  cols' : F.cols = fumaFullset count.toNat
  places : A.block (fumaFullset count.toNat).toNat count.toNat =
    placement s.row (toAmbixWeights Real.sqrt ∘ Fin.castLE (fumaFullset_le _))
  takes : F.block count.toNat (fumaFullset count.toNat).toNat =
    (placement s.row (toFumaWeights Real.sqrt ∘ Fin.castLE (fumaFullset_le _))).transpose

theorem Converts.undoes (h : Converts s A F) (hcount : count.toNat ≤ 16) (dest : AmbixMatrix ℝ) :
    matrixMultiply F A dest = some (fillIdentity (matrixInit count count)) := by
  obtain ⟨hr, hc⟩ : Square (fillIdentity (matrixInit count count : AmbixMatrix ℝ)) count.toNat :=
    fillIdentity_square ⟨rfl, rfl⟩
  refine matrixMultiply_eq_of_block dest (congrArg _ h.rows') (congrArg _ h.cols')
    (congrArg _ h.rows) (congrArg _ h.cols) hr hc ?_
  have hone : (fillIdentity (matrixInit count count : AmbixMatrix ℝ)).block count.toNat
      count.toNat = 1 := fillIdentity_block rfl rfl (by omega)
  rw [h.places, h.takes, hone]
  exact placement_undone s.row_injective fun r => weights_undo _

theorem Converts.onto (h : Converts s A F) (hcount : count.toNat ≤ 16)
    (hfull : (fumaFullset count.toNat).toNat = count.toNat) (dest : AmbixMatrix ℝ) :
    matrixMultiply A F dest = some (fillIdentity (matrixInit count count)) := by
  obtain ⟨hr, hc⟩ : Square (fillIdentity (matrixInit count count : AmbixMatrix ℝ)) count.toNat :=
    fillIdentity_square ⟨rfl, rfl⟩
  have hbij : Function.Bijective s.row :=
    (Fintype.bijective_iff_injective_and_card _).mpr ⟨s.row_injective, by simp [hfull]⟩
  refine matrixMultiply_eq_of_block dest (congrArg _ h.rows) (congrArg _ h.cols)
    (congrArg _ h.rows') (congrArg _ h.cols') (hr.trans hfull.symm) (hc.trans hfull.symm) ?_
  rw [h.places, h.takes, fillIdentity_block hfull.symm hfull.symm (by omega)]
  exact placement_onto hbij fun r => (mul_comm _ _).trans (weights_undo _)

theorem converts_exists {matrix matrix' : AmbixMatrix ℝ} (hcols : matrix.cols = count)
    (hrows : matrix'.rows = count) (hcount : count.toNat ∈ fumaCounts) :
    ∃ (s : FumaSet count.toNat) (A F : AmbixMatrix ℝ), Converts s A F ∧
      matrixFill Real.sqrt matrix .fuma = .ok (some A) ∧
      matrixFill Real.sqrt matrix' .toFuma = .ok (some F) := by
  have hset := (fumaFullset_iff _).mpr hcount
  obtain ⟨s⟩ := fumaSet_exists hset
  obtain ⟨A, hA, har, hac, hplaces⟩ := matrixFuma2ambix_block Real.sqrt s hset rfl
  obtain ⟨F, hF, hfr, hfc, htakes⟩ := matrixAmbix2fuma_block Real.sqrt s hset rfl
  exact ⟨s, A, F, ⟨har, hac, hfr, hfc, hplaces, htakes⟩, matrixFill_fuma (hcols ▸ hA),
    matrixFill_toFuma (hrows ▸ hF)⟩

end inverse

/-- The conversions from and to Furse-Malham exist for the same numbers of channels. What is
brought to a full set comes back unchanged, and where the channels are a full set themselves the
conversions are inverse to each other. -/
theorem fuma_converts (count : UInt32) (matrix matrix' dest : AmbixMatrix ℝ)
    (hcols : matrix.cols = count) (hrows : matrix'.rows = count) :
    (count.toNat ∈ fumaCounts → ∃ (s : FumaSet count.toNat) (toAmbix toFuma : AmbixMatrix ℝ),
      matrixFill Real.sqrt matrix .fuma = .ok (some toAmbix) ∧
      matrixFill Real.sqrt matrix' .toFuma = .ok (some toFuma) ∧ Converts s toAmbix toFuma ∧
      matrixMultiply toFuma toAmbix dest = some (fillIdentity (matrixInit count count)) ∧
      (isFullset count = true →
        matrixMultiply toAmbix toFuma dest = some (fillIdentity (matrixInit count count)))) ∧
    (count.toNat ∉ fumaCounts → matrixFill Real.sqrt matrix .fuma = .ok none ∧
      matrixFill Real.sqrt matrix' .toFuma = .ok none) := by
  constructor
  · intro hcount
    have hbound : ∀ c ∈ fumaCounts, c ≤ 16 := by decide
    obtain ⟨s, A, F, hconv, hA, hF⟩ := converts_exists hcols hrows hcount
    refine ⟨s, A, F, hA, hF, hconv, hconv.undoes (hbound _ hcount) dest, fun hfull => ?_⟩
    exact hconv.onto (hbound _ hcount) (fumaFullset_full hcount hfull) dest
  · intro hcount
    obtain ⟨hA, hF⟩ := fuma_none Real.sqrt hcount
    exact ⟨matrixFill_fuma (hcols ▸ hA), matrixFill_toFuma (hrows ▸ hF)⟩

/-- Six channels, whose rows are in the full set of nine. -/
theorem fuma_converts_six : ∃ toAmbix toFuma : AmbixMatrix ℝ,
    matrixFill Real.sqrt (matrixInit 9 6) .fuma = .ok (some toAmbix) ∧
    matrixFill Real.sqrt (matrixInit 6 9) .toFuma = .ok (some toFuma) ∧
    toAmbix.rows = 9 ∧
    matrixMultiply toFuma toAmbix matrixNull = some (fillIdentity (matrixInit 6 6)) := by
  obtain ⟨_, A, F, hA, hF, hconv, hproduct, -⟩ :=
    (fuma_converts 6 (matrixInit 9 6) (matrixInit 6 9) matrixNull rfl rfl).1 (by decide)
  exact ⟨A, F, hA, hF, hconv.rows, hproduct⟩

end Ambix
