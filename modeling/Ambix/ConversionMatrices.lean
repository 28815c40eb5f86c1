import Ambix.Interleave
import Ambix.MatrixAlgebra
import Ambix.Routing
import Ambix.SidOrder
import Mathlib.Analysis.Real.Sqrt
import Mathlib.Data.Matrix.PEquiv

/-! The conversion matrices of `ambix_matrix_fill`: routing by a permutation and weighting by a
diagonal, on all full sets. The routing keeps the degrees that the weights depend on. -/
namespace Ambix
open Machine

section fills
variable {K : Type} [Field K] {count : UInt32} {n : Nat}

theorem item_range {α : Type} (f : Nat → α) {i : Nat} (hi : i < n) :
    item ((List.range n).map f) i = .ok (f i) := by
  rw [item, List.getElem?_map, List.getElem?_range hi]
  rfl

theorem matrixDiag_eq (hcount : count.toNat = n) (w : Nat → K) :
    matrixDiag ((List.range n).map w) count =
      .ok (.ofFn count count fun r c => if r = c then w r else 0) := by
  subst hcount
  refine (loopM_eq (fun k => .ofFn count count fun r c => if r = c ∧ r < k then w r else 0) ?_
    fun i hi => ?_).trans (congrArg Except.ok (AmbixMatrix.ofFn_congr fun r c hr _ => ?_))
  · exact AmbixMatrix.ofFn_congr fun r c _ _ => if_neg fun h => Nat.not_lt_zero r h.2
  · rw [item_range w hi, ok_bind, store_ofFn _ _ _ hi hi]
    refine congrArg Except.ok (AmbixMatrix.ofFn_congr fun r c _ _ => ?_)
    by_cases hri : r = i
    · by_cases hci : c = i
      · simp [hri, hci]
      · simp [hri, hci, Ne.symm hci]
    · have hiff : r < i+1 ↔ r < i := by omega
      simp [hri, hiff]
  · simp [hr]

theorem matrixRouter_eq (hcount : count.toNat = n) (f : Nat → Nat) (hf : ∀ i < n, f i < n)
    (swap : Bool) :
    matrixRouter ((List.range n).map fun i => (f i : Int)) count swap =
      .ok (some (.ofFn count count fun r c =>
        if swap then (if r = f c then (1 : K) else 0) else if c = f r then 1 else 0)) := by
  have hlt := count.toNat_lt
  have hinside : ∀ r ∈ (List.range n).map fun i => (f i : Int), ∃ k : Nat, r = k ∧ k < n := by
    intro r hr
    obtain ⟨i, hi, rfl⟩ := List.mem_map.mp hr
    exact ⟨f i, rfl, hf i (List.mem_range.mp hi)⟩
  have hrun : routerOn routeIndex ((List.range n).map fun i => (f i : Int)) count swap =
      .ok (some (routedMatrix ((List.range n).map fun i => (f i : Int)) swap
        (matrixInit count count : AmbixMatrix K))) := by
    refine routed_some (by simp [hcount]) (by cases swap <;> rfl) (fun r hr => ?_) fun r hr => ?_
    · obtain ⟨k, rfl, hk⟩ := hinside r hr
      rw [gt_iff_lt, UInt32.lt_iff_toNat_lt, routeIndex_nat (by omega)]
      omega
    · obtain ⟨k, rfl, hk⟩ := hinside r hr
      refine Or.inr ⟨id, by rw [routeIndex_nat (by omega)], ?_⟩
      cases swap <;> exact_mod_cast hcount ▸ hk
  rw [← routerOn_routeIndex, hrun]
  refine congrArg (fun m => Except.ok (some m)) (AmbixMatrix.ofFn_congr fun r c hr hc => ?_)
  rw [matrixInit_rows, hcount] at hr
  rw [matrixInit_cols, hcount] at hc
  have hzero : (matrixInit count count : AmbixMatrix K).data r c = 0 := ite_self _
  rw [hzero]
  cases swap with
  | false => simp [passOf, placeOf, hr, eq_comm]
  | true => simp [passOf, placeOf, hc, eq_comm]

theorem orderWeights_full {N : Nat} (weight : K → K) (hcount : count.toNat = (N+1)*(N+1))
    (hN : N < 4096) : orderWeights weight count =
      some ((List.range ((N+1)*(N+1))).map fun p => weight (2*(p.sqrt : K)+1)) := by
  obtain ⟨horder, hN'⟩ := channels2order_full hcount hN
  have hdegrees := flatMap_degrees (fun l _ => weight (2*(l : K)+1)) (N+1)
  refine (if_neg horder).trans (congrArg some (Eq.trans ?_ hdegrees))
  rw [hN', List.flatMap_def, List.flatMap_def]
  refine congrArg List.flatten (List.map_congr_left fun o _ => ?_)
  rw [List.map_const', List.length_range]

end fills

/-! The four fills as matrices. -/

section matrices
variable {K : Type} [Field K] {count : UInt32} {N : Nat} {sqrt : K → K} {matrix : AmbixMatrix K}

/-- The routing of the first `N+1` degrees. -/
abbrev sidMatrix (K : Type) [Field K] (N : Nat) :
    Matrix (Fin ((N+1)*(N+1))) (Fin ((N+1)*(N+1))) K := (sidOrder.permFin (N+1)).toPEquiv.toMatrix

theorem sidMatrix_apply (i j : Fin ((N+1)*(N+1))) :
    sidMatrix K N i j = if (j : Nat) = sidOrder.perm i then 1 else 0 := by
  refine (PEquiv.toMatrix_apply _ i j).trans (if_congr ?_ rfl rfl)
  rw [Equiv.toPEquiv_apply, Option.mem_some_iff, ← Fin.val_inj, Rearrangement.permFin_val, eq_comm]

abbrev weightMatrix (weight : Nat → K) (N : Nat) :
    Matrix (Fin ((N+1)*(N+1))) (Fin ((N+1)*(N+1))) K :=
  Matrix.diagonal fun p => weight (p : Nat).sqrt

theorem sidRouter (hcount : count.toNat = (N+1)*(N+1)) (swap : Bool) :
    ∃ m, matrixRouter ((List.range ((N+1)*(N+1))).map fun p => (sidOrder.perm p : Int)) count swap =
        .ok (some m) ∧ Square m ((N+1)*(N+1)) ∧
      m.block _ _ = if swap then (sidMatrix K N).transpose else sidMatrix K N := by
  have hinside : ∀ i < (N+1)*(N+1), sidOrder.perm i < (N+1)*(N+1) := fun i hi =>
    (sidOrder.perm_lt i (N+1)).mpr hi
  refine ⟨_, matrixRouter_eq hcount _ hinside swap, ⟨hcount, hcount⟩, ?_⟩
  rw [AmbixMatrix.ofFn_block _ hcount hcount]
  cases swap with
  | false => exact Matrix.ext fun i j => (sidMatrix_apply i j).symm
  | true => exact Matrix.ext fun i j => (sidMatrix_apply j i).symm

theorem matrixFill_sid (sqrt : K → K) (hcount : matrix.rows.toNat = (N+1)*(N+1)) (hN : N < 4096) :
    ∃ m, matrixFill sqrt matrix .sid = .ok (some m) ∧ Square m ((N+1)*(N+1)) ∧
      m.block _ _ = sidMatrix K N := by
  rw [matrixFill, matrixSid2acn_full hcount hN]
  exact sidRouter hcount false

theorem matrixFill_toSid (sqrt : K → K) (hcount : matrix.rows.toNat = (N+1)*(N+1)) (hN : N < 4096) :
    ∃ m, matrixFill sqrt matrix .toSid = .ok (some m) ∧ Square m ((N+1)*(N+1)) ∧
      m.block _ _ = (sidMatrix K N).transpose := by
  rw [matrixFill, matrixSid2acn_full hcount hN]
  exact sidRouter hcount true

theorem weightDiag (weight : K → K) (hcount : count.toNat = (N+1)*(N+1)) :
    ∃ m, matrixDiag ((List.range ((N+1)*(N+1))).map fun p => weight (2*(p.sqrt : K)+1)) count =
        .ok m ∧ Square m ((N+1)*(N+1)) ∧
      m.block _ _ = weightMatrix (fun l => weight (2*(l : K)+1)) N := by
  refine ⟨_, matrixDiag_eq hcount _, ⟨hcount, hcount⟩, ?_⟩
  rw [AmbixMatrix.ofFn_block _ hcount hcount]
  refine Matrix.ext fun i j => ?_
  have hentry := Matrix.diagonal_apply (fun p : Fin ((N+1)*(N+1)) =>
    weight (2*((p : Nat).sqrt : K)+1)) i j
  exact (if_congr Fin.val_inj rfl rfl).trans hentry.symm

theorem matrixFill_n3d (sqrt : K → K) (hcount : matrix.rows.toNat = (N+1)*(N+1)) (hN : N < 4096) :
    ∃ m, matrixFill sqrt matrix .n3d = .ok (some m) ∧ Square m ((N+1)*(N+1)) ∧
      m.block _ _ = weightMatrix (fun l => 1/sqrt (2*(l : K)+1)) N := by
  obtain ⟨m, hm, hsize, hblock⟩ := weightDiag (fun w => 1/sqrt w) hcount
  refine ⟨m, ?_, hsize, hblock⟩
  rw [matrixFill, orderWeights_full _ hcount hN]
  exact map_eq_ok.mpr ⟨m, hm, rfl⟩

theorem matrixFill_toN3d (sqrt : K → K) (hcount : matrix.rows.toNat = (N+1)*(N+1))
    (hN : N < 4096) :
    ∃ m, matrixFill sqrt matrix .toN3d = .ok (some m) ∧ Square m ((N+1)*(N+1)) ∧
      m.block _ _ = weightMatrix (fun l => sqrt (2*(l : K)+1)) N := by
  obtain ⟨m, hm, hsize, hblock⟩ := weightDiag sqrt hcount
  refine ⟨m, ?_, hsize, hblock⟩
  rw [matrixFill, orderWeights_full _ hcount hN]
  exact map_eq_ok.mpr ⟨m, hm, rfl⟩

/-! Their products. -/

theorem sidMatrix_mul_transpose : sidMatrix K N*(sidMatrix K N).transpose = 1 := by
  rw [← PEquiv.toMatrix_symm, ← PEquiv.toMatrix_trans, ← Equiv.toPEquiv_symm,
    ← Equiv.toPEquiv_trans,
    Equiv.self_trans_symm, Equiv.toPEquiv_refl, PEquiv.toMatrix_refl]

theorem transpose_mul_sidMatrix : (sidMatrix K N).transpose*sidMatrix K N = 1 := by
  rw [← PEquiv.toMatrix_symm, ← PEquiv.toMatrix_trans, ← Equiv.toPEquiv_symm,
    ← Equiv.toPEquiv_trans,
    Equiv.symm_trans_self, Equiv.toPEquiv_refl, PEquiv.toMatrix_refl]

theorem weightMatrix_mul {v w : Nat → K} (h : ∀ l, v l*w l = 1) :
    weightMatrix v N*weightMatrix w N = 1 := by
  rw [Matrix.diagonal_mul_diagonal, ← Matrix.diagonal_one]
  exact congrArg Matrix.diagonal (funext fun p => h (p : Nat).sqrt)

/-- The routing goes to a channel of the same degree, and so of the same weight. -/
theorem sidMatrix_commutes (weight : Nat → K) :
    sidMatrix K N*weightMatrix weight N = weightMatrix weight N*sidMatrix K N := by
  refine Matrix.ext fun i j => ?_
  rw [Matrix.mul_diagonal, Matrix.diagonal_mul, sidMatrix_apply]
  by_cases hij : (j : Nat) = sidOrder.perm i
  · rw [if_pos hij, one_mul, mul_one, hij, sidOrder.perm_sqrt]
  · rw [if_neg hij, zero_mul, mul_zero]

end matrices

/-- On every full set that fits a float, routing and weighting are undone by their counterparts and
may change places, so that both predefined names stand for one product. -/
theorem conversions_invert (N : Nat) (count : UInt32) (hcount : count.toNat = (N+1)^2)
    (hsize : (N+1)^2 ≤ 2^24) (matrix dest : AmbixMatrix ℝ) (hrows : matrix.rows = count)
    (P : Platform ℝ) (hsqrt : P.sqrt = Real.sqrt) :
    ∃ sid toSid n3d toN3d both : AmbixMatrix ℝ,
      matrixFill Real.sqrt matrix .sid = .ok (some sid) ∧
      matrixFill Real.sqrt matrix .toSid = .ok (some toSid) ∧
      matrixFill Real.sqrt matrix .n3d = .ok (some n3d) ∧
      matrixFill Real.sqrt matrix .toN3d = .ok (some toN3d) ∧
      matrixMultiply sid toSid dest = some (fillIdentity (matrixInit count count)) ∧
      matrixMultiply toSid sid dest = some (fillIdentity (matrixInit count count)) ∧
      matrixMultiply n3d toN3d dest = some (fillIdentity (matrixInit count count)) ∧
      matrixMultiply toN3d n3d dest = some (fillIdentity (matrixInit count count)) ∧
      matrixMultiply sid n3d dest = some both ∧ matrixMultiply n3d sid dest = some both ∧
      Interleave.aiMatrixPredefined "n3d|sid".toList = some (.n3d, .sid) ∧
      Interleave.aiMatrixPredefined "sid|n3d".toList = some (.n3d, .sid) ∧
      Interleave.predefinedMatrix P .n3d .sid count = .ok (some both) := by
  have hN := order_lt hsize
  rw [pow_two] at hcount
  subst hrows
  have hsmall := square_lt (Nat.succ_le_of_lt hN)
  let one : AmbixMatrix ℝ := fillIdentity (matrixInit matrix.rows matrix.rows)
  have hone : one.block ((N+1)*(N+1)) ((N+1)*(N+1)) = 1 := fillIdentity_block hcount hcount hsmall
  have hunit : Square one ((N+1)*(N+1)) := fillIdentity_square ⟨hcount, hcount⟩
  have hroot : ∀ l : Nat, 1/Real.sqrt (2*(l : ℝ)+1)*Real.sqrt (2*(l : ℝ)+1) = 1 := fun l =>
    one_div_mul_cancel (Real.sqrt_pos.mpr (by positivity)).ne'
  obtain ⟨sid, hsid, hs, hsb⟩ := matrixFill_sid Real.sqrt hcount hN
  obtain ⟨toSid, htoSid, ht, htb⟩ := matrixFill_toSid Real.sqrt hcount hN
  obtain ⟨n3d, hn3d, hn, hnb⟩ := matrixFill_n3d Real.sqrt hcount hN
  obtain ⟨toN3d, htoN3d, hm, hmb⟩ := matrixFill_toN3d Real.sqrt hcount hN
  obtain ⟨both, hboth, hbr, hbc, hbb⟩ := matrixMultiply_block dest hs.1 hs.2 hn.1 hn.2
  have hb : Square both ((N+1)*(N+1)) := ⟨by rw [hbr, hs.1], by rw [hbc, hn.2]⟩
  refine ⟨sid, toSid, n3d, toN3d, both, hsid, htoSid, hn3d, htoN3d,
    square_product hs ht hunit ?_ dest, square_product ht hs hunit ?_ dest,
    square_product hn hm hunit ?_ dest, square_product hm hn hunit ?_ dest, hboth,
    square_product hn hs hb ?_ dest, by decide, by decide, ?_⟩
  · rw [hsb, htb, hone, sidMatrix_mul_transpose]
  · rw [hsb, htb, hone, transpose_mul_sidMatrix]
  · rw [hnb, hmb, hone, weightMatrix_mul hroot]
  · rw [hnb, hmb, hone, weightMatrix_mul fun l => (mul_comm _ _).trans (hroot l)]
  · rw [hbb, hsb, hnb, sidMatrix_commutes]
  · have hproduct : matrixMultiply sid n3d matrixNull = some both :=
      square_product hs hn hb hbb.symm matrixNull
    have hroute : Interleave.aiCalcMatrix P matrix.rows .sid = .ok (some sid) := by
      rw [Interleave.aiCalcMatrix, hsqrt]
      exact hsid
    have hnorm : Interleave.aiCalcMatrix P matrix.rows .n3d = .ok (some n3d) := by
      rw [Interleave.aiCalcMatrix, hsqrt]
      exact hn3d
    rw [Interleave.predefinedMatrix, if_neg (by decide), hroute, ok_bind, hnorm, ok_bind]
    exact congrArg Except.ok hproduct

/-- First order. -/
theorem conversions_invert_first : ∃ sid toSid : AmbixMatrix ℝ,
    matrixFill Real.sqrt (matrixInit 4 4) .sid = .ok (some sid) ∧
    matrixFill Real.sqrt (matrixInit 4 4) .toSid = .ok (some toSid) ∧
    matrixMultiply sid toSid matrixNull = some (fillIdentity (matrixInit 4 4)) := by
  let P : Platform ℝ := ⟨.little, fun _ => 0, fun _ => 0, Real.sqrt, fun _ => true, fun _ => 0⟩
  obtain ⟨sid, toSid, -, -, -, hsid, htoSid, -, -, hproduct, -⟩ := conversions_invert 1 4 rfl
    (by decide) (matrixInit 4 4) matrixNull rfl P rfl
  exact ⟨sid, toSid, hsid, htoSid, hproduct⟩

end Ambix
