import Ambix.Deinterleave
import Ambix.Machine.Saturate
import Mathlib.Data.Rat.Floor

/-! The multiplications of sample blocks by a matrix in matrix.c. The float ones work on
interleaved frames. The integer ones take a stride of `frames` between channels, so that
the two agree on the blocks that read the same in both orders. -/
namespace Ambix
open Machine

section data
variable {S K F : Type} [Semiring K] (arith : SumType K S F)

/-- `ambix_matrix_multiply_float64`, which is `ambix_matrix_multiply_float32` on wider numbers. -/
def matrixMultiplyFloat64 (dest : Nat → K) (matrix : AmbixMatrix K) (source : Nat → K)
    (frames : Nat) : Nat → K := Deinterleave.matrixMultiplyFloat32 dest matrix source frames

/-- `MTXMULTIPLY_DATA_INT`. -/
def matrixMultiplyInt (dest : Nat → S) (matrix : AmbixMatrix K) (source : Nat → S)
    (frames : Nat) : Nat → S :=
  loop (fun frame dst => loop (fun outchan dst =>
    Function.update dst (frame+frames*outchan)
      (matrixChannel arith matrix (fun inchan => source (frame+inchan*frames)) outchan))
    matrix.rows.toNat dst) frames dest

variable {dest : Nat → S} {matrix : AmbixMatrix K} {source : Nat → S} {frames f o : Nat}

theorem matrixMultiplyFloat64_at {dest : Nat → K} {source : Nat → K} (hf : f < frames)
    (ho : o < matrix.rows.toNat) :
    matrixMultiplyFloat64 dest matrix source frames (f*matrix.rows.toNat+o) =
      ∑ i ∈ Finset.range matrix.cols.toNat,
        matrix.data o i*source (f*matrix.cols.toNat+i) := by
  have hstored := loop_places (fun frame outchan => frame*matrix.rows.toNat+outchan)
    (fun frame => matrixChannel (.exact id id) matrix fun i =>
      source (frame*matrix.cols.toNat+i)) dest hf ho
    fun f' o' _ ho' h => plane_injective ho ho' h
  exact hstored.trans (matrixChannel_exact id id matrix _ o)

theorem matrixMultiplyInt_at (hf : f < frames) (ho : o < matrix.rows.toNat) :
    matrixMultiplyInt arith dest matrix source frames (f+frames*o) =
      matrixChannel arith matrix (fun i => source (f+i*frames)) o := by
  refine loop_places (fun frame outchan => frame+frames*outchan)
    (fun frame => matrixChannel arith matrix fun i => source (frame+i*frames)) dest hf ho
    fun f' o' hf' _ h => ?_
  rw [Nat.add_comm f, Nat.add_comm f', Nat.mul_comm, Nat.mul_comm frames] at h
  exact (plane_injective hf hf' h).symm

end data

/-- An item of an integer buffer; `none` is what an undefined cast leaves there. -/
abbrev Stored (bits : Nat) := Option (Sample bits)

def Stored.number {bits : Nat} (item : Stored bits) : ℚ := (item.map fun x => (x.val : ℚ)).getD 0

abbrev exactSum (bits : Nat) : SumType ℚ (Stored bits) ℚ := .exact Stored.number (castTo bits)

def matrixMultiplyInt16 {F : Type} (arith : SumType ℚ (Stored 16) F) := matrixMultiplyInt arith
def matrixMultiplyInt32 {F : Type} (arith : SumType ℚ (Stored 32) F) := matrixMultiplyInt arith

/-- Row `outchan` of the matrix on the samples that `place` points to. -/
def weightedSum {bits : Nat} (matrix : AmbixMatrix ℚ) (source : Nat → Sample bits)
    (place : Nat → Nat) (outchan : Nat) : ℚ :=
  ∑ i ∈ Finset.range matrix.cols.toNat, matrix.data outchan i*((source (place i)).val : ℚ)

theorem matrixChannel_stored {bits : Nat} (matrix : AmbixMatrix ℚ) (source : Nat → Sample bits)
    (place : Nat → Nat) (outchan : Nat) :
    matrixChannel (exactSum bits) matrix (fun i => some (source (place i))) outchan =
      castTo bits (weightedSum matrix source place outchan) :=
  matrixChannel_exact Stored.number (castTo bits) matrix _ outchan

/-! The layouts. -/

/-- Channel `outchan` of frame `frame` in an interleaved block. -/
def interleavedSum {bits : Nat} (matrix : AmbixMatrix ℚ) (source : Nat → Sample bits)
    (frame outchan : Nat) : ℚ :=
  weightedSum matrix source (fun i => frame*matrix.cols.toNat+i) outchan

/-- On blocks of this size the integer multiplication has the layout of the float one: every
interleaved sum ends up at its interleaved place, as long as all of them can be cast. -/
def SameLayout {bits : Nat} (multiply : (Nat → Stored bits) → AmbixMatrix ℚ →
    (Nat → Stored bits) → Nat → Nat → Stored bits) (rows cols : UInt32) (frames : Nat) : Prop :=
  ∀ (matrix : AmbixMatrix ℚ) (source : Nat → Sample bits) (dest : Nat → Stored bits),
    matrix.rows = rows → matrix.cols = cols →
    (∀ f < frames, ∀ o < rows.toNat, InRange bits (interleavedSum matrix source f o)) →
    ∀ f < frames, ∀ o < rows.toNat,
      (multiply dest matrix (fun i => some (source i)) frames (f*rows.toNat+o)).map Subtype.val =
        some (truncate (interleavedSum matrix source f o))

theorem matrixMultiplyExact_at {bits : Nat} {matrix : AmbixMatrix ℚ} (source : Nat → Sample bits)
    (dest : Nat → Stored bits) {frames f o : Nat} (hf : f < frames) (ho : o < matrix.rows.toNat) :
    matrixMultiplyInt (exactSum bits) dest matrix (fun i => some (source i)) frames (f+frames*o) =
      castTo bits (weightedSum matrix source (fun i => f+i*frames) o) := by
  rw [matrixMultiplyInt_at _ hf ho]
  exact matrixChannel_stored matrix source (fun i => f+i*frames) o

theorem matrixMultiplyExact_item {bits : Nat} {matrix : AmbixMatrix ℚ} (source : Nat → Sample bits)
    (dest : Nat → Stored bits) {frames p : Nat} (hp : p < frames*matrix.rows.toNat) :
    matrixMultiplyInt (exactSum bits) dest matrix (fun i => some (source i)) frames p =
      castTo bits (weightedSum matrix source (fun i => p%frames+i*frames) (p/frames)) := by
  have hframes : 0 < frames := Nat.pos_of_mul_pos_right (Nat.zero_lt_of_lt hp)
  rw [← matrixMultiplyExact_at source dest (Nat.mod_lt p hframes) (Nat.div_lt_of_lt_mul hp),
    Nat.mod_add_div]

theorem sameLayout_of_small {bits : Nat} {rows cols : UInt32} {frames : Nat}
    (hsmall : frames ≤ 1 ∨ rows = 0 ∨ cols = 0 ∨ rows = 1 ∧ cols = 1) :
    SameLayout (matrixMultiplyInt (exactSum bits)) rows cols frames := by
  intro matrix source dest hrows hcols hrange f hf o ho
  subst hrows hcols
  have hp : f*matrix.rows.toNat+o < frames*matrix.rows.toNat := plane_index hf ho
  have hsum : weightedSum matrix source (fun i => (f*matrix.rows.toNat+o)%frames+i*frames)
      ((f*matrix.rows.toNat+o)/frames) = interleavedSum matrix source f o := by
    rcases hsmall with hone | hnone | hnone | ⟨hrow, hcol⟩
    · obtain rfl : frames = 1 := by omega
      obtain rfl : f = 0 := by omega
      simp [interleavedSum, Nat.mod_one]
    · simp [hnone] at ho
    · simp [interleavedSum, weightedSum, hnone]
    · obtain rfl : o = 0 := by simpa [hrow] using ho
      simp [interleavedSum, weightedSum, hrow, hcol, Nat.mod_eq_of_lt hf, Nat.div_eq_of_lt hf]
  rw [matrixMultiplyExact_item source dest hp, hsum]
  exact castTo_value (hrange f hf o ho)

/-! A matrix with one entry, on a block with one sample that is not zero. -/

def singleEntry (rows cols : UInt32) (r c : Nat) : AmbixMatrix ℚ :=
  AmbixMatrix.ofFn rows cols fun i j => if i = r ∧ j = c then 1 else 0

def impulse (bits k : Nat) (i : Nat) : Sample bits := if i = k then .minusOne bits else .zero bits

theorem weightedSum_singleEntry {bits : Nat} {rows cols : UInt32} {r c o : Nat}
    (source : Nat → Sample bits) (place : Nat → Nat) (hc : c < cols.toNat) (ho : o < rows.toNat) :
    weightedSum (singleEntry rows cols r c) source place o =
      ((if o = r then source (place c) else .zero bits : Sample bits).val : ℚ) := by
  have hentry : ∀ i ∈ Finset.range cols.toNat,
      (singleEntry rows cols r c).data o i*((source (place i)).val : ℚ) =
        if i = c then ((if o = r then source (place c) else .zero bits : Sample bits).val : ℚ)
        else 0 := by
    intro i hi
    rw [singleEntry, AmbixMatrix.ofFn_data ho (Finset.mem_range.mp hi)]
    by_cases hic : i = c
    · by_cases hor : o = r <;> simp [hic, hor, Sample.zero]
    · simp [hic]
  rw [weightedSum]
  refine (Finset.sum_congr rfl hentry).trans ?_
  rw [Finset.sum_ite_eq', if_pos (Finset.mem_range.mpr hc)]

/-- A place stands for output `o` of frame `f` in one layout and for output `o'` of frame `f'` in
the other one. -/
theorem sameLayout_singleEntry {bits : Nat} {rows cols : UInt32} {frames : Nat}
    (hsame : SameLayout (matrixMultiplyInt (exactSum bits)) rows cols frames)
    (source : Nat → Sample bits) (r c f o f' o' : Nat) (hc : c < cols.toNat) (hf : f < frames)
    (ho : o < rows.toNat) (hf' : f' < frames) (ho' : o' < rows.toNat)
    (hplace : f*rows.toNat+o = f'+frames*o') :
    (if o = r then source (f*cols.toNat+c) else .zero bits) =
      if o' = r then source (f'+c*frames) else .zero bits := by
  have hsum (place : Nat → Nat) {o : Nat} (ho : o < rows.toNat) :=
    weightedSum_singleEntry (r := r) source place hc ho
  have hstored := hsame (singleEntry rows cols r c) source (fun _ => none) rfl rfl
    (fun g _ p hp => by
      rw [interleavedSum, hsum _ hp]
      exact inRange_sample _) f hf o ho
  rw [hplace, matrixMultiplyExact_at source _ hf' ho', hsum _ ho', castTo_sample, interleavedSum,
    hsum _ ho, truncate_intCast] at hstored
  exact Subtype.ext (Option.some.inj hstored).symm

theorem small_of_sameLayout {bits : Nat} {rows cols : UInt32} {frames : Nat}
    (hsame : SameLayout (matrixMultiplyInt (exactSum bits)) rows cols frames) :
    frames ≤ 1 ∨ rows = 0 ∨ cols = 0 ∨ rows = 1 ∧ cols = 1 := by
  by_contra hlarge
  have hframes : 2 ≤ frames := by omega
  have hrows : rows.toNat ≠ 0 := fun h => hlarge (Or.inr (Or.inl (UInt32.toNat_inj.mp h)))
  have hcols : cols.toNat ≠ 0 := fun h =>
    hlarge (Or.inr (Or.inr (Or.inl (UInt32.toNat_inj.mp h))))
  have hdiffer : Sample.minusOne bits ≠ .zero bits := fun h => by
    cases congrArg Subtype.val h
  by_cases hrow : rows.toNat = 1
  · -- one output: the second input of the first frame is looked for `frames` items away
    have hcol : cols.toNat ≠ 1 := fun h => hlarge (Or.inr (Or.inr (Or.inr
      ⟨UInt32.toNat_inj.mp hrow, UInt32.toNat_inj.mp h⟩)))
    have h := sameLayout_singleEntry hsame (impulse bits 1) 0 1 0 0 0 0 (by omega) (by omega)
      (by omega) (by omega) (by omega) (by simp)
    simp only [impulse, Nat.zero_mul, Nat.zero_add, Nat.one_mul, if_true] at h
    rw [if_neg (show frames ≠ 1 by omega)] at h
    exact hdiffer h
  · -- the place of the second output holds the first output of the second frame
    have h := sameLayout_singleEntry hsame (impulse bits 0) 1 0 0 1 1 0 (by omega) (by omega)
      (by omega) (by omega) (by omega) (by simp)
    simp only [impulse, Nat.zero_mul, Nat.zero_add, if_true] at h
    rw [if_neg (show (0 : Nat) ≠ 1 by decide)] at h
    exact hdiffer h

/-- Over exact arithmetic the float multiplication stores the interleaved sums. The integer ones do
for every matrix and block of a size, as long as the sums can be cast, if and only if the size is
small. -/
theorem sameLayout_iff (rows cols : UInt32) (frames : Nat) :
    (∀ (bits : Nat) (matrix : AmbixMatrix ℚ) (source : Nat → Sample bits) (dest : Nat → ℚ),
      ∀ f < frames, ∀ o < matrix.rows.toNat,
        matrixMultiplyFloat64 dest matrix (fun i => ((source i).val : ℚ)) frames
          (f*matrix.rows.toNat+o) = interleavedSum matrix source f o) ∧
    (SameLayout (matrixMultiplyInt16 (exactSum 16)) rows cols frames ↔
      frames ≤ 1 ∨ rows = 0 ∨ cols = 0 ∨ rows = 1 ∧ cols = 1) ∧
    (SameLayout (matrixMultiplyInt32 (exactSum 32)) rows cols frames ↔
      frames ≤ 1 ∨ rows = 0 ∨ cols = 0 ∨ rows = 1 ∧ cols = 1) :=
  ⟨fun _ _ _ _ _ hf _ ho => matrixMultiplyFloat64_at hf ho,
    ⟨small_of_sameLayout, sameLayout_of_small⟩, ⟨small_of_sameLayout, sameLayout_of_small⟩⟩

/-- Two channels that change places, on two frames. -/
theorem sameLayout_fails :
    let swap : AmbixMatrix ℚ := .ofFn 2 2 fun i j => if i = j then 0 else 1
    let source (bits : Nat) : Nat → Sample bits := impulse bits 0
    (∀ f < 2, ∀ o < 2, InRange 16 (interleavedSum swap (source 16) f o)) ∧
    interleavedSum swap (source 16) 0 1 = -1 ∧
    matrixMultiplyInt16 (exactSum 16) (fun _ => none) swap (fun i => some (source 16 i)) 2 (0*2+1) =
      some (.zero 16) ∧
    ¬ SameLayout (matrixMultiplyInt16 (exactSum 16)) 2 2 2 ∧
    (∀ f < 2, ∀ o < 2, InRange 32 (interleavedSum swap (source 32) f o)) ∧
    interleavedSum swap (source 32) 0 1 = -1 ∧
    matrixMultiplyInt32 (exactSum 32) (fun _ => none) swap (fun i => some (source 32 i)) 2 (0*2+1) =
      some (.zero 32) ∧
    ¬ SameLayout (matrixMultiplyInt32 (exactSum 32)) 2 2 2 := by
  refine ⟨by decide +kernel, by decide +kernel, by decide +kernel, fun h => ?_,
    by decide +kernel, by decide +kernel, by decide +kernel, fun h => ?_⟩
  · exact absurd (small_of_sameLayout h) (by decide)
  · exact absurd (small_of_sameLayout h) (by decide)

end Ambix
