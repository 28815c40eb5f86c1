import Ambix.Utils
import Ambix.Machine.Loop
import Mathlib.Algebra.BigOperators.Ring.Finset

/-! matrix.c: the matrix object and the operations on it. Entries live in any
`K`; the arithmetic is that of `K`, without rounding. -/
namespace Ambix
open Machine

/-- `ambix_matrix_t`. The data is a total function that vanishes outside the
`rows` by `cols` entries, so that equal matrices are equal. -/
@[ext] structure AmbixMatrix (K : Type) [Zero K] where
  rows : UInt32
  cols : UInt32
  data : Nat → Nat → K
  blank : ∀ r c, ¬ (r < rows.toNat ∧ c < cols.toNat) → data r c = 0

namespace AmbixMatrix
variable {K : Type} [Zero K]

def ofFn (rows cols : UInt32) (f : Nat → Nat → K) : AmbixMatrix K where
  rows := rows
  cols := cols
  data r c := if r < rows.toNat ∧ c < cols.toNat then f r c else 0
  blank _ _ h := if_neg h

@[simp] theorem ofFn_rows (rows cols : UInt32) (f : Nat → Nat → K) :
    (ofFn rows cols f).rows = rows := rfl
@[simp] theorem ofFn_cols (rows cols : UInt32) (f : Nat → Nat → K) :
    (ofFn rows cols f).cols = cols := rfl

theorem ofFn_data {rows cols : UInt32} {f : Nat → Nat → K} {r c : Nat}
    (hr : r < rows.toNat) (hc : c < cols.toNat) : (ofFn rows cols f).data r c = f r c :=
  if_pos ⟨hr, hc⟩

theorem ofFn_congr {rows cols : UInt32} {f g : Nat → Nat → K}
    (h : ∀ r c, r < rows.toNat → c < cols.toNat → f r c = g r c) :
    ofFn rows cols f = ofFn rows cols g := by
  refine AmbixMatrix.ext rfl rfl (funext fun r => funext fun c => ?_)
  simp only [ofFn]
  split
  · rename_i hrc
    exact h r c hrc.1 hrc.2
  · rfl

theorem ext_entries {m m' : AmbixMatrix K} (hr : m.rows = m'.rows) (hc : m.cols = m'.cols)
    (h : ∀ r c, r < m.rows.toNat → c < m.cols.toNat → m.data r c = m'.data r c) : m = m' := by
  refine AmbixMatrix.ext hr hc (funext fun r => funext fun c => ?_)
  by_cases hrc : r < m.rows.toNat ∧ c < m.cols.toNat
  · exact h r c hrc.1 hrc.2
  · rw [m.blank r c hrc, m'.blank r c (by rwa [← hr, ← hc])]

theorem ofFn_self (m : AmbixMatrix K) : ofFn m.rows m.cols m.data = m :=
  ext_entries rfl rfl fun _ _ hr hc => ofFn_data hr hc

def set (m : AmbixMatrix K) (r c : Nat) (v : K) : AmbixMatrix K where
  rows := m.rows
  cols := m.cols
  data i j := if (i = r ∧ j = c) ∧ i < m.rows.toNat ∧ j < m.cols.toNat then v else m.data i j
  blank i j h := by rw [if_neg fun h' => h h'.2, m.blank i j h]

theorem eq_ofFn {m : AmbixMatrix K} {rows cols : UInt32} {f : Nat → Nat → K}
    (hr : m.rows = rows) (hc : m.cols = cols)
    (h : ∀ r c, r < rows.toNat → c < cols.toNat → m.data r c = f r c) : m = ofFn rows cols f := by
  subst hr hc
  exact ext_entries rfl rfl fun r c hr' hc' => (h r c hr' hc').trans (ofFn_data hr' hc').symm

theorem set_ofFn (rows cols : UInt32) (f : Nat → Nat → K) (r c : Nat) (v : K) :
    (ofFn rows cols f).set r c v =
      ofFn rows cols fun i j => if i = r ∧ j = c then v else f i j := by
  refine eq_ofFn rfl rfl fun i j hi hj => ?_
  simp only [set, ofFn_rows, ofFn_cols, hi, hj, and_true, ofFn_data hi hj]

/-- Run over all entries row by row, the way every fill of matrix.c does. -/
def fillLoop (m : AmbixMatrix K) (f : Nat → Nat → K) : AmbixMatrix K :=
  loop (fun r x => loop (fun c x => x.set r c (f r c)) m.cols.toNat x) m.rows.toNat m

theorem fillRow_eq (rows cols : UInt32) (g f : Nat → Nat → K) (r n : Nat) :
    loop (fun c x => x.set r c (f r c)) n (ofFn rows cols g) =
      ofFn rows cols fun i j => if i = r ∧ j < n then f i j else g i j := by
  refine loop_eq (fun n => ofFn rows cols fun i j => if i = r ∧ j < n then f i j else g i j)
    (ofFn_congr fun i j _ _ => if_neg fun h => Nat.not_lt_zero j h.2) fun c _ => ?_
  rw [set_ofFn]
  refine ofFn_congr fun i j _ _ => ?_
  by_cases hir : i = r
  · by_cases hjc : j = c
    · simp [hir, hjc]
    · have hiff : j < c+1 ↔ j < c := by omega
      simp [hir, hjc, hiff]
  · simp [hir]

theorem fillColumn_eq (rows cols : UInt32) (g f : Nat → Nat → K) (c n : Nat) :
    loop (fun r x => x.set r c (f r c)) n (ofFn rows cols g) =
      ofFn rows cols fun i j => if j = c ∧ i < n then f i j else g i j := by
  refine loop_eq (fun n => ofFn rows cols fun i j => if j = c ∧ i < n then f i j else g i j)
    (ofFn_congr fun i j _ _ => if_neg fun h => Nat.not_lt_zero i h.2) fun r _ => ?_
  rw [set_ofFn]
  refine ofFn_congr fun i j _ _ => ?_
  by_cases hjc : j = c
  · by_cases hir : i = r
    · simp [hir, hjc]
    · have hiff : i < r+1 ↔ i < r := by omega
      simp [hir, hjc, hiff]
  · simp [hjc]

theorem fillLoop_eq (m : AmbixMatrix K) (f : Nat → Nat → K) :
    m.fillLoop f = ofFn m.rows m.cols f := by
  have h : m.fillLoop f =
      ofFn m.rows m.cols fun i j => if i < m.rows.toNat then f i j else m.data i j := by
    refine loop_eq (fun r => ofFn m.rows m.cols fun i j => if i < r then f i j else m.data i j)
      ((ofFn_congr fun i j _ _ => if_neg (Nat.not_lt_zero i)).trans m.ofFn_self) fun r _ => ?_
    rw [fillRow_eq]
    refine ofFn_congr fun i j _ hj => ?_
    by_cases hir : i = r
    · simp [hir, hj]
    · have hiff : i < r+1 ↔ i < r := by omega
      simp [hir, hiff]
  rw [h]
  exact ofFn_congr fun i j hi _ => if_pos hi

end AmbixMatrix

variable {K : Type} [Zero K]

def SameSize (m m' : AmbixMatrix K) : Prop := m.rows = m'.rows ∧ m.cols = m'.cols

theorem SameSize.trans {a b c : AmbixMatrix K} (h : SameSize a b) (h' : SameSize b c) :
    SameSize a c := ⟨h.1.trans h'.1, h.2.trans h'.2⟩

theorem SameSize.set {m m' : AmbixMatrix K} (h : SameSize m m') (r c : Nat) (v : K) :
    SameSize (m.set r c v) m' := h

theorem SameSize.loop {body : Nat → AmbixMatrix K → AmbixMatrix K} {m m' : AmbixMatrix K}
    (h : SameSize m m') (hbody : ∀ i x, SameSize x m' → SameSize (body i x) m') (n : Nat) :
    SameSize (Machine.loop body n m) m' :=
  loop_invariant (fun _ x => SameSize x m') h fun i x _ hx => hbody i x hx

theorem SameSize.loopFrom {body : Nat → AmbixMatrix K → AmbixMatrix K} {m m' : AmbixMatrix K}
    (h : SameSize m m') (hbody : ∀ i x, SameSize x m' → SameSize (body i x) m') (lo hi : Nat) :
    SameSize (Machine.loopFrom lo hi body m) m' := h.loop (fun i x hx => hbody (lo+i) x hx) _

/-- `ambix_matrix_init`: zeroed entries, whatever the object held before. -/
def matrixInit (rows cols : UInt32) : AmbixMatrix K := AmbixMatrix.ofFn rows cols fun _ _ => 0

@[simp] theorem matrixInit_rows (rows cols : UInt32) :
    (matrixInit rows cols : AmbixMatrix K).rows = rows := rfl
@[simp] theorem matrixInit_cols (rows cols : UInt32) :
    (matrixInit rows cols : AmbixMatrix K).cols = cols := rfl

/-- `calloc`ed storage, and the result of `ambix_matrix_deinit`. -/
def matrixNull : AmbixMatrix K := matrixInit 0 0

/-- `dest`, re-initialised unless it already has the wanted dimensions. -/
def matrixResize (rows cols : UInt32) (dest : AmbixMatrix K) : AmbixMatrix K :=
  if dest.rows ≠ rows ∨ dest.cols ≠ cols then matrixInit rows cols else dest

@[simp] theorem matrixResize_rows (rows cols : UInt32) (dest : AmbixMatrix K) :
    (matrixResize rows cols dest).rows = rows := by
  by_cases h : dest.rows = rows <;> by_cases h' : dest.cols = cols <;> simp [matrixResize, h, h']

@[simp] theorem matrixResize_cols (rows cols : UInt32) (dest : AmbixMatrix K) :
    (matrixResize rows cols dest).cols = cols := by
  by_cases h : dest.rows = rows <;> by_cases h' : dest.cols = cols <;> simp [matrixResize, h, h']

/-- Fill row by row from a running data pointer. The result is the matrix and
how many items the pointer has moved. -/
def fillFrom (mtx : AmbixMatrix K) (data : Nat → K) : AmbixMatrix K × Nat :=
  loop (fun r s => loop (fun c (s : AmbixMatrix K × Nat) => (s.1.set r c (data s.2), s.2+1))
    mtx.cols.toNat s) mtx.rows.toNat (mtx, 0)

def matrixFillData (mtx : AmbixMatrix K) (data : Nat → K) : AmbixMatrix K × Nat :=
  fillFrom mtx data

/-- `_ambix_matrix_fill_data_byteswapped`; `f` reads a word of `number32_t` as a float. -/
def matrixFillDataByteswapped (f : UInt32 → K) (mtx : AmbixMatrix K) (data : Nat → UInt32) :
    AmbixMatrix K × Nat :=
  fillFrom mtx fun k => f (swap4 (data k))

theorem fillFrom_eq (mtx : AmbixMatrix K) (data : Nat → K) :
    fillFrom mtx data =
      (AmbixMatrix.ofFn mtx.rows mtx.cols fun r c => data (r*mtx.cols.toNat+c),
        mtx.rows.toNat*mtx.cols.toNat) := by
  let f : Nat → Nat → K := fun r c => data (r*mtx.cols.toNat+c)
  have hrow (r n : Nat) (m : AmbixMatrix K) :
      loop (fun c (s : AmbixMatrix K × Nat) => (s.1.set r c (data s.2), s.2+1)) n
        (m, r*mtx.cols.toNat) =
      (loop (fun c x => x.set r c (f r c)) n m, r*mtx.cols.toNat+n) := by
    induction n with
    | zero => rfl
    | succ n ih => rw [loop, ih, loop]; rfl
  have hall : fillFrom mtx data = (mtx.fillLoop f, mtx.rows.toNat*mtx.cols.toNat) := by
    refine loop_eq (fun r => (loop (fun r x => loop (fun c x => x.set r c (f r c))
      mtx.cols.toNat x) r mtx, r*mtx.cols.toNat)) (by simp [loop]) fun r _ => ?_
    rw [hrow, loop, Nat.succ_mul]
  rw [hall, AmbixMatrix.fillLoop_eq]

/-- `ambix_matrix_copy` into an object of any size. -/
def matrixCopy (src dest : AmbixMatrix K) : AmbixMatrix K :=
  (matrixResize src.rows src.cols dest).fillLoop src.data

@[simp] theorem matrixCopy_eq (src dest : AmbixMatrix K) : matrixCopy src dest = src := by
  rw [matrixCopy, AmbixMatrix.fillLoop_eq, matrixResize_rows, matrixResize_cols,
    AmbixMatrix.ofFn_self]

/-- `_ambix_matrix_transpose` into a fresh object. -/
def matrixTranspose (matrix : AmbixMatrix K) : AmbixMatrix K :=
  loop (fun r x => loop (fun c x => x.set c r (matrix.data r c)) matrix.cols.toNat x)
    matrix.rows.toNat (matrixInit matrix.cols matrix.rows)

theorem matrixTranspose_eq (matrix : AmbixMatrix K) :
    matrixTranspose matrix =
      AmbixMatrix.ofFn matrix.cols matrix.rows fun i j => matrix.data j i := by
  have h : matrixTranspose matrix = AmbixMatrix.ofFn matrix.cols matrix.rows fun i j =>
      if j < matrix.rows.toNat then matrix.data j i else 0 := by
    refine loop_eq (fun r => AmbixMatrix.ofFn matrix.cols matrix.rows fun i j =>
      if j < r then matrix.data j i else 0)
      (AmbixMatrix.ofFn_congr fun i j _ _ => if_neg (Nat.not_lt_zero j)) fun r _ => ?_
    rw [AmbixMatrix.fillColumn_eq _ _ _ (fun c r => matrix.data r c)]
    refine AmbixMatrix.ofFn_congr fun i j hi _ => ?_
    by_cases hjr : j = r
    · simp [hjr, hi]
    · have hiff : j < r+1 ↔ j < r := by omega
      simp [hjr, hiff]
  rw [h]
  exact AmbixMatrix.ofFn_congr fun i j _ hj => if_pos hj

theorem matrixTranspose_size (A : AmbixMatrix K) :
    (matrixTranspose A).rows = A.cols ∧ (matrixTranspose A).cols = A.rows := by
  rw [matrixTranspose_eq]
  exact ⟨rfl, rfl⟩

/-- `_ambix_matrix_multiply` into an object of any size; `none` stands for `NULL`. -/
def matrixMultiply {K : Type} [Semiring K] (left right dest : AmbixMatrix K) :
    Option (AmbixMatrix K) :=
  if left.cols ≠ right.rows then none
  else some ((matrixResize left.rows right.cols dest).fillLoop fun r c =>
    loop (fun i sum => sum + left.data r i * right.data i c) left.cols.toNat 0)

theorem matrixMultiply_eq {K : Type} [Semiring K] (left right dest : AmbixMatrix K)
    (h : left.cols = right.rows) :
    matrixMultiply left right dest = some (AmbixMatrix.ofFn left.rows right.cols fun r c =>
      ∑ i ∈ Finset.range left.cols.toNat, left.data r i * right.data i c) := by
  rw [matrixMultiply, if_neg (not_not_intro h), AmbixMatrix.fillLoop_eq, matrixResize_rows,
    matrixResize_cols]
  exact congrArg some (AmbixMatrix.ofFn_congr fun r c _ _ => loop_sum _ _)

theorem matrixMultiply_some {K : Type} [Semiring K] (left right dest : AmbixMatrix K)
    (h : left.cols = right.rows) :
    ∃ m, matrixMultiply left right dest = some m ∧ m.rows = left.rows ∧ m.cols = right.cols :=
  ⟨_, matrixMultiply_eq left right dest h, rfl, rfl⟩

theorem matrixMultiply_isSome {K : Type} [Semiring K] (left right dest : AmbixMatrix K) :
    (matrixMultiply left right dest).isSome = true ↔ left.cols = right.rows := by
  by_cases h : left.cols = right.rows <;> simp [matrixMultiply, h]

end Ambix
