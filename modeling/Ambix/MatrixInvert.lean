import Ambix.MatrixFill
import Mathlib.Order.Defs.LinearOrder

/-! matrix_invert.c and `_ambix_matrix_pinv`, in exact arithmetic. Beside its result
every inversion returns the divisors it has used. -/
namespace Ambix
open Machine

section invert
variable {K : Type} [Field K] [LinearOrder K]

structure Inversion (K : Type) [Zero K] where
  ret : Option (AmbixMatrix K)
  divisors : List K

/-! Gauss-Jordan. -/

/-- `original`, `inverted`, `errors` and the divisors so far. -/
structure GaussJordan (K : Type) [Zero K] where
  original : AmbixMatrix K
  inverted : AmbixMatrix K
  errors : Nat
  divisors : List K

namespace GaussJordan

/-- Normalise row `k` with `i_diagel`. -/
def normalize (row k : Nat) (iDiagel : K) (s : GaussJordan K) : GaussJordan K :=
  loop (fun i s => { s with
    original := s.original.set k i (s.original.data k i*iDiagel)
    inverted := s.inverted.set k i (s.inverted.data k i*iDiagel) }) row s

/-- Add row `k`, `f` times, to row `i`, from the last column to the first. -/
def addRow (row k i : Nat) (f : K) (s : GaussJordan K) : GaussJordan K :=
  loop (fun t s =>
    let j := row-1-t
    { s with
      original := s.original.set i j (s.original.data i j+f*s.original.data k j)
      inverted := s.inverted.set i j (s.inverted.data i j+f*s.inverted.data k j) }) row s

def pass (row : Nat) (eps : K) (k : Nat) (s : GaussJordan K) : GaussJordan K :=
  let diagel := s.original.data k k
  let s := if -eps < diagel ∧ diagel < eps then normalize row k 0 { s with errors := s.errors+1 }
    else normalize row k (1/diagel) { s with divisors := s.divisors ++ [diagel] }
  loop (fun i s => if i ≠ k then addRow row k i (-s.original.data i k) s else s) row s

end GaussJordan

/-- `_ambix_matrix_invert_gaussjordan`; the second result is the modified input. -/
def matrixInvertGaussjordan (input : AmbixMatrix K) (inverse : Option (AmbixMatrix K)) (eps : K) :
    Inversion K × AmbixMatrix K :=
  if input.cols ≠ input.rows then (⟨none, []⟩, input)
  else
    let row := int32Count input.rows
    let inverse := fillIdentity (inverse.getD (matrixInit input.rows input.cols))
    let s := loop (GaussJordan.pass row eps) row ⟨input, inverse, 0, []⟩
    (⟨if 0 < s.errors then none else some s.inverted, s.divisors⟩, s.original)

/-! Cholesky. -/

/-- `matrix`, `rank`, `nonneg` and the divisors so far. -/
structure Cholesky (K : Type) [Zero K] where
  matrix : AmbixMatrix K
  rank : Int
  nonneg : Int
  divisors : List K

/-- The largest diagonal entry; the upper triangle is copied to the lower one. -/
def choleskyScale (columns : Nat) (matrix : AmbixMatrix K) : K × AmbixMatrix K :=
  loop (fun i (s : K × AmbixMatrix K) =>
    (if s.1 < s.2.data i i then s.2.data i i else s.1,
      loopFrom (i+1) columns (fun j m => m.set j i (m.data i j)) s.2)) columns (0, matrix)

/-- Column `j` below the pivot `pivot` of column `i`. -/
def choleskyColumn (columns i : Nat) (pivot : K) (j : Nat) (s : Cholesky K) : Cholesky K :=
  let temp := s.matrix.data j i/pivot
  let m := s.matrix.set j i temp
  let m := m.set j j (m.data j j-temp*temp*pivot)
  { s with
    matrix := loopFrom (j+1) columns (fun k m => m.set k j (m.data k j-temp*m.data k i)) m
    divisors := s.divisors ++ [pivot] }

/-- `_am_cholesky2_decomp`; it returns `rank*nonneg`. -/
def amCholesky2Decomp (mtx : AmbixMatrix K) (toler : K) : Cholesky K :=
  let columns := mtx.cols.toNat
  let (scale, mtx) := choleskyScale columns mtx
  let eps := scale*toler
  loop (fun i s =>
    let pivot := s.matrix.data i i
    if pivot < eps then
      { s with
        matrix := s.matrix.set i i 0
        nonneg := if pivot < -8*eps then -1 else s.nonneg }
    else loopFrom (i+1) columns (choleskyColumn columns i pivot) { s with rank := s.rank+1 })
    columns ⟨mtx, 0, 1, []⟩

def Cholesky.pass (columns : Nat) (eps : K) (i : Nat) (s : Cholesky K) : Cholesky K :=
  if s.matrix.data i i < eps then
    { s with
      matrix := s.matrix.set i i 0
      nonneg := if s.matrix.data i i < -8*eps then -1 else s.nonneg }
  else loopFrom (i+1) columns (choleskyColumn columns i (s.matrix.data i i))
    { s with rank := s.rank+1 }

def choleskyInvertFactor (columns : Nat) (mtx : AmbixMatrix K) : AmbixMatrix K × List K :=
  loop (fun i (s : AmbixMatrix K × List K) =>
    let pivot := s.1.data i i
    if 0 < pivot then
      (loopFrom (i+1) columns (fun j m =>
        let m := m.set j i (-m.data j i)
        loop (fun k m => m.set j k (m.data j k+m.data j i*m.data i k)) i m)
        (s.1.set i i (1/pivot)), s.2 ++ [pivot])
    else s) columns (mtx, [])

/-- `F'DF`, in the upper triangle. -/
def choleskyProduct (columns : Nat) (m : AmbixMatrix K) : AmbixMatrix K :=
  loop (fun i m =>
    if m.data i i = 0 then
      let m := loop (fun j m => m.set j i 0) i m
      loopFrom i columns (fun j m => m.set i j 0) m
    else loopFrom (i+1) columns (fun j m =>
      let temp := m.data j i*m.data j j
      let m := if j ≠ i then m.set i j temp else m
      loopFrom i j (fun k m => m.set i k (m.data i k+temp*m.data j k)) m) m) columns m

/-- `_am_cholesky2_inverse`, with its divisors. -/
def amCholesky2Inverse (mtx : AmbixMatrix K) : AmbixMatrix K × List K :=
  let columns := int32Count mtx.cols
  let (m, divisors) := choleskyInvertFactor columns mtx
  let m := choleskyProduct columns m
  (loopFrom 1 columns (fun i m => loop (fun j m => m.set i j (m.data j i)) i m) m, divisors)

/-- `_ambix_matrix_pinvert_cholesky` into `inverse`, a fresh object if there is none. -/
def matrixPinvertCholesky (input : AmbixMatrix K) (inverse : Option (AmbixMatrix K))
    (tolerance : K) : Inversion K :=
  let trans := matrixTranspose input
  let dest := inverse.getD matrixNull
  let tall := decide (input.rows > input.cols)
  match if tall then matrixMultiply trans input matrixNull
    else matrixMultiply input trans matrixNull with
  | none => ⟨none, []⟩
  | some gram =>
    let decomp := amCholesky2Decomp gram tolerance
    let (chinv, divisors) := amCholesky2Inverse decomp.matrix
    ⟨if tall then matrixMultiply chinv trans dest else matrixMultiply trans chinv dest,
      decomp.divisors ++ divisors⟩

/-- The fallback of `_ambix_matrix_pinv`. -/
def matrixPinvGaussjordan (A : AmbixMatrix K) (P : Option (AmbixMatrix K)) (eps : K) :
    Inversion K :=
  if A.rows = A.cols then (matrixInvertGaussjordan (matrixCopy A matrixNull) P eps).1
  else
    let At := matrixTranspose A
    let dest := P.getD matrixNull
    let tall := decide (A.rows > A.cols)
    match if tall then matrixMultiply At A matrixNull else matrixMultiply A At matrixNull with
    | none => ⟨none, []⟩
    | some temp =>
      let inversion := (matrixInvertGaussjordan temp none eps).1
      match inversion.ret with
      | none => ⟨none, inversion.divisors⟩
      | some temp2 => ⟨if tall then matrixMultiply temp2 At dest else matrixMultiply At temp2 dest,
          inversion.divisors⟩

def pinvEps : K := 1/10^7

/-- `_ambix_matrix_pinv` into `P`. -/
def matrixPinv (A : AmbixMatrix K) (P : Option (AmbixMatrix K)) : Inversion K :=
  let cholesky := matrixPinvertCholesky A P pinvEps
  match cholesky.ret with
  | some result => ⟨some result, cholesky.divisors⟩
  | none =>
    let fallback := matrixPinvGaussjordan A P pinvEps
    ⟨fallback.ret, cholesky.divisors ++ fallback.divisors⟩

/-! Sizes. Everything happens in place, so the Cholesky way never fails and its result
has the size of the transpose. -/

theorem choleskyScale_size (columns : Nat) (matrix : AmbixMatrix K) :
    SameSize (choleskyScale columns matrix).2 matrix := by
  refine loop_invariant (fun _ (s : K × AmbixMatrix K) => SameSize s.2 matrix) ⟨rfl, rfl⟩ ?_
  intro i s _ hs
  exact hs.loopFrom (fun j x hx => hx.set _ _ _) _ _

theorem amCholesky2Decomp_size (mtx : AmbixMatrix K) (toler : K) :
    SameSize (amCholesky2Decomp mtx toler).matrix mtx := by
  refine loop_invariant (fun _ (s : Cholesky K) => SameSize s.matrix mtx)
    (choleskyScale_size _ _) ?_
  intro i s _ hs
  dsimp only
  split
  · exact hs.set _ _ _
  · refine loop_invariant (fun _ (s : Cholesky K) => SameSize s.matrix mtx) hs ?_
    intro j t _ ht
    exact ((ht.set _ _ _).set _ _ _).loopFrom (fun k x hx => hx.set _ _ _) _ _

theorem choleskyInvertFactor_size (columns : Nat) (mtx : AmbixMatrix K) :
    SameSize (choleskyInvertFactor columns mtx).1 mtx := by
  refine loop_invariant (fun _ (s : AmbixMatrix K × List K) => SameSize s.1 mtx) ⟨rfl, rfl⟩ ?_
  intro i s _ hs
  dsimp only
  split
  · exact (hs.set _ _ _).loopFrom (fun j x hx =>
      (hx.set _ _ _).loop (fun k y hy => hy.set _ _ _) _) _ _
  · exact hs

theorem choleskyProduct_size (columns : Nat) (m : AmbixMatrix K) :
    SameSize (choleskyProduct columns m) m := by
  refine SameSize.loop ⟨rfl, rfl⟩ (fun i x hx => ?_) _
  dsimp only
  split
  · exact (hx.loop (fun j y hy => hy.set _ _ _) _).loopFrom (fun j y hy => hy.set _ _ _) _ _
  · refine hx.loopFrom (fun j y hy => ?_) _ _
    split
    · exact (hy.set _ _ _).loopFrom (fun k z hz => hz.set _ _ _) _ _
    · exact hy.loopFrom (fun k z hz => hz.set _ _ _) _ _

theorem amCholesky2Inverse_size (mtx : AmbixMatrix K) :
    SameSize (amCholesky2Inverse mtx).1 mtx := by
  have h := (choleskyProduct_size (int32Count mtx.cols) _).trans
    (choleskyInvertFactor_size (int32Count mtx.cols) mtx)
  exact h.loopFrom (fun i x hx => hx.loop (fun j y hy => hy.set _ _ _) _) _ _

theorem matrixPinvertCholesky_some (A : AmbixMatrix K) (P : Option (AmbixMatrix K)) (eps : K) :
    ∃ m, (matrixPinvertCholesky A P eps).ret = some m ∧ m.rows = A.cols ∧ m.cols = A.rows := by
  obtain ⟨htr, htc⟩ := matrixTranspose_size A
  rw [matrixPinvertCholesky]
  by_cases htall : A.rows > A.cols
  · obtain ⟨gram, hgram, hr, hc⟩ := matrixMultiply_some (matrixTranspose A) A matrixNull htc
    have hsize := (amCholesky2Inverse_size (amCholesky2Decomp gram eps).matrix).trans
      (amCholesky2Decomp_size gram eps)
    obtain ⟨m, hm, hmr, hmc⟩ := matrixMultiply_some
      (amCholesky2Inverse (amCholesky2Decomp gram eps).matrix).1 (matrixTranspose A)
      (P.getD matrixNull) (by rw [hsize.2, hc, htr])
    simp only [htall, decide_true, if_true, hgram]
    exact ⟨m, hm, by rw [hmr, hsize.1, hr, htr], by rw [hmc, htc]⟩
  · obtain ⟨gram, hgram, hr, hc⟩ := matrixMultiply_some A (matrixTranspose A) matrixNull htr.symm
    have hsize := (amCholesky2Inverse_size (amCholesky2Decomp gram eps).matrix).trans
      (amCholesky2Decomp_size gram eps)
    obtain ⟨m, hm, hmr, hmc⟩ := matrixMultiply_some (matrixTranspose A)
      (amCholesky2Inverse (amCholesky2Decomp gram eps).matrix).1
      (P.getD matrixNull) (by rw [hsize.1, hr, htc])
    simp only [htall, decide_false, if_false, hgram, Bool.false_eq_true]
    exact ⟨m, hm, by rw [hmr, htr], by rw [hmc, hsize.2, hc, htc]⟩

theorem matrixPinv_some (A : AmbixMatrix K) (P : Option (AmbixMatrix K)) :
    ∃ m, (matrixPinv A P).ret = some m ∧ m.rows = A.cols ∧ m.cols = A.rows := by
  obtain ⟨m, hm, hr, hc⟩ := matrixPinvertCholesky_some A P pinvEps
  exact ⟨m, by rw [matrixPinv, hm], hr, hc⟩

end invert
end Ambix
