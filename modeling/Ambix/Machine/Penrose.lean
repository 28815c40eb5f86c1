import Mathlib.LinearAlgebra.Matrix.NonsingularInverse

/-! Pseudo-inverses, and those that come from the inverse of `W*W^T`. -/
namespace Machine

section penrose
variable {K : Type*} [CommRing K] {m n : Type*} [Fintype m] [Fintype n] [DecidableEq m]

/-- The four equations of a pseudo-inverse. -/
structure Penrose (A : Matrix m n K) (P : Matrix n m K) : Prop where
  keeps : A*P*A = A
  kept : P*A*P = P
  symmLeft : (A*P).transpose = A*P
  symmRight : (P*A).transpose = P*A

omit [DecidableEq m] in
theorem Penrose.transpose {A : Matrix m n K} {P : Matrix n m K} (h : Penrose A P) :
    Penrose A.transpose P.transpose := by
  constructor
  · rw [← Matrix.transpose_mul, ← Matrix.transpose_mul, ← Matrix.mul_assoc, h.keeps]
  · rw [← Matrix.transpose_mul, ← Matrix.transpose_mul, ← Matrix.mul_assoc, h.kept]
  · rw [← Matrix.transpose_mul, h.symmRight, h.symmRight]
  · rw [← Matrix.transpose_mul, h.symmLeft, h.symmLeft]

theorem Penrose.of_right {A : Matrix m n K} {P : Matrix n m K} (h : A*P = 1)
    (hsymm : (P*A).transpose = P*A) : Penrose A P where
  keeps := by rw [h, Matrix.one_mul]
  kept := by rw [Matrix.mul_assoc, h, Matrix.mul_one]
  symmLeft := by rw [h, Matrix.transpose_one]
  symmRight := hsymm

theorem inverse_symm {G X : Matrix m m K} (hG : G.transpose = G) (h : X*G = 1) :
    X.transpose = X := by
  have hright : G*X = 1 := mul_eq_one_comm.mp h
  have hleft : X.transpose*G = 1 := by
    rw [← hG, ← Matrix.transpose_mul, hright, Matrix.transpose_one]
  calc X.transpose = X.transpose*(G*X) := by rw [hright, Matrix.mul_one]
    _ = X := by rw [← Matrix.mul_assoc, hleft, Matrix.one_mul]

variable {W : Matrix m n K} {X : Matrix m m K}

theorem inverse_gram_symm (h : X*(W*W.transpose) = 1) : X.transpose = X :=
  inverse_symm (by rw [Matrix.transpose_mul, Matrix.transpose_transpose]) h

/-- `W^T*inv(W*W^T)`. -/
theorem penrose_wide (h : X*(W*W.transpose) = 1) :
    W*(W.transpose*X) = 1 ∧ Penrose W (W.transpose*X) := by
  have hone : W*(W.transpose*X) = 1 := by
    rw [← Matrix.mul_assoc]
    exact mul_eq_one_comm.mp h
  refine ⟨hone, .of_right hone ?_⟩
  rw [Matrix.transpose_mul, Matrix.transpose_mul, inverse_gram_symm h, Matrix.transpose_transpose,
    Matrix.mul_assoc]

/-- `inv(W*W^T)*W`, for the transpose of `W`. -/
theorem penrose_tall (h : X*(W*W.transpose) = 1) :
    X*W*W.transpose = 1 ∧ Penrose W.transpose (X*W) := by
  refine ⟨by rw [Matrix.mul_assoc, h], ?_⟩
  have htransposed := (penrose_wide h).2.transpose
  rwa [Matrix.transpose_mul, inverse_gram_symm h, Matrix.transpose_transpose] at htransposed

end penrose
end Machine
