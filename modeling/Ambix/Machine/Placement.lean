import Mathlib.Data.Matrix.Mul

/-! Matrices that bring each of a number of channels to a place of its own, with the weight of
that place. -/
namespace Machine

section placement
variable {K : Type*} [Semiring K] {l m n : Type*} [DecidableEq m]

/-- Channel `j` goes to row `f j`. -/
def placement (f : n → m) (w : m → K) : Matrix m n K := .of fun r j => if r = f j then w r else 0

theorem placement_apply (f : n → m) (w : m → K) (r : m) (j : n) :
    placement f w r j = if r = f j then w r else 0 := rfl

theorem diagonal_mul_placement [Fintype m] (f : n → m) (v w : m → K) :
    Matrix.diagonal v*placement f w = placement f fun r => v r*w r := by
  ext r j
  rw [Matrix.diagonal_mul]
  simp only [placement_apply, mul_ite, mul_zero]

theorem placement_mul_placement [Fintype m] [DecidableEq l] (g : m → l) (f : n → m) (w : l → K) :
    placement g w*placement f (1 : m → K) = placement (g ∘ f) w := by
  ext r j
  rw [Matrix.mul_apply]
  simp [placement_apply]

theorem transpose_mul_placement [Fintype m] [DecidableEq l] {g : l → m}
    (hg : Function.Injective g) (f : n → l) (w : m → K) :
    (placement g (1 : m → K)).transpose*placement (g ∘ f) w = placement f (w ∘ g) := by
  ext r j
  rw [Matrix.mul_apply]
  by_cases hrj : r = f j
  · simp [Matrix.transpose_apply, placement_apply, hrj]
  · simp [Matrix.transpose_apply, placement_apply, hg.eq_iff, hrj, Ne.symm hrj]

/-- Channels at different places are taken back from there by the reciprocal weights. -/
theorem placement_undone [Fintype m] [DecidableEq n] {f : n → m} (hf : Function.Injective f)
    {v w : m → K} (hvw : ∀ r, v r*w r = 1) :
    (placement f v).transpose*placement f w = 1 := by
  ext i j
  rw [Matrix.mul_apply, Matrix.one_apply]
  by_cases hij : i = j
  · simp [Matrix.transpose_apply, placement_apply, hij, hvw]
  · simp [Matrix.transpose_apply, placement_apply, hf.eq_iff, hij, Ne.symm hij]

theorem placement_onto [Fintype n] [DecidableEq n] {f : n → m} (hf : Function.Bijective f)
    {v w : m → K} (hvw : ∀ r, w r*v r = 1) :
    placement f w*(placement f v).transpose = 1 := by
  ext r s
  obtain ⟨i, rfl⟩ := hf.surjective r
  obtain ⟨j, rfl⟩ := hf.surjective s
  rw [Matrix.mul_apply, Matrix.one_apply]
  by_cases hij : i = j
  · simp [Matrix.transpose_apply, placement_apply, hf.injective.eq_iff, hij, hvw]
  · simp [Matrix.transpose_apply, placement_apply, hf.injective.eq_iff, hij]

end placement
end Machine
