import Ambix.MatrixAlgebra

/-! Loops that work in place on a square matrix object. -/
namespace Ambix
open Machine

section entries
variable {K : Type} [Zero K] {m : AmbixMatrix K} {n : Nat} {g g' : Nat → Nat → K}

/-- An `n` by `n` object with the entries `g r c`. -/
structure Entries (m : AmbixMatrix K) (n : Nat) (g : Nat → Nat → K) : Prop where
  square : Square m n
  data : ∀ r c, r < n → c < n → m.data r c = g r c

theorem Entries.self (h : Square m n) : Entries m n m.data := ⟨h, fun _ _ _ _ => rfl⟩

theorem Entries.congr (h : Entries m n g) (hg : ∀ r c, r < n → c < n → g r c = g' r c) :
    Entries m n g' :=
  ⟨h.square, fun r c hr hc => (h.data r c hr hc).trans (hg r c hr hc)⟩

theorem Entries.block (h : Entries m n g) : m.block n n = .of fun i j => g i j :=
  Matrix.ext fun i j => h.data i j i.isLt j.isLt

theorem Entries.set (h : Entries m n g) (r c : Nat) (v : K) :
    Entries (m.set r c v) n fun i j => if i = r ∧ j = c then v else g i j := by
  refine ⟨h.square, fun i j hi hj => ?_⟩
  have hr : i < m.rows.toNat := by rwa [h.square.1]
  have hc : j < m.cols.toNat := by rwa [h.square.2]
  change (if (i = r ∧ j = c) ∧ i < m.rows.toNat ∧ j < m.cols.toNat then v else m.data i j) = _
  by_cases hat : i = r ∧ j = c
  · rw [if_pos ⟨hat, hr, hc⟩, if_pos hat]
  · rw [if_neg fun h => hat h.1, if_neg hat, h.data i j hi hj]

/-- Pass `t` stores to the cell `(a t, b t)` what is computed from cells that no earlier pass has
stored to. -/
theorem Entries.cells (a b : Nat → Nat) {body : Nat → AmbixMatrix K → AmbixMatrix K} {N : Nat}
    (h : Entries m n g)
    (hbody : ∀ t x, t < N →
      (∀ i j, i < n → j < n → (∀ s < t, ¬ (i = a s ∧ j = b s)) → x.data i j = g i j) →
      body t x = x.set (a t) (b t) (g' (a t) (b t)))
    (hrest : ∀ i j, i < n → j < n → (∀ s < N, ¬ (i = a s ∧ j = b s)) → g i j = g' i j) :
    Entries (loop body N m) n g' := by
  have hinv : Square (loop body N m) n ∧ ∀ i j, i < n → j < n →
      ((∀ s < N, ¬ (i = a s ∧ j = b s)) → (loop body N m).data i j = g i j) ∧
      ((∃ s < N, i = a s ∧ j = b s) → (loop body N m).data i j = g' i j) := by
    refine loop_invariant (fun t x => Square x n ∧ ∀ i j, i < n → j < n →
      ((∀ s < t, ¬ (i = a s ∧ j = b s)) → x.data i j = g i j) ∧
      ((∃ s < t, i = a s ∧ j = b s) → x.data i j = g' i j)) ?_ ?_
    · refine ⟨h.square, fun i j hi hj => ⟨fun _ => h.data i j hi hj, fun hsome => ?_⟩⟩
      obtain ⟨s, hs, -⟩ := hsome
      exact absurd hs (Nat.not_lt_zero s)
    · rintro t x ht ⟨hsquare, hx⟩
      rw [hbody t x ht fun i j hi hj => (hx i j hi hj).1]
      have hset := (Entries.self hsquare).set (a t) (b t) (g' (a t) (b t))
      refine ⟨hsquare, fun i j hi hj => ?_⟩
      rw [hset.data i j hi hj]
      by_cases hat : i = a t ∧ j = b t
      · rw [if_pos hat]
        refine ⟨fun hno => absurd hat (hno t (Nat.lt_succ_self t)), fun _ => ?_⟩
        rw [hat.1, hat.2]
      · rw [if_neg hat]
        refine ⟨fun hno => (hx i j hi hj).1 fun s hs => hno s (Nat.lt_succ_of_lt hs), ?_⟩
        rintro ⟨s, hs, hcell⟩
        refine (hx i j hi hj).2 ⟨s, ?_, hcell⟩
        have hne : s ≠ t := fun he => hat (he ▸ hcell)
        omega
  refine ⟨hinv.1, fun i j hi hj => ?_⟩
  by_cases hsome : ∃ s < N, i = a s ∧ j = b s
  · exact (hinv.2 i j hi hj).2 hsome
  · have hno : ∀ s < N, ¬ (i = a s ∧ j = b s) := fun s hs hcell => hsome ⟨s, hs, hcell⟩
    rw [(hinv.2 i j hi hj).1 hno, hrest i j hi hj hno]

end entries
end Ambix
