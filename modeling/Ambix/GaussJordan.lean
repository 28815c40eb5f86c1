import Ambix.MatrixInvert
import Ambix.MatrixLoops
import Ambix.Machine.Elimination
import Mathlib.LinearAlgebra.Matrix.NonsingularInverse

/-! Gauss-Jordan inversion: both arrays go through the same row operations, so that the second one
stays the product of these, and ends as the inverse once the first one is the identity. -/
namespace Ambix
open Machine

section rows
variable {K : Type} [Field K] {m : AmbixMatrix K} {n k i : Nat} {g h : Nat → Nat → K}

theorem scaleRow_entries (hm : Entries m n g) (hk : k < n) (v : K) :
    Entries (loop (fun i m => m.set k i (m.data k i*v)) n m) n
      fun r c => if r = k then g r c*v else g r c := by
  refine hm.cells (fun _ => k) (fun t => t) (fun t x ht hx => ?_) fun r c _ hc hno => ?_
  · rw [hx k t hk ht fun s hs => by omega, if_pos rfl]
  · rw [if_neg fun hr => hno c hc ⟨hr, rfl⟩]

theorem addRow_entries (hm : Entries m n g) (hi : i < n) (hk : k < n) (hik : i ≠ k) (f : K) :
    Entries (loop (fun t m => m.set i (n-1-t) (m.data i (n-1-t)+f*m.data k (n-1-t))) n m) n
      fun r c => if r = i then g r c+f*g k c else g r c := by
  refine hm.cells (fun _ => i) (fun t => n-1-t) (fun t x ht hx => ?_) fun r c _ hc hno => ?_
  · rw [hx i (n-1-t) hi (by omega) fun s hs => by omega,
      hx k (n-1-t) hk (by omega) fun s hs h => hik h.1.symm, if_pos rfl]
  · rw [if_neg fun hr => hno (n-1-c) (by omega) ⟨hr, by omega⟩]

end rows

namespace GaussJordan

section both
variable {K : Type} [Field K] {n k i : Nat} {g h : Nat → Nat → K} {s : GaussJordan K}

structure Holds (s : GaussJordan K) (n : Nat) (g h : Nat → Nat → K) : Prop where
  original : Entries s.original n g
  inverted : Entries s.inverted n h

theorem loop_both (f : Nat → AmbixMatrix K → AmbixMatrix K) (n : Nat) (s : GaussJordan K) :
    loop (fun i (s : GaussJordan K) =>
        { s with original := f i s.original, inverted := f i s.inverted }) n s =
      { s with original := loop f n s.original, inverted := loop f n s.inverted } := by
  induction n with
  | zero => rfl
  | succ n ih => rw [loop, ih, loop, loop]

theorem normalize_eq (row k : Nat) (v : K) (s : GaussJordan K) :
    normalize row k v s = { s with
      original := loop (fun i m => m.set k i (m.data k i*v)) row s.original
      inverted := loop (fun i m => m.set k i (m.data k i*v)) row s.inverted } :=
  loop_both (fun i m => m.set k i (m.data k i*v)) row s

theorem addRow_eq (row k i : Nat) (f : K) (s : GaussJordan K) :
    addRow row k i f s = { s with
      original := loop (fun t m =>
        m.set i (row-1-t) (m.data i (row-1-t)+f*m.data k (row-1-t))) row s.original
      inverted := loop (fun t m =>
        m.set i (row-1-t) (m.data i (row-1-t)+f*m.data k (row-1-t))) row s.inverted } :=
  loop_both (fun t m => m.set i (row-1-t) (m.data i (row-1-t)+f*m.data k (row-1-t))) row s

theorem Holds.normalize (hs : Holds s n g h) (hk : k < n) (v : K) :
    Holds (normalize n k v s) n (fun r c => if r = k then g r c*v else g r c)
      fun r c => if r = k then h r c*v else h r c := by
  rw [normalize_eq]
  exact ⟨scaleRow_entries hs.original hk v, scaleRow_entries hs.inverted hk v⟩

theorem Holds.addRow (hs : Holds s n g h) (hi : i < n) (hk : k < n) (hik : i ≠ k) (f : K) :
    Holds (addRow n k i f s) n (fun r c => if r = i then g r c+f*g k c else g r c)
      fun r c => if r = i then h r c+f*h k c else h r c := by
  rw [addRow_eq]
  exact ⟨addRow_entries hs.original hi hk hik f, addRow_entries hs.inverted hi hk hik f⟩

theorem Holds.congr {g' h' : Nat → Nat → K} (hs : Holds s n g h)
    (hg : ∀ r c, r < n → c < n → g r c = g' r c) (hh : ∀ r c, r < n → c < n → h r c = h' r c) :
    Holds s n g' h' := ⟨hs.original.congr hg, hs.inverted.congr hh⟩

def added (k : Nat) (f : Nat → K) (i : Nat) (g : Nat → Nat → K) (r c : Nat) : K :=
  if r ≠ k ∧ r < i then g r c+f r*g k c else g r c

theorem added_zero (k : Nat) (f : Nat → K) (g : Nat → Nat → K) : added k f 0 g = g :=
  funext fun r => funext fun _ => if_neg fun hr => Nat.not_lt_zero r hr.2

theorem added_old {f : Nat → K} {r : Nat} (hr : r = k ∨ i ≤ r) (c : Nat) :
    added k f i g r c = g r c := if_neg fun h => by omega

theorem added_row {f : Nat → K} {r : Nat} (hik : i ≠ k) (c : Nat) :
    (if r = i then added k f i g r c+f i*added k f i g k c else added k f i g r c) =
      added k f (i+1) g r c := by
  by_cases hri : r = i
  · rw [if_pos hri, hri, added_old (Or.inr (Nat.le_refl i)), added_old (Or.inl rfl), added,
      if_pos ⟨hik, Nat.lt_succ_self i⟩]
  · have hiff : (r ≠ k ∧ r < i+1) ↔ r ≠ k ∧ r < i := by omega
    rw [if_neg hri, added, added, if_congr hiff rfl rfl]

theorem added_pivot {f : Nat → K} {r : Nat} (c : Nat) :
    added k f k g r c = added k f (k+1) g r c := by
  have hiff : (r ≠ k ∧ r < k+1) ↔ r ≠ k ∧ r < k := by omega
  rw [added, added, if_congr hiff rfl rfl]

theorem Holds.eliminate (hs : Holds s n g h) (hk : k < n) :
    Holds (loop (fun i s => if i ≠ k then GaussJordan.addRow n k i (-s.original.data i k) s else s)
      n s) n (added k (fun r => -g r k) n g) (added k (fun r => -g r k) n h) := by
  refine loop_invariant (fun i s => Holds s n (added k (fun r => -g r k) i g)
    (added k (fun r => -g r k) i h)) ?_ fun i t hi ht => ?_
  · rw [added_zero, added_zero]
    exact hs
  · by_cases hik : i = k
    · rw [if_neg (not_not_intro hik), hik]
      rw [hik] at ht
      exact ht.congr (fun r c _ _ => added_pivot c) fun r c _ _ => added_pivot c
    · have hfactor : t.original.data i k = g i k := by
        rw [ht.original.data i k hi hk, added_old (Or.inr (Nat.le_refl i))]
      rw [if_pos hik, hfactor]
      exact (ht.addRow hi hk hik _).congr (fun r c _ _ => added_row hik c)
        fun r c _ _ => added_row hik c

theorem added_scaled {r : Nat} (hr : r < n) (v : K) {f f' : Nat → K} (hf : ∀ r, r ≠ k → f r = f' r)
    (c : Nat) : added k f n (fun r c => if r = k then g r c*v else g r c) r c =
      if r = k then g k c*v else g r c+f' r*(g k c*v) := by
  by_cases hrk : r = k
  · rw [added_old (Or.inl hrk), if_pos hrk, if_pos hrk, hrk]
  · rw [added, if_pos ⟨hrk, hr⟩, if_neg hrk, if_neg hrk, if_pos rfl, hf r hrk]

theorem block_sweep {m : AmbixMatrix K} {f : Nat → K} (hk : k < n) (v : K)
    (hm : Entries m n fun r c => if r = k then g k c*v else g r c+f r*(g k c*v)) :
    m.block n n = rowSweep ⟨k, hk⟩ v (fun r => f r) (.of fun r c => g r c) := by
  rw [hm.block]
  exact Matrix.ext fun r c => if_congr ⟨fun h => Fin.ext h, fun h => congrArg Fin.val h⟩ rfl rfl

/-- Scaling and elimination as one sweep of both arrays. -/
theorem sweep_spec (hk : k < n) (ho : Square s.original n) (hi : Square s.inverted n) (v : K)
    {t : GaussJordan K} (ht : t = loop (fun i s => if i ≠ k then
      addRow n k i (-s.original.data i k) s else s) n (normalize n k v s)) :
    Square t.original n ∧ Square t.inverted n ∧
      t.original.block n n = rowSweep ⟨k, hk⟩ v (fun r => -s.original.block n n r ⟨k, hk⟩)
        (s.original.block n n) ∧
      t.inverted.block n n = rowSweep ⟨k, hk⟩ v (fun r => -s.original.block n n r ⟨k, hk⟩)
        (s.inverted.block n n) := by
  have hfactor : ∀ r, r ≠ k → -(if r = k then s.original.data r k*v else s.original.data r k) =
      -s.original.data r k := fun r hr => by rw [if_neg hr]
  have hswept := ((Holds.mk (Entries.self ho) (Entries.self hi)).normalize hk v).eliminate hk
  rw [← ht] at hswept
  refine ⟨hswept.original.square, hswept.inverted.square, ?_, ?_⟩
  · exact block_sweep hk v (hswept.original.congr fun r c hr _ => added_scaled hr v hfactor c)
  · exact block_sweep hk v (hswept.inverted.congr fun r c hr _ => added_scaled hr v hfactor c)

theorem normalize_errors (row k : Nat) (v : K) (s : GaussJordan K) :
    (normalize row k v s).errors = s.errors := by rw [normalize_eq]

theorem eliminate_errors (row k : Nat) (s : GaussJordan K) :
    (loop (fun i s => if i ≠ k then addRow row k i (-s.original.data i k) s else s) row s).errors =
      s.errors := by
  refine loop_invariant (fun _ (t : GaussJordan K) => t.errors = s.errors) rfl fun i t _ ht => ?_
  by_cases hik : i = k
  · rw [if_neg (not_not_intro hik), ht]
  · rw [if_pos hik, addRow_eq, ht]

end both

section passes
variable {K : Type} [Field K] [LinearOrder K] [IsStrictOrderedRing K] {n k : Nat} {eps : K}
  {A : Matrix (Fin n) (Fin n) K} {s : GaussJordan K}

/-- What holds before pass `k`. -/
structure Sound (A : Matrix (Fin n) (Fin n) K) (k : Nat) (s : GaussJordan K) : Prop where
  original : Square s.original n
  inverted : Square s.inverted n
  product : s.inverted.block n n*A = s.original.block n n
  reduced : s.errors = 0 → Reduced k (s.original.block n n)

theorem pass_scale (n : Nat) (k : Nat) (s : GaussJordan K) (heps : 0 < eps) :
    ∃ (v : K) (t : GaussJordan K), GaussJordan.pass n eps k s = loop (fun i s => if i ≠ k then
        addRow n k i (-s.original.data i k) s else s) n (normalize n k v t) ∧
      t.original = s.original ∧ t.inverted = s.inverted ∧
      (t.errors = 0 → s.errors = 0 ∧ s.original.data k k*v = 1) := by
  by_cases hsmall : -eps < s.original.data k k ∧ s.original.data k k < eps
  · refine ⟨0, { s with errors := s.errors+1 }, ?_, rfl, rfl,
      fun h => absurd h (Nat.succ_ne_zero _)⟩
    rw [GaussJordan.pass, if_pos hsmall]
  · refine ⟨1/s.original.data k k, { s with divisors := s.divisors ++ [s.original.data k k] }, ?_,
      rfl, rfl, fun h => ⟨h, mul_one_div_cancel fun hzero => hsmall ?_⟩⟩
    · rw [GaussJordan.pass, if_neg hsmall]
    · rw [hzero]
      exact ⟨neg_lt_zero.mpr heps, heps⟩

/-- A pass keeps the product and clears its column, or counts an error. -/
theorem Sound.step (hs : Sound A k s) (hk : k < n) (heps : 0 < eps) :
    Sound A (k+1) (GaussJordan.pass n eps k s) := by
  obtain ⟨v, t, hpass, hto, hti, herrors⟩ := pass_scale n k s heps
  obtain ⟨ho, hi, hoblock, hiblock⟩ := sweep_spec hk (by rw [hto]; exact hs.original)
    (by rw [hti]; exact hs.inverted) v hpass
  rw [hto] at hoblock hiblock
  rw [hti] at hiblock
  refine ⟨ho, hi, ?_, fun hzero => ?_⟩
  · rw [hiblock, hoblock, rowSweep_mul, hs.product]
  · rw [hpass, eliminate_errors, normalize_errors] at hzero
    obtain ⟨hbefore, hpivot⟩ := herrors hzero
    rw [hoblock]
    exact (hs.reduced hbefore).step (k := ⟨k, hk⟩) hpivot

theorem Sound.run (hs : Sound A 0 s) (heps : 0 < eps) :
    Sound A n (loop (GaussJordan.pass n eps) n s) :=
  loop_invariant (fun k t => Sound A k t) hs fun _ _ hk ht => ht.step hk heps

end passes
end GaussJordan

/-- An inverse that Gauss-Jordan returns is one from both sides, and the input is left as the
identity. -/
theorem gaussjordan_inverts {n : Nat} {A : AmbixMatrix ℚ} (hA : Square A n)
    (hmem : InMemory A) {dest : Option (AmbixMatrix ℚ)} (hdest : ∀ d ∈ dest, Square d n) {eps : ℚ}
    (heps : 0 < eps) {B : AmbixMatrix ℚ}
    (hret : (matrixInvertGaussjordan A dest eps).1.ret = some B) :
    Square B n ∧ B.block n n*A.block n n = 1 ∧ A.block n n*B.block n n = 1 ∧
      (matrixInvertGaussjordan A dest eps).2.block n n = 1 := by
  have hlt := hA.lt hmem
  have hsquare : A.cols = A.rows := UInt32.toNat_inj.mp (hA.2.trans hA.1.symm)
  have hrow : int32Count A.rows = n := by rw [int32Count_eq (by rwa [hA.1]), hA.1]
  have hinverse : Square (dest.getD (matrixInit A.rows A.cols)) n := by
    cases dest with
    | none => exact hA
    | some d => exact hdest d rfl
  have hsound := GaussJordan.Sound.run (A := A.block n n) (s := ⟨A, fillIdentity
    (dest.getD (matrixInit A.rows A.cols)), 0, []⟩) ⟨hA, fillIdentity_square hinverse, by
      rw [fillIdentity_block hinverse.1 hinverse.2 hlt, one_mul], fun _ => Reduced.zero _⟩ heps
  rw [matrixInvertGaussjordan, if_neg (not_not_intro hsquare), hrow] at hret ⊢
  dsimp only at hret ⊢
  split at hret
  · cases hret
  · rename_i herrors
    obtain rfl := Option.some.inj hret
    have hone := (hsound.reduced (by omega)).eq_one
    have hproduct := hsound.product.trans hone
    exact ⟨hsound.inverted, hproduct, mul_eq_one_comm.mp hproduct, hone⟩

/-- Two rows, into an object of ones. -/
theorem gaussjordan_inverts_pair : ∃ B : AmbixMatrix ℚ,
    (matrixInvertGaussjordan (.ofFn 2 2 fun r c => if r ≤ c then 2 else 1)
      (some (.ofFn 2 2 fun _ _ => 1)) (1/10)).1.ret = some B ∧
    B.block 2 2*(AmbixMatrix.ofFn 2 2 fun r c => if r ≤ c then (2 : ℚ) else 1).block 2 2 = 1 := by
  obtain ⟨B, hret⟩ : ∃ B : AmbixMatrix ℚ,
      (matrixInvertGaussjordan (.ofFn 2 2 fun r c => if r ≤ c then 2 else 1)
        (some (.ofFn 2 2 fun _ _ => 1)) (1/10)).1.ret = some B :=
    Option.isSome_iff_exists.mp (by decide +kernel)
  exact ⟨B, hret, (gaussjordan_inverts ⟨rfl, rfl⟩ (Nat.lt_of_sub_eq_succ rfl)
    (fun d hd => by cases hd; exact ⟨rfl, rfl⟩) (by norm_num) hret).2.1⟩

end Ambix
