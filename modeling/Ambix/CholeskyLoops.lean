import Ambix.Gram
import Ambix.Machine.Factorization

/-! The loops of the Cholesky inversion, in place on one square array: what each of them leaves of
the entries it starts from. -/
namespace Ambix
open Machine

/-! The decomposition. -/

section decomposition
variable {K : Type} [Field K] {n i j : Nat} {g : Nat → Nat → K} {s : Cholesky K}

/-- The columns between the pivot column `i` and column `j` are finished, the multipliers of their
rows are stored. -/
def columnsDone (i : Nat) (pivot : K) (j : Nat) (g : Nat → Nat → K) (r c : Nat) : K :=
  if c = i ∧ i < r ∧ r < j then g r i/pivot
  else if i < c ∧ c < j ∧ c ≤ r then g r c-g c i/pivot*g r i else g r c

theorem choleskyColumn_entries (hs : Entries s.matrix n g) (hij : i < j) (hj : j < n) {pivot : K}
    (hpivot : pivot ≠ 0) : Entries (choleskyColumn n i pivot j s).matrix n fun r c =>
      if r = j ∧ c = i then g j i/pivot
      else if c = j ∧ j ≤ r then g r j-g j i/pivot*g r i else g r c := by
  have hi : i < n := hij.trans hj
  have htemp : s.matrix.data j i = g j i := hs.data j i hj hi
  have hmultiplier := hs.set j i (g j i/pivot)
  have hdiagonal := hmultiplier.set j j (g j j-g j i/pivot*g j i)
  rw [choleskyColumn]
  dsimp only
  rw [htemp, hmultiplier.data j j hj hj, if_neg fun h => hij.ne' h.2]
  -- the pivot divides only if it is not 0, and then the square is that of the old entry
  have hsquare : g j i/pivot*(g j i/pivot)*pivot = g j i/pivot*g j i := by
    rw [mul_assoc, div_mul_cancel₀ _ hpivot]
  rw [hsquare]
  refine hdiagonal.cells (fun t => j+1+t) (fun _ => j) (fun t x ht hx => ?_)
    fun r c hr hc hno => ?_
  · -- column `i` below row `j` still holds what the multipliers come from
    have hcell := hx (j+1+t) j (by omega) hj fun s hs => by omega
    have hleft := hx (j+1+t) i (by omega) hi fun s _ h => hij.ne h.2
    dsimp only
    rw [hcell, hleft]
    grind
  · have hbelow : ¬ (c = j ∧ j+1 ≤ r) := fun h => hno (r-(j+1)) (by omega) ⟨by omega, h.1⟩
    grind

theorem choleskyColumns_entries (hs : Entries s.matrix n g) (hi : i < n) {pivot : K}
    (hpivot : pivot ≠ 0) :
    Entries (loopFrom (i+1) n (choleskyColumn n i pivot) s).matrix n (columnsDone i pivot n g) := by
  have hdone : Entries (loopFrom (i+1) n (choleskyColumn n i pivot) s).matrix n
      (columnsDone i pivot (i+1+(n-(i+1))) g) := by
    refine loop_invariant (fun t (x : Cholesky K) =>
      Entries x.matrix n (columnsDone i pivot (i+1+t) g)) (hs.congr fun r c _ _ => ?_)
      fun t x ht hx => ?_
    · rw [columnsDone]
      grind
    · refine (choleskyColumn_entries hx (j := i+1+t) (by omega) (by omega) hpivot).congr
        fun r c _ _ => ?_
      simp only [columnsDone]
      grind
  rwa [Nat.add_sub_cancel' hi] at hdone

end decomposition

section factors
variable {K : Type} [Field K] {n i : Nat} {G : Nat → Nat → K}

/-- The array before pass `i`: the columns before `i` hold the pivots and the multipliers, the
others what is left of `G`, and nothing has changed above the diagonal. -/
def factored (G : Nat → Nat → K) (i r c : Nat) : K :=
  if r < c then G r c
  else if c < i then if r = c then schur G c c c else multiplier G r c
  else schur G i r c

theorem factored_zero (G : Nat → Nat → K) (r c : Nat) : factored G 0 r c = G r c := by
  rw [factored, if_neg (Nat.not_lt_zero c)]
  exact ite_self _

theorem factored_pivot (G : Nat → Nat → K) (i : Nat) : factored G i i i = schur G i i i := by
  rw [factored, if_neg (Nat.lt_irrefl i), if_neg (Nat.lt_irrefl i)]

theorem factored_step (G : Nat → Nat → K) {i r c : Nat} (hr : r < n) (hc : c < n) :
    columnsDone i (schur G i i i) n (factored G i) r c = factored G (i+1) r c := by
  have hsucc : schur G (i+1) r c =
    schur G i r c-schur G i c i/schur G i i i*schur G i r i := rfl
  simp only [columnsDone, factored, multiplier, hsucc]
  grind

end factors

section run
variable {K : Type} [Field K] [LinearOrder K] {n : Nat} {G : Nat → Nat → K} {m : AmbixMatrix K}
  {toler : K}

def decompBefore (mtx : AmbixMatrix K) (toler : K) (i : Nat) : Cholesky K :=
  loop (Cholesky.pass mtx.cols.toNat ((choleskyScale mtx.cols.toNat mtx).1*toler)) i
    ⟨(choleskyScale mtx.cols.toNat mtx).2, 0, 1, []⟩

/-- The pivot that pass `i` meets. -/
def decompPivot (mtx : AmbixMatrix K) (toler : K) (i : Nat) : K :=
  (decompBefore mtx toler i).matrix.data i i

theorem decompBefore_entries (hm : Entries m n G) (hsymm : ∀ r c, G r c = G c r)
    (hlarge : ∀ i < n, (choleskyScale n m).1*toler ≤ decompPivot m toler i)
    (hpivot : ∀ i < n, decompPivot m toler i ≠ 0) {i : Nat} (hi : i ≤ n) :
    Entries (decompBefore m toler i).matrix n (factored G i) := by
  induction i with
  | zero =>
    have hscale := (choleskyScale_symm hm hsymm).1
    rw [← hm.square.2] at hscale ⊢
    exact hscale.congr fun r c _ _ => (factored_zero G r c).symm
  | succ i ih =>
    have hbefore := ih (Nat.le_of_succ_le hi)
    have hdiag : decompPivot m toler i = schur G i i i := by
      rw [decompPivot, hbefore.data i i hi hi, factored_pivot]
    rw [decompBefore, loop, ← decompBefore, hm.square.2, Cholesky.pass_pivot (hlarge i hi)]
    change Entries (loopFrom (i+1) n (choleskyColumn n i (decompPivot m toler i)) _).matrix n _
    rw [hdiag]
    exact (choleskyColumns_entries (s := { decompBefore m toler i with
      rank := (decompBefore m toler i).rank+1 }) hbefore hi (hdiag ▸ hpivot i hi)).congr
      fun r c hr hc => factored_step G hr hc

theorem decompPivot_eq (hm : Entries m n G) (hsymm : ∀ r c, G r c = G c r)
    (hlarge : ∀ i < n, (choleskyScale n m).1*toler ≤ decompPivot m toler i)
    (hpivot : ∀ i < n, decompPivot m toler i ≠ 0) {i : Nat} (hi : i < n) :
    decompPivot m toler i = schur G i i i := by
  rw [decompPivot, (decompBefore_entries hm hsymm hlarge hpivot hi.le).data i i hi hi,
    factored_pivot]

theorem amCholesky2Decomp_entries (hm : Entries m n G) (hsymm : ∀ r c, G r c = G c r)
    (hlarge : ∀ i < n, (choleskyScale n m).1*toler ≤ decompPivot m toler i)
    (hpivot : ∀ i < n, decompPivot m toler i ≠ 0) :
    Entries (amCholesky2Decomp m toler).matrix n (factored G n) := by
  have hlast := decompBefore_entries hm hsymm hlarge hpivot (Nat.le_refl n)
  rwa [decompBefore, ← hm.square.2, ← amCholesky2Decomp_eq, hm.square.2] at hlast

end run

/-! The inversion of the factors. -/

section inversion
variable {K : Type} [Field K] {n i j : Nat} {g : Nat → Nat → K} {m : AmbixMatrix K}

def rowsSwept (i j : Nat) (g : Nat → Nat → K) (r c : Nat) : K :=
  if i < r ∧ r < j ∧ c ≤ i then if c = i then -g r i else g r c+-g r i*g i c else g r c

theorem sweepRow_entries (hm : Entries m n g) (hij : i < j) (hj : j < n) :
    Entries (loop (fun k m => m.set j k (m.data j k+m.data j i*m.data i k)) i
      (m.set j i (-m.data j i))) n fun r c =>
        if r = j ∧ c ≤ i then if c = i then -g j i else g j c+-g j i*g i c else g r c := by
  have hi : i < n := hij.trans hj
  rw [hm.data j i hj hi]
  refine (hm.set j i (-g j i)).cells (fun _ => j) (fun t => t) (fun t x ht hx => ?_)
    fun r c hr hc hno => ?_
  · -- row `i` is finished, and the factor in column `i` is not written again
    have hcell := hx j t hj (by omega) fun s hs => by omega
    have hfactor := hx j i hj hi fun s hs => by omega
    have hrow := hx i t hi (by omega) fun s _ h => hij.ne h.1
    rw [hcell, hfactor, hrow]
    grind
  · have hout : ¬ (r = j ∧ c < i) := fun h => hno c h.2 ⟨h.1, rfl⟩
    grind

theorem sweepRows_entries (hm : Entries m n g) (hi : i < n) :
    Entries (loopFrom (i+1) n (fun j m =>
      loop (fun k m => m.set j k (m.data j k+m.data j i*m.data i k)) i
        (m.set j i (-m.data j i))) m) n (rowsSwept i n g) := by
  have hdone : Entries (loopFrom (i+1) n (fun j m =>
      loop (fun k m => m.set j k (m.data j k+m.data j i*m.data i k)) i
        (m.set j i (-m.data j i))) m) n (rowsSwept i (i+1+(n-(i+1))) g) := by
    refine loop_invariant (fun t x => Entries x n (rowsSwept i (i+1+t) g))
      (hm.congr fun r c _ _ => ?_) fun t x ht hx => ?_
    · rw [rowsSwept]
      grind
    · refine (sweepRow_entries hx (j := i+1+t) (by omega) (by omega)).congr fun r c _ _ => ?_
      simp only [rowsSwept]
      grind
  rwa [Nat.add_sub_cancel' hi] at hdone

/-- The array before pass `i`: the inverse of the factor so far, and the inverse pivots. -/
def inverted (g : Nat → Nat → K) (i r c : Nat) : K :=
  if c < r ∧ c < i then lowerInverse g i r c
  else if r = c ∧ r < i then 1/g r r else g r c

theorem inverted_pivot (g : Nat → Nat → K) (i : Nat) : inverted g i i i = g i i := by
  rw [inverted, if_neg (by omega), if_neg (by omega)]

theorem lowerInverse_pivot (g : Nat → Nat → K) {i r : Nat} (h : i < r) :
    lowerInverse g (i+1) r i = -g r i := by
  rw [lowerInverse_succ_below h, lowerInverse_right (Nat.le_refl i) h.ne', lowerInverse_diag,
    mul_one, zero_add]

theorem inverted_step (g : Nat → Nat → K) {i r c : Nat} (hr : r < n) :
    rowsSwept i n (fun r c => if r = i ∧ c = i then 1/g i i else inverted g i r c) r c =
      inverted g (i+1) r c := by
  by_cases hir : i < r
  · have hbelow := lowerInverse_succ_below (g := g) hir c
    have hpivot := lowerInverse_pivot g hir
    simp only [rowsSwept, inverted]
    grind
  · have habove := lowerInverse_succ_above (g := g) (Nat.le_of_not_lt hir) c
    simp only [rowsSwept, inverted]
    grind

end inversion

section invert
variable {K : Type} [Field K] [LinearOrder K] {n : Nat} {g : Nat → Nat → K} {m : AmbixMatrix K}

theorem choleskyInvertFactor_entries (hm : Entries m n g) (hpos : ∀ i < n, 0 < g i i) :
    Entries (choleskyInvertFactor n m).1 n (inverted g n) := by
  refine loop_invariant (fun i (s : AmbixMatrix K × List K) => Entries s.1 n (inverted g i))
    (hm.congr fun r c _ _ => ?_) fun i s hi hs => ?_
  · rw [inverted, if_neg (by omega), if_neg (by omega)]
  · have hdiag : s.1.data i i = g i i := by
      rw [hs.data i i hi hi, inverted_pivot]
    dsimp only
    rw [hdiag, if_pos (hpos i hi)]
    exact (sweepRows_entries (hs.set i i (1/g i i)) hi).congr fun r c hr _ => inverted_step g hr

end invert

/-! The product of the inverted factors. -/

section product
variable {K : Type} [Field K] {n i j : Nat} {g : Nat → Nat → K} {m : AmbixMatrix K}

def foldRow (i j : Nat) (m : AmbixMatrix K) : AmbixMatrix K :=
  let temp := m.data j i*m.data j j
  let m := if j ≠ i then m.set i j temp else m
  loopFrom i j (fun k m => m.set i k (m.data i k+temp*m.data j k)) m

theorem foldRow_entries (hm : Entries m n g) (hij : i < j) (hj : j < n) :
    Entries (foldRow i j m) n fun r c =>
      if r = i ∧ i ≤ c ∧ c < j then g i c+g j i*g j j*g j c
      else if r = i ∧ c = j then g j i*g j j else g r c := by
  have hi : i < n := hij.trans hj
  rw [foldRow, hm.data j i hj hi, hm.data j j hj hj, if_pos hij.ne']
  refine (hm.set i j (g j i*g j j)).cells (fun _ => i) (fun t => i+t) (fun t x ht hx => ?_)
    fun r c hr hc hno => ?_
  · have hcell := hx i (i+t) hi (by omega) fun s hs => by omega
    have hrow := hx j (i+t) hj (by omega) fun s _ h => hij.ne' h.1
    dsimp only
    rw [hcell, hrow]
    grind
  · have hout : ¬ (r = i ∧ i ≤ c ∧ c < j) := fun h => hno (c-i) (by omega) ⟨h.1, by omega⟩
    grind

def rowFolded (i j : Nat) (g : Nat → Nat → K) (r c : Nat) : K :=
  if r = i ∧ i ≤ c ∧ c < j then packedProduct g j i c else g r c

theorem packedProduct_succ (g : Nat → Nat → K) (j r c : Nat) : packedProduct g (j+1) r c =
    packedProduct g j r c+unitLower g j r*g j j*unitLower g j c := Finset.sum_range_succ _ _

theorem packedProduct_zero (g : Nat → Nat → K) {j c : Nat} (hj : j ≤ c) (r : Nat) :
    packedProduct g j r c = 0 := by
  refine Finset.sum_eq_zero fun t ht => ?_
  rw [unitLower_above g (Nat.lt_of_lt_of_le (Finset.mem_range.mp ht) hj), mul_zero]

theorem rowFolded_start (g : Nat → Nat → K) (i r c : Nat) :
    rowFolded i (i+1) g r c = g r c := by
  rw [rowFolded]
  split
  · rename_i h
    obtain rfl : c = i := by omega
    rw [h.1, packedProduct_succ, packedProduct_zero g (Nat.le_refl c), unitLower_diag, one_mul,
      mul_one, zero_add]
  · rfl

theorem rowFolded_step (g : Nat → Nat → K) {i j : Nat} (hij : i < j) (r c : Nat) :
    (if r = i ∧ i ≤ c ∧ c < j then
        rowFolded i j g i c+rowFolded i j g j i*rowFolded i j g j j*rowFolded i j g j c
      else if r = i ∧ c = j then rowFolded i j g j i*rowFolded i j g j j
      else rowFolded i j g r c) = rowFolded i (j+1) g r c := by
  have hother (c : Nat) : rowFolded i j g j c = g j c := if_neg fun h => hij.ne' h.1
  rw [hother, hother, hother]
  by_cases hcell : r = i ∧ i ≤ c ∧ c < j+1
  · rw [rowFolded, rowFolded, rowFolded, if_pos hcell, packedProduct_succ, unitLower_below g hij]
    by_cases hcj : c = j
    · rw [if_neg (by omega), if_pos ⟨hcell.1, hcj⟩, hcj, packedProduct_zero g (Nat.le_refl j),
        unitLower_diag, mul_one, zero_add]
    · have hlt : i ≤ c ∧ c < j := by omega
      rw [if_pos ⟨hcell.1, hlt⟩, if_pos ⟨rfl, hlt⟩, unitLower_below g hlt.2]
  · rw [if_neg (by omega), if_neg (by omega), rowFolded, rowFolded, if_neg (by omega),
      if_neg hcell]

theorem foldRows_entries (hm : Entries m n g) (hi : i < n) :
    Entries (loopFrom (i+1) n (foldRow i) m) n (rowFolded i n g) := by
  have hdone : Entries (loopFrom (i+1) n (foldRow i) m) n (rowFolded i (i+1+(n-(i+1))) g) := by
    refine loop_invariant (fun t x => Entries x n (rowFolded i (i+1+t) g))
      (hm.congr fun r c _ _ => (rowFolded_start g i r c).symm) fun t x ht hx => ?_
    exact (foldRow_entries hx (j := i+1+t) (by omega) (by omega)).congr
      fun r c _ _ => rowFolded_step g (by omega) r c
  rwa [Nat.add_sub_cancel' hi] at hdone

/-- The array before pass `i`: the rows before `i` hold the product above the diagonal. -/
def folded (n : Nat) (g : Nat → Nat → K) (i r c : Nat) : K :=
  if r < i ∧ r ≤ c then packedProduct g n r c else g r c

theorem folded_below (n : Nat) (g : Nat → Nat → K) {i r c : Nat} (h : i ≤ r ∨ c < r) :
    folded n g i r c = g r c := if_neg (by omega)

theorem packedProduct_folded (n : Nat) (g : Nat → Nat → K) (i c : Nat) :
    packedProduct (folded n g i) n i c = packedProduct g n i c := by
  refine Finset.sum_congr rfl fun t _ => ?_
  by_cases hti : t < i
  · -- the diagonal entries that are gone belong to rows without an entry in column `i`
    rw [unitLower_above _ hti, unitLower_above _ hti, zero_mul, zero_mul, zero_mul, zero_mul]
  · have hlower (c : Nat) : unitLower (folded n g i) t c = unitLower g t c := by
      rw [unitLower, unitLower, folded_below n g (Or.inl (Nat.le_of_not_lt hti))]
    rw [hlower, hlower, folded_below n g (Or.inl (Nat.le_of_not_lt hti))]

theorem folded_step (n : Nat) (g : Nat → Nat → K) {i r c : Nat} (hc : c < n) :
    rowFolded i n (folded n g i) r c = folded n g (i+1) r c := by
  by_cases hcell : r = i ∧ i ≤ c
  · rw [rowFolded, if_pos ⟨hcell.1, hcell.2, hc⟩, packedProduct_folded, folded,
      if_pos (by omega), hcell.1]
  · have hiff : (r < i+1 ∧ r ≤ c) ↔ r < i ∧ r ≤ c := by omega
    rw [rowFolded, if_neg (by omega), folded, folded, if_congr hiff rfl rfl]

def mirrored (g : Nat → Nat → K) (i r c : Nat) : K := if c < r ∧ r < i then g c r else g r c

theorem mirrored_entries (hm : Entries m n g) :
    Entries (loopFrom 1 n (fun i m => loop (fun j m => m.set i j (m.data j i)) i m) m) n
      (mirrored g n) := by
  have hdone : Entries (loopFrom 1 n (fun i m => loop (fun j m => m.set i j (m.data j i)) i m) m) n
      (mirrored g (1+(n-1))) := by
    refine loop_invariant (fun t x => Entries x n (mirrored g (1+t))) (hm.congr fun r c _ _ => ?_)
      fun t x ht hx => hx.cells (fun _ => 1+t) (fun s => s) (fun s y hs hy => ?_)
        fun r c _ _ hno => ?_
    · rw [mirrored, if_neg (by omega)]
    · have hupper := hy s (1+t) (by omega) (by omega) fun s' hs' => by omega
      rw [hupper]
      simp only [mirrored]
      grind
    · have hout : ¬ (r = 1+t ∧ c < 1+t) := fun h => hno c h.2 ⟨h.1, rfl⟩
      simp only [mirrored]
      grind
  refine hdone.congr fun r c hr _ => ?_
  simp only [mirrored]
  grind

theorem folded_mirrored {r c : Nat} (hr : r < n) (hc : c < n) :
    mirrored (folded n g n) n r c = packedProduct g n r c := by
  by_cases hcr : c < r
  · rw [mirrored, if_pos ⟨hcr, hr⟩, folded, if_pos ⟨hc, hcr.le⟩, packedProduct_symm]
  · rw [mirrored, if_neg fun h => hcr h.1, folded, if_pos ⟨hr, Nat.le_of_not_lt hcr⟩]

end product

/-! All of the inverse. -/

section inverse
variable {K : Type} [Field K] [LinearOrder K] {n : Nat} {G g : Nat → Nat → K} {m : AmbixMatrix K}
  {toler : K}

theorem choleskyProduct_entries (hm : Entries m n g) (hne : ∀ i < n, g i i ≠ 0) :
    Entries (choleskyProduct n m) n (folded n g n) := by
  refine loop_invariant (fun i x => Entries x n (folded n g i))
    (hm.congr fun r c _ _ => (folded_below n g (Or.inl (Nat.zero_le r))).symm) fun i x hi hx => ?_
  have hdiag : x.data i i = g i i := by
    rw [hx.data i i hi hi, folded_below n g (Or.inl (Nat.le_refl i))]
  dsimp only
  rw [hdiag, if_neg (hne i hi)]
  exact (foldRows_entries hx hi).congr fun r c _ hc => folded_step n g hc

theorem amCholesky2Inverse_entries (hm : Entries m n g) (hn : n < 2^31) (hpos : ∀ i < n, 0 < g i i)
    (hne : ∀ i < n, inverted g n i i ≠ 0) :
    Entries (amCholesky2Inverse m).1 n (packedProduct (inverted g n) n) := by
  have hcount : int32Count m.cols = n := by
    rw [int32Count_eq (by rwa [hm.square.2]), hm.square.2]
  rw [amCholesky2Inverse, hcount]
  have hproduct := choleskyProduct_entries (choleskyInvertFactor_entries hm hpos) hne
  exact (mirrored_entries hproduct).congr fun r c hr hc => folded_mirrored hr hc

/-- The factors of a symmetric matrix, inverted in place, are its inverse. -/
theorem cholesky_inverse (hm : Entries m n G) (hn : n < 2^31) (hsymm : ∀ r c, G r c = G c r)
    (hlarge : ∀ i < n, (choleskyScale n m).1*toler ≤ decompPivot m toler i)
    (hpos : ∀ i < n, 0 < decompPivot m toler i) :
    Square (amCholesky2Inverse (amCholesky2Decomp m toler).matrix).1 n ∧
      (amCholesky2Inverse (amCholesky2Decomp m toler).matrix).1.block n n*m.block n n = 1 := by
  have hne : ∀ i < n, decompPivot m toler i ≠ 0 := fun i hi => (hpos i hi).ne'
  have hpivot (i : Nat) (hi : i < n) : 0 < schur G i i i := by
    rw [← decompPivot_eq hm hsymm hlarge hne hi]
    exact hpos i hi
  have hfactors := amCholesky2Decomp_entries hm hsymm hlarge hne
  have hdiag (i : Nat) (hi : i < n) : factored G n i i = schur G i i i := by
    rw [factored, if_neg (Nat.lt_irrefl i), if_pos hi, if_pos rfl]
  have hinverted (i : Nat) (hi : i < n) : inverted (factored G n) n i i = 1/schur G i i i := by
    rw [inverted, if_neg fun h => Nat.lt_irrefl i h.1, if_pos ⟨rfl, hi⟩, hdiag i hi]
  have hentries := amCholesky2Inverse_entries hfactors hn
    (fun i hi => by rw [hdiag i hi]; exact hpivot i hi)
    fun i hi => by rw [hinverted i hi]; exact one_div_ne_zero (hpivot i hi).ne'
  refine ⟨hentries.square, ?_⟩
  rw [hentries.block, hm.block]
  refine packedProduct_mul hsymm (fun i hi => (hpivot i hi).ne') (fun r c hr hcr => ?_) hinverted
  rw [inverted, if_pos ⟨hcr, hcr.trans hr⟩]
  refine lowerInverse_congr (fun r c hr hcr => ?_) n hr c
  rw [factored, if_neg (Nat.lt_asymm hcr), if_pos (hcr.trans hr), if_neg hcr.ne']

end inverse
end Ambix
