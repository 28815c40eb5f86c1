import Ambix.MatrixData

/-! What the five loops of adaptor.c have to do with each other: an adaptor with a matrix is
the plain one before or after a multiplication, and splitting undoes merging. -/
namespace Ambix
open Machine

section blocks
variable {α : Type}

theorem updateLoop_eq (g : Nat → α) (n : Nat) (d : Cursor α) :
    loop (fun i p => Function.update p (d.count+i) (g i)) n d.data =
      (d.putAll ((List.range n).map g)).data := by
  refine loop_eq (fun i => (d.putAll ((List.range i).map g)).data) rfl fun i _ => ?_
  have hcount := d.putAll_end ((List.range i).map g)
  rw [List.length_map, List.length_range] at hcount
  rw [List.range_succ, List.map_append, Cursor.putAll_append, ← hcount]
  rfl

theorem framesOf_putAll (p : Nat → α) {w : Nat} {ls : List (List α)}
    (hl : ∀ l ∈ ls, l.length = w) :
    framesOf ((Cursor.start p).putAll ls.flatten).data w ls.length = ls :=
  framesOf_written hl (Cursor.start_putAll_items p ls.flatten)

end blocks

/-! Multiplying. -/

section product
variable {K : Type} [Semiring K] (matrix : AmbixMatrix K) (source : Nat → K) (frames : Nat)

def product : List (List K) := (framesOf source matrix.cols.toNat frames).map (mix id id matrix)

@[simp] theorem product_length : (product matrix source frames).length = frames := by
  rw [product, List.length_map, framesOf_length]

theorem product_width : ∀ l ∈ product matrix source frames, l.length = matrix.rows.toNat := by
  intro l hl
  obtain ⟨fr, -, rfl⟩ := List.mem_map.mp hl
  exact mix_length id id matrix fr

theorem matrixMultiplyFloat64_eq (dest : Nat → K) :
    matrixMultiplyFloat64 dest matrix source frames =
      ((Cursor.start dest).putAll (product matrix source frames).flatten).data := by
  let written (n : Nat) : Cursor K := (Cursor.start dest).putAll (product matrix source n).flatten
  have hcount : ∀ n, (written n).count = n*matrix.rows.toNat := by
    intro n
    have h := putAll_count dest (product_width matrix source n)
    rwa [product_length] at h
  refine loop_eq (fun n => (written n).data) rfl fun n _ => ?_
  have hrow := updateLoop_eq
    (matrixChannel (.exact id id) matrix fun i => source (n*matrix.cols.toNat+i)) matrix.rows.toNat
    (written n)
  rw [hcount, matrixChannels_eq id id matrix source _ _ le_rfl] at hrow
  refine hrow.trans (congrArg Cursor.data ?_)
  change _ = (Cursor.start dest).putAll (product matrix source (n+1)).flatten
  rw [product, framesOf, List.range_succ, List.map_append, List.map_append, List.flatten_append,
    Cursor.putAll_append, Nat.mul_comm]
  simp [written, product, framesOf]

theorem framesOf_product (dest : Nat → K) :
    framesOf (matrixMultiplyFloat64 dest matrix source frames) matrix.rows.toNat frames =
      product matrix source frames := by
  have h := framesOf_putAll dest (product_width matrix source frames)
  rwa [product_length, ← matrixMultiplyFloat64_eq] at h

end product

/-! Splitting and merging. -/

section frames
variable {α : Type}

theorem framesOf_split (source destAmbi destOther : Nat → α) {sourcechannels ambichannels : UInt32}
    (frames : Nat) (h : ambichannels ≤ sourcechannels) :
    let split := splitAdaptor source sourcechannels ambichannels destAmbi destOther frames
    let whole := framesOf source sourcechannels.toNat frames
    framesOf split.ambi.data ambichannels.toNat frames = whole.map (·.take ambichannels.toNat) ∧
      framesOf split.other.data (sourcechannels.toNat-ambichannels.toNat) frames =
        whole.map (·.drop ambichannels.toNat) := by
  have hle := UInt32.le_iff_toNat_le.mp h
  have hambi : ∀ l ∈ (framesOf source sourcechannels.toNat frames).map
      (·.take ambichannels.toNat), l.length = ambichannels.toNat := by
    intro l hl
    obtain ⟨fr, hfr, rfl⟩ := List.mem_map.mp hl
    rw [List.length_take, framesOf_width fr hfr, Nat.min_eq_left hle]
  have hother : ∀ l ∈ (framesOf source sourcechannels.toNat frames).map
      (·.drop ambichannels.toNat), l.length = sourcechannels.toNat-ambichannels.toNat := by
    intro l hl
    obtain ⟨fr, hfr, rfl⟩ := List.mem_map.mp hl
    rw [List.length_drop, framesOf_width fr hfr]
  have h1 := framesOf_putAll destAmbi hambi
  have h2 := framesOf_putAll destOther hother
  rw [List.length_map, framesOf_length, ← List.flatMap_def] at h1 h2
  dsimp only
  rw [splitAdaptor_eq source _ _ destAmbi destOther frames h]
  exact ⟨h1, h2⟩

theorem merged_parts {v : Nat} {ls ms : List (List α)} (hlen : ls.length = ms.length)
    (hl : ∀ l ∈ ls, l.length = v) :
    (List.zipWith (· ++ ·) ls ms).map (·.take v) = ls ∧
      (List.zipWith (· ++ ·) ls ms).map (·.drop v) = ms := by
  induction ls generalizing ms with
  | nil =>
    rw [List.length_eq_zero_iff.mp hlen.symm]
    exact ⟨rfl, rfl⟩
  | cons l ls ih =>
    cases ms with
    | nil => cases hlen
    | cons m ms =>
      obtain ⟨htake, hdrop⟩ := ih (Nat.succ.inj hlen) fun l' h' => hl l' (List.mem_cons_of_mem _ h')
      have hv := hl l List.mem_cons_self
      rw [List.zipWith_cons_cons, List.map_cons, List.map_cons, htake, hdrop, List.take_left' hv,
        List.drop_left' hv]
      exact ⟨rfl, rfl⟩

theorem parts_merged (v : Nat) (ls : List (List α)) :
    List.zipWith (· ++ ·) (ls.map (·.take v)) (ls.map (·.drop v)) = ls := by
  induction ls with
  | nil => rfl
  | cons l ls ih => simp [ih]

theorem splitAdaptor_items (source destAmbi destOther : Nat → α)
    {sourcechannels ambichannels : UInt32} (frames : Nat) (h : ambichannels ≤ sourcechannels) :
    let split := splitAdaptor source sourcechannels ambichannels destAmbi destOther frames
    let whole := framesOf source sourcechannels.toNat frames
    split.ambi.items = (whole.map (·.take ambichannels.toNat)).flatten ∧
      split.other.items = (whole.map (·.drop ambichannels.toNat)).flatten := by
  dsimp only
  rw [splitAdaptor_eq source _ _ destAmbi destOther frames h]
  simp only [Cursor.start_putAll_items, List.flatMap_def, and_self]

/-- Splitting what has been merged. -/
theorem split_merge (source1 source2 destination destAmbi destOther : Nat → α) {a e s : UInt32}
    (frames : Nat) (hs : s.toNat = a.toNat+e.toNat) :
    let merged := mergeAdaptor source1 a source2 e destination frames
    let split := splitAdaptor merged.data s a destAmbi destOther frames
    split.ambi.items = window source1 0 (a.toNat*frames) ∧
      split.other.items = window source2 0 (e.toNat*frames) := by
  have hle : a ≤ s := UInt32.le_iff_toNat_le.mpr (by omega)
  have hlen : (framesOf source1 a.toNat frames).length =
      (framesOf source2 e.toNat frames).length := by
    rw [framesOf_length, framesOf_length]
  have hwidth : ∀ l ∈ List.zipWith (· ++ ·) (framesOf source1 a.toNat frames)
      (framesOf source2 e.toNat frames), l.length = s.toNat := by
    intro l hl
    rw [← List.map_uncurry_zip_eq_zipWith] at hl
    obtain ⟨⟨l1, l2⟩, hmem, rfl⟩ := List.mem_map.mp hl
    obtain ⟨h1, h2⟩ := List.of_mem_zip hmem
    change (l1 ++ l2).length = s.toNat
    rw [List.length_append, framesOf_width l1 h1, framesOf_width l2 h2, hs]
  have hframes := framesOf_putAll destination hwidth
  rw [List.length_zipWith, ← hlen, Nat.min_self, framesOf_length, ← mergeAdaptor_eq] at hframes
  obtain ⟨hambi, hother⟩ := splitAdaptor_items
    (mergeAdaptor source1 a source2 e destination frames).data destAmbi destOther frames hle
  obtain ⟨htake, hdrop⟩ := merged_parts hlen framesOf_width
  rw [hframes, htake, framesOf_flatten] at hambi
  rw [hframes, hdrop, framesOf_flatten] at hother
  exact ⟨hambi, hother⟩

/-- Merging what has been split. -/
theorem merge_split (source destAmbi destOther destination : Nat → α) {a e s : UInt32}
    (frames : Nat) (hs : s.toNat = a.toNat+e.toNat) :
    let split := splitAdaptor source s a destAmbi destOther frames
    (mergeAdaptor split.ambi.data a split.other.data e destination frames).items =
      window source 0 (s.toNat*frames) := by
  have hle : a ≤ s := UInt32.le_iff_toNat_le.mpr (by omega)
  have he : e.toNat = s.toNat-a.toNat := by omega
  obtain ⟨hambi, hother⟩ := framesOf_split source destAmbi destOther frames hle
  rw [← he] at hother
  dsimp only at hambi hother ⊢
  rw [mergeAdaptor_eq, Cursor.start_putAll_items, hambi, hother, parts_merged, framesOf_flatten]

end frames

/-! The adaptors with a matrix. -/

section factors
variable {K : Type} [Semiring K] (matrix : AmbixMatrix K)

theorem splitAdaptormatrix_factors (source destAmbi destOther raw : Nat → K) {s : UInt32}
    (frames : Nat) (h : matrix.cols ≤ s) :
    let plain := splitAdaptor source s matrix.cols raw destOther frames
    let split := splitAdaptormatrix (.exact id id) source s matrix destAmbi destOther frames
    split.ambi.data = matrixMultiplyFloat64 destAmbi matrix plain.ambi.data frames ∧
      split.other = plain.other := by
  have hread := (framesOf_split source raw destOther frames h).1
  dsimp only at hread ⊢
  rw [splitAdaptormatrix_eq id id source s matrix destAmbi destOther frames h,
    matrixMultiplyFloat64_eq, product, hread, List.map_map, List.flatMap_def]
  constructor
  · simp only [Function.comp_def, mix_take]
  · rw [splitAdaptor_eq source s _ raw destOther frames h]

theorem mergeAdaptormatrix_factors (ambiData otherdata destination dest : Nat → K) (e : UInt32)
    (frames : Nat) :
    mergeAdaptormatrix (.exact id id) ambiData matrix otherdata e destination frames =
      mergeAdaptor (matrixMultiplyFloat64 dest matrix ambiData frames) matrix.rows otherdata e
        destination frames := by
  rw [mergeAdaptormatrix_eq, mergeAdaptor_eq, framesOf_product, product, List.zipWith_map_left]

/-- The matrix adaptors factor through the plain ones, and those undo each other. -/
theorem adaptors_factor (frames : Nat) :
    (∀ (source destAmbi destOther raw : Nat → K) (s : UInt32), matrix.cols ≤ s →
      let plain := splitAdaptor source s matrix.cols raw destOther frames
      let split := splitAdaptormatrix (.exact id id) source s matrix destAmbi destOther frames
      split.ambi.data = matrixMultiplyFloat64 destAmbi matrix plain.ambi.data frames ∧
        split.other = plain.other) ∧
    (∀ (ambiData otherdata destination dest : Nat → K) (e : UInt32),
      mergeAdaptormatrix (.exact id id) ambiData matrix otherdata e destination frames =
        mergeAdaptor (matrixMultiplyFloat64 dest matrix ambiData frames) matrix.rows otherdata e
          destination frames) ∧
    (∀ (source1 source2 destination destAmbi destOther : Nat → K) (a e s : UInt32),
      s.toNat = a.toNat+e.toNat →
      let merged := mergeAdaptor source1 a source2 e destination frames
      let split := splitAdaptor merged.data s a destAmbi destOther frames
      split.ambi.items = window source1 0 (a.toNat*frames) ∧
        split.other.items = window source2 0 (e.toNat*frames)) ∧
    (∀ (source destAmbi destOther destination : Nat → K) (a e s : UInt32),
      s.toNat = a.toNat+e.toNat →
      let split := splitAdaptor source s a destAmbi destOther frames
      (mergeAdaptor split.ambi.data a split.other.data e destination frames).items =
        window source 0 (s.toNat*frames)) := by
  refine ⟨?_, ?_, ?_, ?_⟩
  · intro source destAmbi destOther raw s hs
    exact splitAdaptormatrix_factors matrix source destAmbi destOther raw frames hs
  · intro ambiData otherdata destination dest e
    exact mergeAdaptormatrix_factors matrix ambiData otherdata destination dest e frames
  · intro source1 source2 destination destAmbi destOther a e s hs
    exact split_merge source1 source2 destination destAmbi destOther frames hs
  · intro source destAmbi destOther destination a e s hs
    exact merge_split source destAmbi destOther destination frames hs

end factors

/-- Adds the first two of three channels of two frames. -/
theorem adaptors_factor_pair :
    let pair : AmbixMatrix Int := .ofFn 1 2 fun _ _ => 1
    let source : Nat → Int := fun i => i
    let zeros : Nat → Int := fun _ => 0
    let plain := splitAdaptor source 3 2 zeros zeros 2
    let split := splitAdaptormatrix (.exact id id) source 3 pair zeros zeros 2
    split.ambi.data = matrixMultiplyFloat64 zeros pair plain.ambi.data 2 ∧
      split.ambi.items = [1, 7] ∧ split.other = plain.other ∧ plain.other.items = [2, 5] ∧
      (splitAdaptor (mergeAdaptor source 2 source 1 zeros 2).data 3 2 zeros zeros 2).other.items =
        [0, 1] ∧
      (mergeAdaptor plain.ambi.data 2 plain.other.data 1 zeros 2).items = [0, 1, 2, 3, 4, 5] := by
  intro pair source zeros plain split
  obtain ⟨hsplit, -, hapart, htogether⟩ := adaptors_factor pair 2
  obtain ⟨hambi, hother⟩ := hsplit source zeros zeros zeros 3 (by decide)
  exact ⟨hambi, by decide, hother, by decide,
    (hapart source source zeros zeros zeros 2 1 3 rfl).2.trans (by decide),
    (htogether source zeros zeros zeros 2 1 3 rfl).trans (by decide)⟩

end Ambix
