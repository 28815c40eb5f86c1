import Ambix.Matrix
import Ambix.Machine.Block
import Mathlib.Algebra.Field.Basic

/-! `ambix_matrix_fill` with the orderings and weights of adaptor_acn.c and
adaptor_fuma.c. Routes are whole numbers; `sqrt` is the one of the platform. -/
namespace Ambix
open Machine

inductive MatrixType where
  | invalid | zero | one | identity | n3d | sid | fuma | toN3d | toSid | toFuma
deriving DecidableEq, Repr

/-- The passes of a loop whose bound is an `uint32_t` stored in an `int32_t`. -/
def int32Count (n : UInt32) : Nat := n.toInt32.toInt.toNat

theorem int32Count_eq {n : UInt32} (h : n.toNat < 2^31) : int32Count n = n.toNat := by
  have hn : n.toInt32.toInt = n.toNat := by
    change n.toBitVec.toInt = n.toBitVec.toNat
    exact BitVec.toInt_eq_toNat_of_lt (by change 2*n.toNat < 2^32; omega)
  rw [int32Count, hn, Int.toNat_natCast]

/-- `array[i]`. -/
def item {α : Type} (array : List α) (i : Nat) : Checked α :=
  match array[i]? with
  | some x => .ok x
  | none => .error (.outside i array.length)

section entries
variable {K : Type} [Zero K]

/-- `mtx[r][c] = v` wherever `r` and `c` come from. -/
def AmbixMatrix.store (m : AmbixMatrix K) (r c : Nat) (v : K) : Checked (AmbixMatrix K) :=
  if m.rows.toNat ≤ r then .error (.outside r m.rows.toNat)
  else if m.cols.toNat ≤ c then .error (.outside c m.cols.toNat)
  else .ok (m.set r c v)

theorem AmbixMatrix.store_size {m m' : AmbixMatrix K} {r c : Nat} {v : K}
    (h : m.store r c v = .ok m') : SameSize m' m := by
  rw [store] at h
  split at h
  · cases h
  · split at h
    · cases h
    · rw [← Except.ok.inj h]
      exact ⟨rfl, rfl⟩

/-- The loops of `AMBIX_MATRIX_ZERO`, `_ONE` and `_IDENTITY`. -/
def fillEntries (matrix : AmbixMatrix K) (entry : Nat → Nat → K) : AmbixMatrix K :=
  loop (fun r x => loop (fun c x => x.set r c (entry r c)) (int32Count matrix.cols) x)
    (int32Count matrix.rows) matrix

theorem fillEntries_eq {matrix : AmbixMatrix K} (entry : Nat → Nat → K)
    (hr : matrix.rows.toNat < 2^31) (hc : matrix.cols.toNat < 2^31) :
    fillEntries matrix entry = AmbixMatrix.ofFn matrix.rows matrix.cols entry := by
  rw [fillEntries, int32Count_eq hr, int32Count_eq hc]
  exact AmbixMatrix.fillLoop_eq matrix entry

theorem fillEntries_size (matrix : AmbixMatrix K) (entry : Nat → Nat → K) :
    SameSize (fillEntries matrix entry) matrix :=
  SameSize.loop ⟨rfl, rfl⟩ (fun _ _ hx => hx.loop (fun _ _ hy => hy.set _ _ _) _) _

end entries

section fill
variable {K : Type} [Field K] (sqrt : K → K)

def fillIdentity (matrix : AmbixMatrix K) : AmbixMatrix K :=
  fillEntries matrix fun r c => if r = c then 1 else 0

def matrixDiag (diag : List K) (count : UInt32) : Checked (AmbixMatrix K) :=
  loopM (fun i matrix => do matrix.store i i (← item diag i)) count.toNat (matrixInit count count)

/-- The conversion of a route to `uint32_t`. -/
def routeIndex (route : Int) : UInt32 := UInt32.ofInt route

/-- The stores of `_matrix_router` and `_matrix_permutate`. -/
def routeEntry (swap : Bool) (i : Nat) (o : UInt32) (matrix : AmbixMatrix K) :
    Checked (AmbixMatrix K) :=
  if swap then matrix.store o.toNat i 1 else matrix.store i o.toNat 1

/-- `_matrix_router`; the check lets the route `count` pass. -/
def matrixRouter (route : List Int) (count : UInt32) (swap : Bool) :
    Checked (Option (AmbixMatrix K)) := do
  let bad ← loopM (fun i bad => do
    let r ← item route i
    .ok (bad || decide (r < 0 ∨ routeIndex r > count))) count.toNat false
  if bad then .ok none
  else some <$> loopM (fun i matrix => do
    routeEntry swap i (routeIndex (← item route i)) matrix) count.toNat (matrixInit count count)

/-- `_matrix_permutate`; negative routes are left out. -/
def matrixPermutate (matrix : AmbixMatrix K) (route : List Int) (swap : Bool) :
    Checked (Option (AmbixMatrix K)) := do
  let count := if swap then matrix.cols else matrix.rows
  let maxroute := if swap then matrix.rows else matrix.cols
  let bad ← loopM (fun i bad => do
    let r ← item route i
    .ok (bad || decide (routeIndex r > maxroute))) count.toNat false
  if bad then .ok none
  else some <$> loopM (fun i matrix => do
    let r ← item route i
    if 0 ≤ r then routeEntry swap i (routeIndex r) matrix else .ok matrix) count.toNat matrix

/-- `_matrix_sid2acn`: the values it stores, in order. -/
def matrixSid2acn (count : UInt32) : Option (List Int) :=
  let order := channels2order count
  if order < 0 then none
  else some ((List.range (order.toInt.toNat+1)).flatMap fun o =>
    let offset := if 0 < o then order2channels (UInt32.ofNat o-1) else 0
    let maxindex := (order2channels (UInt32.ofNat o)-offset).toInt32.toInt.toNat
    ((List.range (maxindex/2)).map fun k => ((UInt32.ofNat (2*k+1)+offset).toNat : Int)) ++
      (List.range ((maxindex+1)/2)).map fun k =>
        ((UInt32.ofNat (maxindex-1-2*k)+offset).toNat : Int))

/-- The weight `weight o` for each of the `2*o+1` channels of every order. -/
def orderWeights (weight : K → K) (rows : UInt32) : Option (List K) :=
  let order := channels2order rows
  if order < 0 then none
  else some ((List.range (order.toInt.toNat+1)).flatMap fun o =>
    List.replicate (2*o+1) (weight (2*o+1)))

/-! Furse-Malham. -/

def fumaOrder : List Int := [0, 2, 3, 1, 8, 6, 4, 5, 7, 15, 13, 11, 9, 10, 12, 14]

def fuma2ambixWeightorder : Checked (Option (AmbixMatrix K)) := do
  let sqrt2 := sqrt 2
  let sqrt3_4 := sqrt 3/2
  let sqrt5_8 := sqrt (5/2)/2
  let sqrt32_45 := 4*sqrt (2/5)/3
  let sqrt5_9 := sqrt 5/3
  let weights := [sqrt2, -1, 1, -1, sqrt3_4, -sqrt3_4, 1, -sqrt3_4, sqrt3_4,
    -sqrt5_8, sqrt5_9, -sqrt32_45, 1, -sqrt32_45, sqrt5_9, -sqrt5_8]
  let weightM ← matrixDiag weights 16
  match ← matrixRouter fumaOrder 16 true with
  | none => .ok none
  | some orderM => .ok (matrixMultiply weightM orderM matrixNull)

def ambix2fumaWeightorder : Checked (Option (AmbixMatrix K)) := do
  let sqrt1_2 := 1/sqrt 2
  let sqrt4_3 := 2/sqrt 3
  let sqrt8_5 := 2*sqrt (2/5)
  let sqrt45_32 := 3*sqrt (5/2)/4
  let sqrt9_5 := 3/sqrt 5
  let weights := [sqrt1_2, -1, 1, -1, sqrt4_3, -sqrt4_3, 1, -sqrt4_3, sqrt4_3,
    -sqrt8_5, sqrt9_5, -sqrt45_32, 1, -sqrt45_32, sqrt9_5, -sqrt8_5]
  let weightM ← matrixDiag weights 16
  match ← matrixRouter fumaOrder 16 false with
  | none => .ok none
  | some orderM => .ok (matrixMultiply orderM weightM matrixNull)

/-- `_matrix_multiply3`; a missing factor makes the product missing. -/
def matrixMultiply3 (mtx1 : AmbixMatrix K) (mtx2 : Option (AmbixMatrix K)) (mtx3 : AmbixMatrix K) :
    Option (AmbixMatrix K) := do
  let tmp ← matrixMultiply mtx1 (← mtx2) matrixNull
  matrixMultiply tmp mtx3 matrixNull

/-- `reducer_v`, the same table in both directions. -/
def fumaReducer : Nat → List Int
  | 3 => [0, 1, 2]
  | 4 => [0, 1, 2, 3]
  | 5 => [0, 1, 2, 7, 8]
  | 6 => [0, 1, 2, 3, 7, 8]
  | 7 => [0, 1, 2, 7, 8, 14, 15]
  | 8 => [0, 1, 2, 3, 7, 8, 14, 15]
  | 9 => [0, 1, 2, 3, 4, 5, 6, 7, 8]
  | 11 => [0, 1, 2, 3, 4, 5, 6, 7, 8, 14, 15]
  | 16 => [0, 1, 2, 3, 4, 5, 6, 7, 8, 9, 10, 11, 12, 13, 14, 15]
  | _ => [0]

/-- `cols_v` and `rows_v`: size of the full set for a number of Furse-Malham channels. -/
def fumaFullset : Nat → UInt32
  | 1 => 1
  | 3 | 4 => 4
  | 5 | 6 | 9 => 9
  | 7 | 8 | 11 | 16 => 16
  | _ => 0

def matrixFuma2ambix (rows : UInt32) : Checked (Option (AmbixMatrix K)) :=
  if rows > 16 then .ok none
  else if fumaFullset rows.toNat = 0 then .ok none
  else do
    let expandM := fillIdentity (matrixInit (fumaFullset rows.toNat) 16)
    let weightorderM ← fuma2ambixWeightorder sqrt
    match ← matrixPermutate (matrixInit 16 rows) (fumaReducer rows.toNat) true with
    | none => .ok none
    | some reduceM => .ok (matrixMultiply3 expandM weightorderM reduceM)

def matrixAmbix2fuma (cols : UInt32) : Checked (Option (AmbixMatrix K)) :=
  if cols > 16 then .ok none
  else if fumaFullset cols.toNat = 0 then .ok none
  else do
    let expandM := fillIdentity (matrixInit 16 (fumaFullset cols.toNat))
    let weightorderM ← ambix2fumaWeightorder sqrt
    match ← matrixPermutate (matrixInit cols 16) (fumaReducer cols.toNat) false with
    | none => .ok none
    | some reduceM => .ok (matrixMultiply3 reduceM weightorderM expandM)

/-- `ambix_matrix_fill`; where it returns `NULL` the matrix is left alone. -/
def matrixFill (matrix : AmbixMatrix K) : MatrixType → Checked (Option (AmbixMatrix K))
  | .invalid => .ok none
  | .zero => .ok (some (fillEntries matrix fun _ _ => 0))
  | .one => .ok (some (fillEntries matrix fun _ _ => 1))
  | .identity => .ok (some (fillIdentity matrix))
  | .fuma => do
    let result ← matrixFuma2ambix sqrt matrix.cols
    .ok (result.map fun result => matrixCopy result matrix)
  | .toFuma => do
    let result ← matrixAmbix2fuma sqrt matrix.rows
    .ok (result.map fun result => matrixCopy result matrix)
  | .sid =>
    match matrixSid2acn matrix.rows with
    | none => .ok none
    | some ordering => matrixRouter ordering matrix.rows false
  | .toSid =>
    match matrixSid2acn matrix.rows with
    | none => .ok none
    | some ordering => matrixRouter ordering matrix.rows true
  | .n3d =>
    match orderWeights (fun w => 1/sqrt w) matrix.rows with
    | none => .ok none
    | some weights => some <$> matrixDiag weights matrix.rows
  | .toN3d =>
    match orderWeights sqrt matrix.rows with
    | none => .ok none
    | some weights => some <$> matrixDiag weights matrix.rows

/-! Sizes. The stores keep them, so a Furse-Malham matrix has one column for each of its
channels and a full set of rows. -/

variable {sqrt}

theorem matrixMultiply_size {left right dest m : AmbixMatrix K}
    (h : matrixMultiply left right dest = some m) : m.rows = left.rows ∧ m.cols = right.cols := by
  by_cases hc : left.cols = right.rows
  · rw [matrixMultiply_eq left right dest hc, Option.some.injEq] at h
    rw [← h]
    exact ⟨rfl, rfl⟩
  · rw [matrixMultiply, if_pos hc] at h
    cases h

theorem routeEntry_size {swap : Bool} {i : Nat} {o : UInt32} {m m' : AmbixMatrix K}
    (h : routeEntry swap i o m = .ok m') : SameSize m' m := by
  cases swap
  · exact AmbixMatrix.store_size h
  · exact AmbixMatrix.store_size h

theorem matrixPermutate_size {matrix m : AmbixMatrix K} {route : List Int} {swap : Bool}
    (h : matrixPermutate matrix route swap = .ok (some m)) : SameSize m matrix := by
  obtain ⟨bad, -, h⟩ := bind_eq_ok.mp h
  cases bad
  · obtain ⟨m', hloop, hm⟩ := map_eq_ok.mp h
    obtain rfl := Option.some.inj hm
    refine loopM_invariant (fun _ (x : AmbixMatrix K) => SameSize x matrix) hloop ⟨rfl, rfl⟩
      fun i x x' _ hx hbody => ?_
    obtain ⟨r, -, hbody⟩ := bind_eq_ok.mp hbody
    split at hbody
    · exact (routeEntry_size hbody).trans hx
    · exact Except.ok.inj hbody ▸ hx
  · cases h

theorem matrixRouter_size {route : List Int} {count : UInt32} {swap : Bool} {m : AmbixMatrix K}
    (h : matrixRouter route count swap = .ok (some m)) : SameSize m (matrixInit count count) := by
  obtain ⟨bad, -, h⟩ := bind_eq_ok.mp h
  cases bad
  · obtain ⟨m', hloop, hm⟩ := map_eq_ok.mp h
    obtain rfl := Option.some.inj hm
    refine loopM_invariant (fun _ (x : AmbixMatrix K) => SameSize x (matrixInit count count)) hloop
      ⟨rfl, rfl⟩ fun i x x' _ hx hbody => ?_
    obtain ⟨r, -, hbody⟩ := bind_eq_ok.mp hbody
    exact (routeEntry_size hbody).trans hx
  · cases h

theorem matrixDiag_size {diag : List K} {count : UInt32} {m : AmbixMatrix K}
    (h : matrixDiag diag count = .ok m) : SameSize m (matrixInit count count) := by
  refine loopM_invariant (fun _ (x : AmbixMatrix K) => SameSize x (matrixInit count count)) h
    ⟨rfl, rfl⟩ fun i x x' _ hx hbody => ?_
  obtain ⟨r, -, hbody⟩ := bind_eq_ok.mp hbody
  exact (AmbixMatrix.store_size hbody).trans hx

theorem matrixMultiply3_size {mtx1 mtx3 m : AmbixMatrix K} {mtx2 : Option (AmbixMatrix K)}
    (h : matrixMultiply3 mtx1 mtx2 mtx3 = some m) : m.rows = mtx1.rows ∧ m.cols = mtx3.cols := by
  obtain ⟨m2, -, h⟩ := Option.bind_eq_some_iff.mp h
  obtain ⟨tmp, htmp, h⟩ := Option.bind_eq_some_iff.mp h
  obtain ⟨hrows, hcols⟩ := matrixMultiply_size h
  exact ⟨hrows.trans (matrixMultiply_size htmp).1, hcols⟩

theorem fumaFullset_isFullset (n : Nat) : isFullset (fumaFullset n) = true := by
  have hsquare : ∀ k : Nat, ∀ m : UInt32, m.toNat = (k+1)*(k+1) → isFullset m = true :=
    fun k m hm => (isFullset_iff m).mpr (Or.inr ⟨k, hm⟩)
  unfold fumaFullset
  split
  · exact hsquare 0 1 rfl
  · exact hsquare 1 4 rfl
  · exact hsquare 1 4 rfl
  · exact hsquare 2 9 rfl
  · exact hsquare 2 9 rfl
  · exact hsquare 2 9 rfl
  · exact hsquare 3 16 rfl
  · exact hsquare 3 16 rfl
  · exact hsquare 3 16 rfl
  · exact hsquare 3 16 rfl
  · exact (isFullset_iff 0).mpr (Or.inl rfl)

theorem matrixFuma2ambix_size {rows : UInt32} {m : AmbixMatrix K}
    (h : matrixFuma2ambix sqrt rows = .ok (some m)) :
    m.rows ≠ 0 ∧ isFullset m.rows = true ∧ m.cols = rows := by
  rw [matrixFuma2ambix] at h
  split at h
  · cases h
  · split at h
    · cases h
    · rename_i hset
      obtain ⟨w, -, h⟩ := bind_eq_ok.mp h
      obtain ⟨reduce, hreduce, h⟩ := bind_eq_ok.mp h
      cases reduce with
      | none => cases h
      | some reduceM =>
        obtain ⟨hrows, hcols⟩ := matrixMultiply3_size (Except.ok.inj h)
        rw [hrows, fillIdentity, (fillEntries_size _ _).1, matrixInit_rows, hcols,
          (matrixPermutate_size hreduce).2]
        exact ⟨hset, fumaFullset_isFullset _, rfl⟩

theorem matrixFill_fuma_size {matrix m : AmbixMatrix K}
    (h : matrixFill sqrt matrix .fuma = .ok (some m)) :
    m.rows ≠ 0 ∧ isFullset m.rows = true ∧ m.cols = matrix.cols := by
  obtain ⟨result, hresult, h⟩ := bind_eq_ok.mp h
  obtain ⟨r, rfl, hm⟩ := Option.map_eq_some_iff.mp (Except.ok.inj h)
  rw [matrixCopy_eq] at hm
  subst hm
  exact matrixFuma2ambix_size hresult

theorem fumaFullset_le (n : Nat) : (fumaFullset n).toNat ≤ 16 := by
  unfold fumaFullset
  split <;> decide

theorem matrixFuma2ambix_rows {rows : UInt32} {m : AmbixMatrix K}
    (h : matrixFuma2ambix sqrt rows = .ok (some m)) : m.rows.toNat ≤ 16 := by
  rw [matrixFuma2ambix] at h
  split at h
  · cases h
  · split at h
    · cases h
    · obtain ⟨w, -, h⟩ := bind_eq_ok.mp h
      obtain ⟨reduce, -, h⟩ := bind_eq_ok.mp h
      cases reduce with
      | none => cases h
      | some reduceM =>
        rw [(matrixMultiply3_size (Except.ok.inj h)).1, fillIdentity, (fillEntries_size _ _).1]
        exact fumaFullset_le _

theorem matrixAmbix2fuma_rows {cols : UInt32} {m : AmbixMatrix K}
    (h : matrixAmbix2fuma sqrt cols = .ok (some m)) : m.rows = cols := by
  rw [matrixAmbix2fuma] at h
  split at h
  · cases h
  · split at h
    · cases h
    · obtain ⟨w, -, h⟩ := bind_eq_ok.mp h
      obtain ⟨reduce, hreduce, h⟩ := bind_eq_ok.mp h
      cases reduce with
      | none => cases h
      | some reduceM =>
        rw [(matrixMultiply3_size (Except.ok.inj h)).1]
        exact (matrixPermutate_size hreduce).1

theorem matrixFill_rows {matrix m : AmbixMatrix K} {typ : MatrixType}
    (h : matrixFill sqrt matrix typ = .ok (some m)) :
    m.rows = matrix.rows ∨ m.rows ≠ 0 ∧ m.rows.toNat ≤ 16 := by
  cases typ with
  | invalid => cases h
  | zero => exact Or.inl (Option.some.inj (Except.ok.inj h) ▸ (fillEntries_size _ _).1)
  | one => exact Or.inl (Option.some.inj (Except.ok.inj h) ▸ (fillEntries_size _ _).1)
  | identity => exact Or.inl (Option.some.inj (Except.ok.inj h) ▸ (fillEntries_size _ _).1)
  | fuma =>
    obtain ⟨result, hresult, h⟩ := bind_eq_ok.mp h
    obtain ⟨r, rfl, hm⟩ := Option.map_eq_some_iff.mp (Except.ok.inj h)
    rw [matrixCopy_eq] at hm
    exact Or.inr (hm ▸ ⟨(matrixFuma2ambix_size hresult).1, matrixFuma2ambix_rows hresult⟩)
  | toFuma =>
    obtain ⟨result, hresult, h⟩ := bind_eq_ok.mp h
    obtain ⟨r, rfl, hm⟩ := Option.map_eq_some_iff.mp (Except.ok.inj h)
    rw [matrixCopy_eq] at hm
    exact Or.inl (hm ▸ matrixAmbix2fuma_rows hresult)
  | sid =>
    dsimp only [matrixFill] at h
    split at h
    · cases h
    · exact Or.inl (matrixRouter_size h).1
  | toSid =>
    dsimp only [matrixFill] at h
    split at h
    · cases h
    · exact Or.inl (matrixRouter_size h).1
  | n3d =>
    dsimp only [matrixFill] at h
    split at h
    · cases h
    · obtain ⟨m', hdiag, hm⟩ := map_eq_ok.mp h
      exact Or.inl (Option.some.inj hm ▸ (matrixDiag_size hdiag).1)
  | toN3d =>
    dsimp only [matrixFill] at h
    split at h
    · cases h
    · obtain ⟨m', hdiag, hm⟩ := map_eq_ok.mp h
      exact Or.inl (Option.some.inj hm ▸ (matrixDiag_size hdiag).1)

end fill
end Ambix
