import Ambix.Matrix
import Ambix.Machine.Record

/-! uuid_chunk.c: the chunk that stores the adaptor matrix. Its payload is rows,
columns and the entries row by row, all 32-bit words in the byte order of the file. -/
namespace Ambix
open Machine

def uuidV1 : List UInt8 :=
  [0x1a, 0xd3, 0x18, 0xc3, 0x00, 0xe5, 0x55, 0x76, 0xbe, 0x2d, 0x0d, 0xca, 0x24, 0x60, 0xbc, 0x89]

/-- The letters of "IEM.AT/AMBIX/XML". -/
def uuidV1Compat : List UInt8 :=
  [0x49, 0x45, 0x4d, 0x2e, 0x41, 0x54, 0x2f, 0x41, 0x4d, 0x42, 0x49, 0x58, 0x2f, 0x58, 0x4d, 0x4c]

def getUUID (version : UInt32) : Option (List UInt8) := if version = 1 then some uuidV1 else none

def checkUUID (data : List UInt8) : UInt32 :=
  if data.take 16 = uuidV1 then 1
  else if data.take 16 = uuidV1Compat then 1
  else 0

variable {K : Type} [Zero K]

/-- What `_ambix_uuid1_to_matrix` leaves behind: the returned matrix, the caller's
object, and the offsets of the 32-bit words it took from the payload. -/
structure Uuid1Result (K : Type) [Zero K] where
  ret : Option (AmbixMatrix K)
  orgmtx : Option (AmbixMatrix K)
  consumed : List Nat

/-- `_ambix_uuid1_to_matrix`. `cdata` is the memory from the payload on, and `f`
reads a word as a `float32_t`. -/
def uuid1ToMatrix (host : ByteOrder) (f : UInt32 → K) (cdata : Nat → UInt8) (datasize : UInt64)
    (orgmtx : Option (AmbixMatrix K)) (swap : Bool) : Uuid1Result K :=
  if datasize < 8 then ⟨none, orgmtx, []⟩
  else
    let word index := word32 host (window cdata index 4)
    let rows := if swap then swap4 (word 0) else word 0
    let cols := if swap then swap4 (word 4) else word 4
    let size := rows.toUInt64*cols.toUInt64
    if rows < 1 ∨ cols < 1 ∨ size < 1 then ⟨none, orgmtx, [0, 4]⟩
    -- the 8 bytes of `rows` and `cols` are not part of this comparison
    else if size*4 > datasize then ⟨none, orgmtx, [0, 4]⟩
    else
      let mtx := matrixInit rows cols
      let data k := word (8+4*k)
      let filled := if swap then matrixFillDataByteswapped f mtx data
        else matrixFillData mtx fun k => f (data k)
      ⟨some filled.1, orgmtx.map fun _ => filled.1,
        [0, 4] ++ (List.range filled.2).map fun k => 8+4*k⟩

/-- Row `r` of the matrix in memory; `u` is the word of a `float32_t`. -/
def rowBytes (host : ByteOrder) (u : K → UInt32) (matrix : AmbixMatrix K) (r : Nat) : List UInt8 :=
  (List.range matrix.cols.toNat).flatMap fun c => bytes32 host (u (matrix.data r c))

/-- `mtx[r]`: `ambix_matrix_init` makes no table of rows for a matrix without columns. -/
def loadRow (host : ByteOrder) (u : K → UInt32) (matrix : AmbixMatrix K) (r : Nat) :
    Checked (List UInt8) :=
  if matrix.cols < 1 then .error (.outside r 0) else .ok (rowBytes host u matrix r)

/-- `_ambix_matrix_to_uuid1` on a buffer or on `NULL`. -/
def matrixToUuid1 (host : ByteOrder) (u : K → UInt32) (matrix : AmbixMatrix K)
    (vdata : Option (List UInt8)) (swap : Bool) : Checked (UInt64 × Option (List UInt8)) :=
  match getUUID 1 with
  | none => .ok (0, vdata)
  | some uuid =>
    let rows := matrix.rows
    let cols := matrix.cols
    let datasize : UInt64 := 16+4+4+rows.toUInt64*cols.toUInt64*4
    match vdata with
    | none => .ok (datasize, none)
    | some cdata => do
      let elements := rows.toUInt64*cols.toUInt64
      let cdata ← store cdata 0 uuid
      let cdata ← store32 host cdata 16 rows
      let cdata ← store32 host cdata 20 cols
      let (cdata, _) ← loopM (fun r (s : List UInt8 × UInt64) => do
        let row ← loadRow host u matrix r
        let cdata ← store s.1 s.2.toNat row
        .ok (cdata, s.2+cols.toUInt64*4)) rows.toNat (cdata, 24)
      let cdata ← if swap then swap4array host cdata 16 (elements+2).toNat else .ok cdata
      .ok (datasize, some cdata)

/-! The decoder in the byte order `o` of the payload. -/

def payloadRows (o : ByteOrder) (cdata : Nat → UInt8) : UInt32 := word32 o (window cdata 0 4)
def payloadCols (o : ByteOrder) (cdata : Nat → UInt8) : UInt32 := word32 o (window cdata 4 4)

def payloadSize (o : ByteOrder) (cdata : Nat → UInt8) : Nat :=
  (payloadRows o cdata).toNat*(payloadCols o cdata).toNat

def payloadMatrix (o : ByteOrder) (f : UInt32 → K) (cdata : Nat → UInt8) : AmbixMatrix K :=
  AmbixMatrix.ofFn (payloadRows o cdata) (payloadCols o cdata) fun r c =>
    f (word32 o (window cdata (8+4*(r*(payloadCols o cdata).toNat+c)) 4))

/-- The comparisons the decoder makes; the byte count wraps at 64 bits. -/
def Uuid1Accepts (o : ByteOrder) (cdata : Nat → UInt8) (datasize : UInt64) : Prop :=
  8 ≤ datasize.toNat ∧ 0 < (payloadRows o cdata).toNat ∧ 0 < (payloadCols o cdata).toNat ∧
    4*payloadSize o cdata % 2^64 ≤ datasize.toNat

theorem word32_swapIf (host : ByteOrder) (cdata : Nat → UInt8) (pos : Nat) (swap : Bool) :
    (if swap then swap4 (word32 host (window cdata pos 4)) else word32 host (window cdata pos 4)) =
      word32 (host.swapIf swap) (window cdata pos 4) := by
  cases swap
  · rfl
  · exact swap4_word32 host _ (window_length cdata pos 4)

theorem toNat_toUInt64_mul (a b : UInt32) : (a.toUInt64*b.toUInt64).toNat = a.toNat*b.toNat := by
  have ha := a.toNat_lt
  have hb := b.toNat_lt
  have hab : a.toNat*b.toNat < 2^64 := by
    calc
      a.toNat*b.toNat ≤ (2^32-1)*(2^32-1) := Nat.mul_le_mul (by omega) (by omega)
      _ < 2^64 := by decide
  rw [UInt64.toNat_mul, UInt32.toNat_toUInt64, UInt32.toNat_toUInt64, Nat.mod_eq_of_lt hab]

theorem emptyHeader_iff (rows cols : UInt32) :
    (rows < 1 ∨ cols < 1 ∨ rows.toUInt64*cols.toUInt64 < 1) ↔
      ¬ (0 < rows.toNat ∧ 0 < cols.toNat) := by
  have h1 : UInt32.toNat 1 = 1 := rfl
  have h1' : UInt64.toNat 1 = 1 := rfl
  rw [UInt32.lt_iff_toNat_lt, UInt32.lt_iff_toNat_lt, UInt64.lt_iff_toNat_lt,
    toNat_toUInt64_mul, h1, h1']
  constructor
  · rintro (h | h | h) ⟨hr, hc⟩
    · omega
    · omega
    · have := Nat.mul_pos hr hc
      omega
  · intro h
    omega

theorem tooLong_iff (rows cols : UInt32) (datasize : UInt64) :
    rows.toUInt64*cols.toUInt64*4 > datasize ↔
      datasize.toNat < 4*(rows.toNat*cols.toNat) % 2^64 := by
  rw [gt_iff_lt, UInt64.lt_iff_toNat_lt, UInt64.toNat_mul, toNat_toUInt64_mul, Nat.mul_comm 4]
  rfl

section decoder
variable (host : ByteOrder) (f : UInt32 → K) (cdata : Nat → UInt8) (datasize : UInt64)
  (orgmtx : Option (AmbixMatrix K)) (swap : Bool)

theorem uuid1ToMatrix_accepts (h : Uuid1Accepts (host.swapIf swap) cdata datasize) :
    uuid1ToMatrix host f cdata datasize orgmtx swap =
      ⟨some (payloadMatrix (host.swapIf swap) f cdata),
        orgmtx.map fun _ => payloadMatrix (host.swapIf swap) f cdata,
        [0, 4] ++ (List.range (payloadSize (host.swapIf swap) cdata)).map fun k => 8+4*k⟩ := by
  obtain ⟨h8, hr, hc, hfit⟩ := h
  have h1 : ¬ datasize < 8 := by
    rw [UInt64.lt_iff_toNat_lt]
    exact not_lt.mpr h8
  have h2 := (not_congr (emptyHeader_iff _ _)).mpr (not_not_intro ⟨hr, hc⟩)
  have h3 := (not_congr (tooLong_iff (payloadRows (host.swapIf swap) cdata)
    (payloadCols (host.swapIf swap) cdata) datasize)).mpr (not_lt.mpr hfit)
  have hfill : (if swap then matrixFillDataByteswapped f
        (matrixInit (payloadRows (host.swapIf swap) cdata) (payloadCols (host.swapIf swap) cdata))
        fun k => word32 host (window cdata (8+4*k) 4)
      else matrixFillData
        (matrixInit (payloadRows (host.swapIf swap) cdata) (payloadCols (host.swapIf swap) cdata))
        fun k => f (word32 host (window cdata (8+4*k) 4))) =
      (payloadMatrix (host.swapIf swap) f cdata, payloadSize (host.swapIf swap) cdata) := by
    cases swap
    · simp only [Bool.false_eq_true, if_false, matrixFillData, fillFrom_eq]
      rfl
    · simp only [if_true, matrixFillDataByteswapped, fillFrom_eq,
        swap4_word32 host _ (window_length ..)]
      rfl
  simp only [uuid1ToMatrix, if_neg h1, word32_swapIf]
  rw [← payloadRows, ← payloadCols, if_neg h2, if_neg h3, hfill]

theorem uuid1ToMatrix_rejects (h : ¬ Uuid1Accepts (host.swapIf swap) cdata datasize) :
    (uuid1ToMatrix host f cdata datasize orgmtx swap).ret = none ∧
      (uuid1ToMatrix host f cdata datasize orgmtx swap).orgmtx = orgmtx := by
  simp only [uuid1ToMatrix, word32_swapIf, emptyHeader_iff, tooLong_iff]
  rw [← payloadRows, ← payloadCols]
  split
  · exact ⟨rfl, rfl⟩
  rename_i h8
  split
  · exact ⟨rfl, rfl⟩
  rename_i hempty
  split
  · exact ⟨rfl, rfl⟩
  rename_i hlong
  rw [UInt64.lt_iff_toNat_lt] at h8
  obtain ⟨hr, hc⟩ := not_not.mp hempty
  exact absurd ⟨not_lt.mp h8, hr, hc, not_lt.mp hlong⟩ h

theorem uuid1ToMatrix_isSome :
    (uuid1ToMatrix host f cdata datasize orgmtx swap).ret.isSome = true ↔
      Uuid1Accepts (host.swapIf swap) cdata datasize := by
  constructor
  · intro h
    by_contra hn
    rw [(uuid1ToMatrix_rejects host f cdata datasize orgmtx swap hn).1] at h
    cases h
  · intro h
    rw [uuid1ToMatrix_accepts host f cdata datasize orgmtx swap h]
    rfl

end decoder

/-! The encoder: the header and the entries as one array of words. -/

def uuid1Words (u : K → UInt32) (matrix : AmbixMatrix K) : List UInt32 :=
  matrix.rows :: matrix.cols :: (List.range matrix.rows.toNat).flatMap fun r =>
    (List.range matrix.cols.toNat).map fun c => u (matrix.data r c)

def uuid1Bytes (o : ByteOrder) (u : K → UInt32) (matrix : AmbixMatrix K) : List UInt8 :=
  uuidV1 ++ (uuid1Words u matrix).flatMap (bytes32 o)

theorem uuid1Words_length (u : K → UInt32) (matrix : AmbixMatrix K) :
    (uuid1Words u matrix).length = 2+matrix.rows.toNat*matrix.cols.toNat := by
  have h := flatMap_length (fun r => (List.range matrix.cols.toNat).map fun c =>
    u (matrix.data r c)) matrix.cols.toNat matrix.rows.toNat (by simp)
  rw [uuid1Words, List.length_cons, List.length_cons, h]
  omega

@[simp] theorem uuid1Bytes_length (o : ByteOrder) (u : K → UInt32) (matrix : AmbixMatrix K) :
    (uuid1Bytes o u matrix).length = 24+4*(matrix.rows.toNat*matrix.cols.toNat) := by
  have h16 : uuidV1.length = 16 := rfl
  rw [uuid1Bytes, List.length_append, words_length, uuid1Words_length, h16]
  omega

theorem checkUUID_uuid1Bytes (o : ByteOrder) (u : K → UInt32) (matrix : AmbixMatrix K) :
    checkUUID (uuid1Bytes o u matrix) = 1 := rfl

section encoder
variable (host : ByteOrder) (u : K → UInt32) (matrix : AmbixMatrix K) (swap : Bool)

def uuid1Size : UInt64 := 16+4+4+matrix.rows.toUInt64*matrix.cols.toUInt64*4

theorem uuid1Size_toNat (h : 24+4*(matrix.rows.toNat*matrix.cols.toNat) < 2^64) :
    (uuid1Size matrix).toNat = 24+4*(matrix.rows.toNat*matrix.cols.toNat) := by
  have h24 : UInt64.toNat (16+4+4) = 24 := rfl
  have h4 : UInt64.toNat 4 = 4 := rfl
  rw [uuid1Size, UInt64.toNat_add, UInt64.toNat_mul, toNat_toUInt64_mul, h24, h4,
    Nat.mul_comm _ 4]
  omega

theorem matrixToUuid1_null :
    matrixToUuid1 host u matrix none swap = .ok (uuid1Size matrix, none) := rfl

theorem rowBytes_length (r : Nat) :
    (rowBytes host u matrix r).length = 4*matrix.cols.toNat := by
  rw [Nat.mul_comm]
  exact flatMap_length _ 4 _ fun c _ => bytes32_length host _

theorem rows_length (n : Nat) :
    ((List.range n).flatMap (rowBytes host u matrix)).length = 4*(n*matrix.cols.toNat) := by
  rw [flatMap_length _ (4*matrix.cols.toNat) n fun r _ => rowBytes_length host u matrix r,
    Nat.mul_left_comm]

theorem words_rows : (uuid1Words u matrix).flatMap (bytes32 host) =
    bytes32 host matrix.rows ++ (bytes32 host matrix.cols ++
      (List.range matrix.rows.toNat).flatMap (rowBytes host u matrix)) := by
  simp only [uuid1Words, List.flatMap_cons, List.flatMap_assoc, List.flatMap_map]
  rfl

/-- A matrix that has rows has columns. -/
def AmbixMatrix.Columned (matrix : AmbixMatrix K) : Prop :=
  0 < matrix.rows.toNat → 0 < matrix.cols.toNat

theorem loadRow_ok (hcols : 0 < matrix.cols.toNat) (r : Nat) :
    loadRow host u matrix r = .ok (rowBytes host u matrix r) := by
  refine if_neg ?_
  have h1 : UInt32.toNat 1 = 1 := rfl
  rw [UInt32.lt_iff_toNat_lt, h1]
  omega

theorem rows_stored (done rest : List UInt8) (hdone : done.length = 24) (hcols : matrix.Columned)
    (hsize : 24+4*(matrix.rows.toNat*matrix.cols.toNat) < 2^64)
    (hrest : 4*(matrix.rows.toNat*matrix.cols.toNat) ≤ rest.length) :
    loopM (fun r (s : List UInt8 × UInt64) => do
        let row ← loadRow host u matrix r
        let cdata ← store s.1 s.2.toNat row
        .ok (cdata, s.2+matrix.cols.toUInt64*4)) matrix.rows.toNat (done ++ rest, 24) =
      .ok (done ++ (List.range matrix.rows.toNat).flatMap (rowBytes host u matrix) ++
        rest.drop (4*(matrix.rows.toNat*matrix.cols.toNat)),
        24+UInt64.ofNat (4*(matrix.rows.toNat*matrix.cols.toNat))) := by
  refine loopM_eq (fun r => (done ++ (List.range r).flatMap (rowBytes host u matrix) ++
    rest.drop (4*(r*matrix.cols.toNat)), 24+UInt64.ofNat (4*(r*matrix.cols.toNat))))
    (by simp) fun r hr => ?_
  have hnext : 4*(r*matrix.cols.toNat)+4*matrix.cols.toNat ≤
      4*(matrix.rows.toNat*matrix.cols.toNat) := by
    have h := Nat.mul_le_mul_left 4 (Nat.mul_le_mul_right matrix.cols.toNat hr)
    rwa [Nat.succ_mul r, Nat.mul_add] at h
  have hlast : 4*((r+1)*matrix.cols.toNat) = 4*(r*matrix.cols.toNat)+4*matrix.cols.toNat := by
    rw [Nat.succ_mul r, Nat.mul_add]
  have h24 : UInt64.toNat 24 = 24 := rfl
  have h4 : UInt64.toNat 4 = 4 := rfl
  have hpos : (24+UInt64.ofNat (4*(r*matrix.cols.toNat))).toNat =
      (done ++ (List.range r).flatMap (rowBytes host u matrix)).length := by
    rw [List.length_append, hdone, rows_length, UInt64.toNat_add, h24, UInt64.toNat_ofNat']
    omega
  have hst := store_append (done ++ (List.range r).flatMap (rowBytes host u matrix))
    (rest.drop (4*(r*matrix.cols.toNat))) (rowBytes host u matrix r) _ hpos
    (by rw [rowBytes_length, List.length_drop]; omega)
  have hidx : 24+UInt64.ofNat (4*(r*matrix.cols.toNat))+matrix.cols.toUInt64*4 =
      24+UInt64.ofNat (4*(r*matrix.cols.toNat)+4*matrix.cols.toNat) := by
    apply UInt64.toNat_inj.mp
    simp only [UInt64.toNat_add, UInt64.toNat_mul, UInt64.toNat_ofNat', UInt32.toNat_toUInt64, h4]
    omega
  rw [rowBytes_length, List.drop_drop] at hst
  dsimp only
  rw [loadRow_ok host u matrix (hcols (by omega)), ok_bind, hst, ok_bind, hidx, hlast,
    List.range_succ, List.flatMap_append, List.flatMap_singleton, List.append_assoc done]

theorem matrixToUuid1_buffer (vdata : List UInt8) (hcols : matrix.Columned)
    (hsize : 24+4*(matrix.rows.toNat*matrix.cols.toNat) < 2^64)
    (hfit : 24+4*(matrix.rows.toNat*matrix.cols.toNat) ≤ vdata.length) :
    matrixToUuid1 host u matrix (some vdata) swap = .ok (uuid1Size matrix,
      some (uuid1Bytes (host.swapIf swap) u matrix ++
        vdata.drop (24+4*(matrix.rows.toNat*matrix.cols.toNat)))) := by
  have h16 : uuidV1.length = 16 := rfl
  have hs0 := store_append [] vdata uuidV1 0 rfl (by omega)
  have hs1 := store_append uuidV1 (vdata.drop 16) (bytes32 host matrix.rows) 16 rfl
    (by rw [List.length_drop, bytes32_length]; omega)
  have hs2 := store_append (uuidV1 ++ bytes32 host matrix.rows) (vdata.drop 20)
    (bytes32 host matrix.cols) 20 (by simp [h16])
    (by rw [List.length_drop, bytes32_length]; omega)
  have hs3 := rows_stored host u matrix
    (uuidV1 ++ bytes32 host matrix.rows ++ bytes32 host matrix.cols) (vdata.drop 24)
    (by simp [h16]) hcols hsize (by rw [List.length_drop]; omega)
  have hel : (matrix.rows.toUInt64*matrix.cols.toUInt64+2).toNat =
      (uuid1Words u matrix).length := by
    have h2 : UInt64.toNat 2 = 2 := rfl
    rw [UInt64.toNat_add, toNat_toUInt64_mul, uuid1Words_length, h2]
    omega
  have hsw := swap4array_words host (uuid1Words u matrix) uuidV1
    (vdata.drop (24+4*(matrix.rows.toNat*matrix.cols.toNat)))
  rw [h16, ← hel, words_rows] at hsw
  simp only [List.nil_append, List.drop_drop, bytes32_length, h16, List.append_assoc,
    Nat.reduceAdd] at hs0 hs1 hs2 hs3 hsw
  simp only [matrixToUuid1, getUUID, if_true, store32, hs0, hs1, hs2, hs3, ok_bind, uuid1Bytes]
  cases swap
  · simp only [Bool.false_eq_true, if_false, ByteOrder.swapIf_false, words_rows,
      List.append_assoc]
    rfl
  · simp only [if_true, hsw, ok_bind, ByteOrder.swapIf_true, List.append_assoc]
    rfl

theorem matrixToUuid1_null_rows (vdata : List UInt8) (hcols : ¬ matrix.Columned)
    (hfit : 24 ≤ vdata.length) :
    ∃ fault, matrixToUuid1 host u matrix (some vdata) swap = .error fault := by
  obtain ⟨hrows, hcols⟩ := Classical.not_imp.mp hcols
  have h16 : uuidV1.length = 16 := rfl
  have hs0 := store_append [] vdata uuidV1 0 rfl (by omega)
  have hs1 := store_append uuidV1 (vdata.drop 16) (bytes32 host matrix.rows) 16 rfl
    (by rw [List.length_drop, bytes32_length]; omega)
  have hs2 := store_append (uuidV1 ++ bytes32 host matrix.rows) (vdata.drop 20)
    (bytes32 host matrix.cols) 20 (by simp [h16])
    (by rw [List.length_drop, bytes32_length]; omega)
  have hzero : matrix.cols < 1 := by
    have h1 : UInt32.toNat 1 = 1 := rfl
    rw [UInt32.lt_iff_toNat_lt, h1]
    omega
  simp only [List.nil_append, List.drop_drop, bytes32_length, h16, Nat.reduceAdd] at hs0 hs1 hs2
  refine ⟨.outside 0 0, ?_⟩
  simp only [matrixToUuid1, getUUID, if_true, store32, hs0, hs1, hs2, ok_bind]
  rw [loopM_fails (e := .outside 0 0) (fun s => ?_) hrows]
  · rfl
  · rw [loadRow, if_pos hzero]
    rfl

end encoder
end Ambix
