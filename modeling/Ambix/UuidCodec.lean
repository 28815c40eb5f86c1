import Ambix.UuidChunk
import Mathlib.Data.UInt

/-! The matrix chunk as a codec: which payloads the decoder takes, and that encoder
and decoder undo each other on any pair of hosts. -/
namespace Ambix
open Machine

/-! Acceptance. -/

/-- The header and all the entries it announces lie inside the payload. -/
def Uuid1Fits (o : ByteOrder) (cdata : Nat → UInt8) (datasize : UInt64) : Prop :=
  8 ≤ datasize.toNat ∧ 1 ≤ (payloadRows o cdata).toNat ∧ 1 ≤ (payloadCols o cdata).toNat ∧
    8+4*payloadSize o cdata ≤ datasize.toNat

/-- The payload passes the comparisons but ends before its last entry. -/
def Uuid1Overshoots (o : ByteOrder) (cdata : Nat → UInt8) (datasize : UInt64) : Prop :=
  8 ≤ datasize.toNat ∧ 1 ≤ (payloadRows o cdata).toNat ∧ 1 ≤ (payloadCols o cdata).toNat ∧
    4*payloadSize o cdata % 2^64 ≤ datasize.toNat ∧ datasize.toNat < 8+4*payloadSize o cdata

instance (o : ByteOrder) (cdata : Nat → UInt8) (datasize : UInt64) :
    Decidable (Uuid1Fits o cdata datasize) := inferInstanceAs (Decidable (_ ∧ _ ∧ _ ∧ _))

instance (o : ByteOrder) (cdata : Nat → UInt8) (datasize : UInt64) :
    Decidable (Uuid1Overshoots o cdata datasize) :=
  inferInstanceAs (Decidable (_ ∧ _ ∧ _ ∧ _ ∧ _))

section acceptance
variable {K : Type} [Zero K]

/-- Acceptance and bounds of one call: a matrix is returned exactly for a payload
that fits, all words come from the payload, and a refusal leaves the object alone. -/
structure Uuid1Contract (host : ByteOrder) (f : UInt32 → K) (cdata : Nat → UInt8)
    (datasize : UInt64) (orgmtx : Option (AmbixMatrix K)) (swap : Bool) : Prop where
  returns : (uuid1ToMatrix host f cdata datasize orgmtx swap).ret.isSome = true ↔
    Uuid1Fits (host.swapIf swap) cdata datasize
  inside : (uuid1ToMatrix host f cdata datasize orgmtx swap).ret.isSome = true →
    ∀ pos ∈ (uuid1ToMatrix host f cdata datasize orgmtx swap).consumed, pos+4 ≤ datasize.toNat
  refuses : (uuid1ToMatrix host f cdata datasize orgmtx swap).ret = none →
    (uuid1ToMatrix host f cdata datasize orgmtx swap).orgmtx = orgmtx

theorem accepts_of_fits {o : ByteOrder} {cdata : Nat → UInt8} {datasize : UInt64}
    (h : Uuid1Fits o cdata datasize) : Uuid1Accepts o cdata datasize := by
  obtain ⟨h8, hr, hc, hfit⟩ := h
  have hmod := Nat.mod_le (4*payloadSize o cdata) (2^64)
  exact ⟨h8, hr, hc, by omega⟩

theorem fits_of_accepts {o : ByteOrder} {cdata : Nat → UInt8} {datasize : UInt64}
    (h : Uuid1Accepts o cdata datasize) (hno : ¬ Uuid1Overshoots o cdata datasize) :
    Uuid1Fits o cdata datasize := by
  obtain ⟨h8, hr, hc, hfit⟩ := h
  refine ⟨h8, hr, hc, ?_⟩
  by_contra hlong
  exact hno ⟨h8, hr, hc, hfit, not_le.mp hlong⟩

theorem not_contract_of_overshoots (host : ByteOrder) (f : UInt32 → K) (cdata : Nat → UInt8)
    (datasize : UInt64) (orgmtx : Option (AmbixMatrix K)) (swap : Bool)
    (h : Uuid1Overshoots (host.swapIf swap) cdata datasize) :
    ¬ Uuid1Contract host f cdata datasize orgmtx swap := by
  obtain ⟨h8, hr, hc, hfit, hlong⟩ := h
  intro hcon
  have hsome := (uuid1ToMatrix_isSome host f cdata datasize orgmtx swap).mpr ⟨h8, hr, hc, hfit⟩
  have hin := (hcon.returns.mp hsome).2.2.2
  omega

/-- The exact defect of the size check: it forgets the header, and it wraps. -/
theorem uuid1Contract_iff (host : ByteOrder) (f : UInt32 → K) (cdata : Nat → UInt8)
    (datasize : UInt64) (orgmtx : Option (AmbixMatrix K)) (swap : Bool) :
    Uuid1Contract host f cdata datasize orgmtx swap ↔
      ¬ Uuid1Overshoots (host.swapIf swap) cdata datasize := by
  constructor
  · intro hcon h
    exact not_contract_of_overshoots host f cdata datasize orgmtx swap h hcon
  · intro hno
    have hiff := uuid1ToMatrix_isSome host f cdata datasize orgmtx swap
    refine ⟨⟨fun h => fits_of_accepts (hiff.mp h) hno,
      fun h => hiff.mpr (accepts_of_fits h)⟩, ?_, ?_⟩
    · intro h pos hpos
      obtain ⟨h8, -, -, hfit⟩ := fits_of_accepts (hiff.mp h) hno
      rw [uuid1ToMatrix_accepts host f cdata datasize orgmtx swap (hiff.mp h)] at hpos
      simp only [List.mem_append, List.mem_cons, List.not_mem_nil, or_false, List.mem_map,
        List.mem_range] at hpos
      obtain (rfl | rfl) | ⟨k, hk, rfl⟩ := hpos <;> omega
    · intro h
      refine (uuid1ToMatrix_rejects host f cdata datasize orgmtx swap fun hacc => ?_).2
      have hsome := hiff.mpr hacc
      rw [h] at hsome
      cases hsome

/-- Eleven bytes announcing a 1 by 1 matrix: the entry's last byte is read from behind
the payload. -/
theorem uuid1Contract_fails : ¬ Uuid1Contract .little (fun v => v)
    (view [1, 0, 0, 0, 1, 0, 0, 0, 0, 0, 0x80] fun _ => 0x3f) 11 none false :=
  not_contract_of_overshoots _ _ _ _ _ _ (by decide)

end acceptance

/-! Decoding what was encoded. -/

section roundtrip
variable {K : Type} [Zero K]

def Holds (o : ByteOrder) (ws : List UInt32) (cdata : Nat → UInt8) : Prop :=
  ∀ k (hk : k < ws.length), word32 o (window cdata (4*k) 4) = ws[k]

theorem holds_view (o : ByteOrder) (ws : List UInt32) (tail : List UInt8)
    (behind : Nat → UInt8) : Holds o ws (view (ws.flatMap (bytes32 o) ++ tail) behind) := by
  intro k hk
  have hlen := words_length o ws
  rw [window_view _ _ _ _ (by rw [List.length_append]; omega), field_words o ws tail k hk,
    word32_bytes32]

theorem holds_payload (o : ByteOrder) (u : K → UInt32) (m : AmbixMatrix K)
    (behind : Nat → UInt8) :
    Holds o (uuid1Words u m) (view ((uuid1Bytes o u m).drop 16) behind) := by
  have hpay : (uuid1Bytes o u m).drop 16 = (uuid1Words u m).flatMap (bytes32 o) ++ [] := by
    rw [List.append_nil]
    rfl
  rw [hpay]
  exact holds_view o (uuid1Words u m) [] behind

theorem payload_toNat (o : ByteOrder) (u : K → UInt32) (m : AmbixMatrix K)
    (hsize : 24+4*(m.rows.toNat*m.cols.toNat) < 2^64) :
    (UInt64.ofNat ((uuid1Bytes o u m).length-16)).toNat = 8+4*(m.rows.toNat*m.cols.toNat) := by
  rw [UInt64.toNat_ofNat', uuid1Bytes_length]
  omega

theorem uuid1Words_entry (u : K → UInt32) (m : AmbixMatrix K) (r c : Nat)
    (hr : r < m.rows.toNat) (hc : c < m.cols.toNat)
    (hk : 2+(r*m.cols.toNat+c) < (uuid1Words u m).length) :
    (uuid1Words u m)[2+(r*m.cols.toNat+c)] = u (m.data r c) := by
  have h := flatMap_getElem? (fun r => (List.range m.cols.toNat).map fun c => u (m.data r c))
    m.cols.toNat m.rows.toNat r c (by simp) hr hc
  apply Option.some.inj
  rw [← List.getElem?_eq_getElem hk, uuid1Words, Nat.add_comm 2, List.getElem?_cons_succ,
    List.getElem?_cons_succ, h]
  simp [hc]

variable {o : ByteOrder} {u : K → UInt32} {m : AmbixMatrix K} {cdata : Nat → UInt8}

theorem payloadRows_encoded (h : Holds o (uuid1Words u m) cdata) :
    payloadRows o cdata = m.rows := h 0 (by simp [uuid1Words])

theorem payloadCols_encoded (h : Holds o (uuid1Words u m) cdata) :
    payloadCols o cdata = m.cols := h 1 (by simp [uuid1Words])

theorem payloadMatrix_encoded (f : UInt32 → K) (h : Holds o (uuid1Words u m) cdata)
    (hf : ∀ r c, r < m.rows.toNat → c < m.cols.toNat → f (u (m.data r c)) = m.data r c) :
    payloadMatrix o f cdata = m := by
  have hrows := payloadRows_encoded h
  have hcols := payloadCols_encoded h
  symm
  refine AmbixMatrix.eq_ofFn hrows.symm hcols.symm fun r c hr hc => ?_
  rw [hrows] at hr
  rw [hcols] at hc
  have hk : 2+(r*m.cols.toNat+c) < (uuid1Words u m).length := by
    have hin : r*m.cols.toNat+m.cols.toNat ≤ m.rows.toNat*m.cols.toNat := by
      rw [← Nat.succ_mul]
      exact Nat.mul_le_mul_right _ hr
    rw [uuid1Words_length]
    omega
  have hpos : 8+4*(r*m.cols.toNat+c) = 4*(2+(r*m.cols.toNat+c)) := by omega
  rw [hcols, hpos, h _ hk, uuid1Words_entry u m r c hr hc hk, hf r c hr hc]

theorem accepts_encoded (h : Holds o (uuid1Words u m) cdata) (datasize : UInt64)
    (hr : 0 < m.rows.toNat) (hc : 0 < m.cols.toNat)
    (hsize : 8+4*(m.rows.toNat*m.cols.toNat) ≤ datasize.toNat) :
    Uuid1Accepts o cdata datasize := by
  apply accepts_of_fits
  rw [Uuid1Fits, payloadSize, payloadRows_encoded h, payloadCols_encoded h]
  exact ⟨by omega, hr, hc, hsize⟩

/-! Encoding what was decoded; entries are bare words here. -/

theorem words_payloadMatrix (o : ByteOrder) (cdata : Nat → UInt8) :
    (uuid1Words (fun v => v) (payloadMatrix o (fun v => v) cdata)).flatMap (bytes32 o) =
      window cdata 0 (8+4*payloadSize o cdata) := by
  have hword (pos : Nat) : bytes32 o (word32 o (window cdata pos 4)) = window cdata pos 4 :=
    bytes32_word32 o _ (window_length cdata pos 4)
  have hentries : ((List.range (payloadRows o cdata).toNat).flatMap fun r =>
      (List.range (payloadCols o cdata).toNat).map fun c =>
        (payloadMatrix o (fun v => v) cdata).data r c) =
      (List.range (payloadSize o cdata)).map fun k => word32 o (window cdata (8+4*k) 4) := by
    rw [payloadSize, ← flatMap_rowMajor]
    apply List.flatMap_congr
    intro r hr
    apply List.map_congr_left
    intro c hc
    exact AmbixMatrix.ofFn_data (List.mem_range.mp hr) (List.mem_range.mp hc)
  have hsplit : window cdata 0 (8+4*payloadSize o cdata) = window cdata 0 4 ++ (window cdata 4 4 ++
      (List.range (payloadSize o cdata)).flatMap fun k => window cdata (8+4*k) 4) := by
    rw [← window_mul, ← List.append_assoc, ← window_add cdata 0 4 4, ← window_add]
  rw [hsplit, uuid1Words]
  simp only [List.flatMap_cons]
  rw [show (payloadMatrix o (fun v => v) cdata).rows = payloadRows o cdata from rfl,
    show (payloadMatrix o (fun v => v) cdata).cols = payloadCols o cdata from rfl, hentries,
    List.flatMap_map, payloadRows, payloadCols, hword, hword]
  simp only [hword]

end roundtrip

/-! Both directions on any pair of hosts. A host swaps when its order is not the file's. -/

structure Uuid1RoundTrip (writer reader file : ByteOrder) (m : AmbixMatrix UInt32) : Prop where
  /-- `NULL` announces the size. -/
  announced : ∃ size : UInt64, size.toNat = 24+4*(m.rows.toNat*m.cols.toNat) ∧
    matrixToUuid1 writer (fun v => v) m none (decide (writer ≠ file)) = .ok (size, none)
  /-- Exactly the announced bytes are produced, then recognised and read back. -/
  produced : ∃ chunk : List UInt8, chunk.length = 24+4*(m.rows.toNat*m.cols.toNat) ∧
    (∀ buffer : List UInt8, chunk.length ≤ buffer.length →
      matrixToUuid1 writer (fun v => v) m (some buffer) (decide (writer ≠ file)) =
        .ok (UInt64.ofNat chunk.length, some (chunk ++ buffer.drop chunk.length))) ∧
    checkUUID (chunk.take 16) = 1 ∧
    ∀ (behind : Nat → UInt8) (orgmtx : Option (AmbixMatrix UInt32)),
      (uuid1ToMatrix reader (fun v => v) (view (chunk.drop 16) behind)
        (UInt64.ofNat (chunk.length-16)) orgmtx (decide (reader ≠ file))).ret = some m

/-- Reading payload `p` on one host and writing the result on another. -/
structure Uuid1Reencodes (writer reader file : ByteOrder) (p : List UInt8)
    (behind : Nat → UInt8) : Prop where
  reencoded : ∀ orgmtx : Option (AmbixMatrix UInt32), ∃ m,
    (uuid1ToMatrix reader (fun v => v) (view p behind) (UInt64.ofNat p.length) orgmtx
      (decide (reader ≠ file))).ret = some m ∧
    ∀ buffer : List UInt8, 24+4*payloadSize file (view p behind) ≤ buffer.length →
      matrixToUuid1 writer (fun v => v) m (some buffer) (decide (writer ≠ file)) =
        .ok (UInt64.ofNat (24+4*payloadSize file (view p behind)),
          some (uuidV1 ++ p.take (8+4*payloadSize file (view p behind)) ++
            buffer.drop (24+4*payloadSize file (view p behind))))

theorem roundTrip (writer reader file : ByteOrder) (m : AmbixMatrix UInt32)
    (hr : 0 < m.rows.toNat) (hc : 0 < m.cols.toNat)
    (hsize : 24+4*(m.rows.toNat*m.cols.toNat) < 2^63) :
    Uuid1RoundTrip writer reader file m := by
  have hlen := uuid1Bytes_length file (fun v => v) m
  have hann := uuid1Size_toNat m (by omega)
  have hofNat : UInt64.ofNat (24+4*(m.rows.toNat*m.cols.toNat)) = uuid1Size m := by
    rw [← hann, UInt64.ofNat_toNat]
  refine ⟨⟨uuid1Size m, hann, matrixToUuid1_null ..⟩, uuid1Bytes file (fun v => v) m, hlen, ?_,
    rfl, ?_⟩
  · intro buffer hbuf
    rw [hlen] at hbuf ⊢
    rw [matrixToUuid1_buffer _ _ _ _ _ (fun _ => hc) (by omega) hbuf, ByteOrder.swapIf_ne, hofNat]
  · intro behind orgmtx
    have hholds := holds_payload file (fun v => v) m behind
    have hacc := accepts_encoded hholds _ hr hc (payload_toNat file (fun v => v) m (by omega)).ge
    rw [uuid1ToMatrix_accepts _ _ _ _ _ _ (by rwa [ByteOrder.swapIf_ne]), ByteOrder.swapIf_ne]
    exact congrArg some (payloadMatrix_encoded _ hholds fun _ _ _ _ => rfl)

theorem reencodes (writer reader file : ByteOrder) (p : List UInt8) (behind : Nat → UInt8)
    (hp : p.length+16 < 2^64) (hr : 0 < (payloadRows file (view p behind)).toNat)
    (hc : 0 < (payloadCols file (view p behind)).toNat)
    (hfit : 8+4*payloadSize file (view p behind) ≤ p.length) :
    Uuid1Reencodes writer reader file p behind := by
  refine ⟨fun orgmtx => ⟨payloadMatrix file (fun v => v) (view p behind), ?_, ?_⟩⟩
  · have hn : (UInt64.ofNat p.length).toNat = p.length := by
      rw [UInt64.toNat_ofNat']
      omega
    have hacc : Uuid1Accepts file (view p behind) (UInt64.ofNat p.length) :=
      accepts_of_fits ⟨by omega, hr, hc, by omega⟩
    rw [uuid1ToMatrix_accepts _ _ _ _ _ _ (by rwa [ByteOrder.swapIf_ne]), ByteOrder.swapIf_ne]
  · intro buffer hbuf
    have hbound : 24+4*payloadSize file (view p behind) < 2^64 := by omega
    have hsize := uuid1Size_toNat (payloadMatrix file (fun v => v) (view p behind)) hbound
    have hofNat : UInt64.ofNat (24+4*payloadSize file (view p behind)) =
        uuid1Size (payloadMatrix file (fun v => v) (view p behind)) := by
      rw [← UInt64.ofNat_toNat (x := uuid1Size _), hsize]
      rfl
    have hwin := window_view p behind 0 (8+4*payloadSize file (view p behind)) (by omega)
    have hbuffer := matrixToUuid1_buffer writer (fun v => v)
      (payloadMatrix file (fun v => v) (view p behind)) (decide (writer ≠ file)) buffer
      (fun _ => hc) hbound hbuf
    rw [hbuffer, ByteOrder.swapIf_ne, uuid1Bytes, words_payloadMatrix, hwin, field, List.drop_zero,
      hofNat]
    rfl

/-- The matrix chunk is a bijection between matrices and payloads and does not
depend on the hosts. -/
theorem uuid1_codec (writer reader file : ByteOrder) :
    (∀ m : AmbixMatrix UInt32, 0 < m.rows.toNat → 0 < m.cols.toNat →
      24+4*(m.rows.toNat*m.cols.toNat) < 2^63 → Uuid1RoundTrip writer reader file m) ∧
    (∀ (p : List UInt8) (behind : Nat → UInt8), p.length+16 < 2^64 →
      0 < (payloadRows file (view p behind)).toNat → 0 < (payloadCols file (view p behind)).toNat →
      8+4*payloadSize file (view p behind) ≤ p.length →
      Uuid1Reencodes writer reader file p behind) :=
  ⟨fun m => roundTrip writer reader file m, fun p behind => reencodes writer reader file p behind⟩

/-- A 1 by 2 matrix written on a little-endian and read on a big-endian host, from a
big-endian file, and a payload with two bytes behind its entry. -/
theorem uuid1_codec_example :
    Uuid1RoundTrip .little .big .big (AmbixMatrix.ofFn 1 2 fun _ c => UInt32.ofNat (c+7)) ∧
    Uuid1Reencodes .big .little .little [1, 0, 0, 0, 1, 0, 0, 0, 0, 0, 0x80, 0x3f, 5, 6]
      (fun _ => 0) :=
  ⟨(uuid1_codec .little .big .big).1 _ (by decide) (by decide) (by decide),
    (uuid1_codec .big .little .little).2 _ _ (by decide) (by decide) (by decide) (by decide)⟩

end Ambix
