import Ambix.CafRecords
import Mathlib.Tactic.Ring

/-! Writing markers and regions: the three blocks of `_ambix_write_markersregions`
with every store checked against the size reserved for its block. -/
namespace Ambix
open Machine

def zeros (n : Nat) : List UInt8 := List.replicate n 0

/-- `strings_data`, the offsets of `byte_ptr_stringid` and `byte_ptr_strings` in it,
`byteoffset_strings` and `datasize_strings`. -/
structure StringsData where
  data : List UInt8
  stringid : Nat
  strings : Nat
  byteoffset : UInt64
  datasize : UInt32
deriving DecidableEq

section write
variable (host : ByteOrder) (swap : Bool)

def addStringToData (id : UInt32) (name : Name) (s : StringsData) : Checked StringsData := do
  let nameLen := UInt32.ofNat name.bytes.length
  let data ← store32 host s.data s.stringid id
  let data ← store64 host data (s.stringid+4) s.byteoffset
  let data ← store data s.strings name.bytes
  let data ← store data (s.strings+nameLen.toNat) [0]
  let data ← swapWhen swap (swapStringid host · s.stringid) data
  .ok { s with
    data := data
    byteoffset := s.byteoffset+(nameLen+1).toUInt64
    datasize := s.datasize+(nameLen+1) }

def StringsData.advance (name : Name) (s : StringsData) : StringsData :=
  { s with strings := s.strings+(name.bytes.length+1), stringid := s.stringid+sizeofCAFStringID }

/-- The fields set in a `CAFMarker`; its SMPTE time stays as allocated. -/
def setMarker (b : List UInt8) (pos : Nat) (mType : UInt32) (position : UInt64) (id : UInt32) :
    Checked (List UInt8) := do
  let b ← store32 host b pos mType
  let b ← store64 host b (pos+4) position
  let b ← store32 host b (pos+12) id
  store32 host b (pos+24) 0

/-- The fields set in a `CAFRegion`; two markers follow it. -/
def setRegion (b : List UInt8) (pos : Nat) (id : UInt32) : Checked (List UInt8) := do
  let b ← store32 host b pos id
  let b ← store32 host b (pos+4) 0
  store32 host b (pos+8) 2

/-- The fields set in a fresh `CAFMarkerChunk` or `CAFRegionChunk` of `datasize` bytes. -/
def setHeader (datasize count : UInt32) : Checked (List UInt8) := do
  let b ← store32 host (zeros datasize.toNat) 0 smpteTimeTypeNone
  store32 host b 4 count

/-- The loop over `ambix->markers` from index `i` on; the state is `marker_data`,
`bytePtr` and the strings. -/
def writeMarkers : List Marker → UInt32 → List UInt8 × Nat × StringsData →
    Checked (List UInt8 × Nat × StringsData)
  | [], _, s => .ok s
  | m :: ms, i, (b, bytePtr, s) => do
    let b ← setMarker host b bytePtr markerTypeGeneric m.position (i+1)
    let b ← swapWhen swap (swapMarker host · bytePtr) b
    let s ← addStringToData host swap (i+1) m.name s
    writeMarkers ms (i+1) (b, bytePtr+sizeofCAFMarker, s.advance m.name)

/-- A region at `bytePtr` with its start and its end marker. -/
def writeRegion (regionID markerID : UInt32) (r : Region) (b : List UInt8) (bytePtr : Nat) :
    Checked (List UInt8) := do
  let start := bytePtr+sizeofCAFRegion
  let stop := start+sizeofCAFMarker
  let b ← setRegion host b bytePtr regionID
  let b ← setMarker host b start markerTypeRegionStart r.startPosition markerID
  let b ← setMarker host b stop markerTypeRegionEnd r.endPosition markerID
  let b ← swapWhen swap (swapRegion host · bytePtr) b
  let b ← swapWhen swap (swapMarker host · start) b
  swapWhen swap (swapMarker host · stop) b

/-- The loop over `ambix->regions`. -/
def writeRegions (numMarkers : UInt32) : List Region → UInt32 → List UInt8 × Nat × StringsData →
    Checked (List UInt8 × Nat × StringsData)
  | [], _, s => .ok s
  | r :: rs, i, (b, bytePtr, s) => do
    let b ← writeRegion host swap (i+1) (numMarkers+i+1) r b bytePtr
    let s ← addStringToData host swap (numMarkers+i+1) r.name s
    writeRegions numMarkers rs (i+1)
      (b, bytePtr+sizeofCAFRegion+2*sizeofCAFMarker, s.advance r.name)

/-- Arguments of one call of `_ambix_write_chunk`. -/
structure ChunkWrite where
  id : ChunkId
  data : List UInt8
  datasize : UInt32
deriving DecidableEq

/-- `marker_data` and `datasize_markers`; no markers leave them `NULL` and 0. -/
def markersBlock (markers : List Marker) (s : StringsData) : Checked (ChunkWrite × StringsData) :=
  let numMarkers := UInt32.ofNat markers.length
  if 0 < numMarkers then do
    let datasize := 8+numMarkers*28
    let b ← setHeader host datasize numMarkers
    let b ← swapWhen swap (swapMarkerChunk host · 0) b
    let (b, _, s) ← writeMarkers host swap markers 0 (b, 8, s)
    .ok (⟨.mark, b, datasize⟩, s)
  else .ok (⟨.mark, [], 0⟩, s)

/-- `region_data` and `datasize_regions`. -/
def regionsBlock (numMarkers : UInt32) (regions : List Region) (s : StringsData) :
    Checked (ChunkWrite × StringsData) :=
  let numRegions := UInt32.ofNat regions.length
  if 0 < numRegions then do
    let datasize := 8+numRegions*(12+2*28)
    let b ← setHeader host datasize numRegions
    let b ← swapWhen swap (swapRegionChunk host · 0) b
    let (b, _, s) ← writeRegions host swap numMarkers regions 0 (b, 8, s)
    .ok (⟨.regn, b, datasize⟩, s)
  else .ok (⟨.regn, [], 0⟩, s)

/-- `strings_data` with its count; the names get one area of 256 bytes, whatever
their number. -/
def stringsBlock (numStrings : UInt32) : Checked StringsData := do
  let datasize : UInt32 := 4+numStrings*12
  let strings ← store32 host (zeros (datasize+256).toNat) 0 numStrings
  let strings ← swapWhen swap (swap4array host · 0 1) strings
  .ok ⟨strings, 4, 4+numStrings.toNat*12, 0, datasize⟩

/-- `_ambix_write_markersregions`, up to the chunks it hands to the backend. -/
def markersregionsChunks (markers : List Marker) (regions : List Region) :
    Checked (List ChunkWrite) :=
  let numMarkers := UInt32.ofNat markers.length
  let numRegions := UInt32.ofNat regions.length
  let numStrings := numMarkers+numRegions
  if numStrings = 0 then .ok []
  else do
    let s ← stringsBlock host swap numStrings
    let (mark, s) ← markersBlock host swap markers s
    let (regn, s) ← regionsBlock host swap numMarkers regions s
    .ok [mark, regn, ⟨.strg, s.data, s.datasize⟩]

end write

/-! The finished blocks in the byte order `o` of the file. -/

def namesSize (names : List Name) : Nat := (names.map Name.size).sum

@[simp] theorem namesSize_nil : namesSize [] = 0 := rfl
@[simp] theorem namesSize_cons (n : Name) (ns : List Name) :
    namesSize (n :: ns) = n.size+namesSize ns := by simp [namesSize]
@[simp] theorem namesSize_append (ms ns : List Name) :
    namesSize (ms ++ ns) = namesSize ms+namesSize ns := by simp [namesSize]

/-- Names of all markers, then of all regions. -/
def allNames (markers : List Marker) (regions : List Region) : List Name :=
  markers.map Marker.name ++ regions.map Region.name

section blocks
variable (o : ByteOrder)

def stringidRecord (id : UInt32) (byteoffset : UInt64) : List (List UInt8) :=
  [bytes32 o id, bytes64 o byteoffset]

def markerRecord (mType : UInt32) (position : UInt64) (id : UInt32) : List (List UInt8) :=
  [bytes32 o mType, bytes64 o position, bytes32 o id, zeros 8, bytes32 o 0]

def regionRecord (id : UInt32) : List (List UInt8) := [bytes32 o id, bytes32 o 0, bytes32 o 2]

def headerRecord (count : UInt32) : List (List UInt8) :=
  [bytes32 o smpteTimeTypeNone, bytes32 o count]

/-- The string IDs of `names`, from the `k`-th name at offset `off` on. -/
def stringids : Nat → Nat → List Name → List UInt8
  | _, _, [] => []
  | k, off, n :: ns =>
    (stringidRecord o (UInt32.ofNat (k+1)) (UInt64.ofNat off)).flatten ++
      stringids (k+1) (off+n.size) ns

/-- Names with their terminators. -/
def stringsBytes (names : List Name) : List UInt8 := names.flatMap fun n => n.bytes ++ [0]

def markerRecords : Nat → List Marker → List UInt8
  | _, [] => []
  | k, m :: ms =>
    (markerRecord o markerTypeGeneric m.position (UInt32.ofNat (k+1))).flatten ++
      markerRecords (k+1) ms

/-- Region `k` of the file, its names counted from `n` on. -/
def regionBytes (n k : Nat) (r : Region) : List UInt8 :=
  (regionRecord o (UInt32.ofNat (k+1))).flatten ++
    (markerRecord o markerTypeRegionStart r.startPosition (UInt32.ofNat (n+k+1))).flatten ++
    (markerRecord o markerTypeRegionEnd r.endPosition (UInt32.ofNat (n+k+1))).flatten

def regionRecords (n : Nat) : Nat → List Region → List UInt8
  | _, [] => []
  | k, r :: rs => regionBytes o n k r ++ regionRecords n (k+1) rs

@[simp] theorem stringids_length (k off : Nat) (names : List Name) :
    (stringids o k off names).length = 12*names.length := by
  induction names generalizing k off with
  | nil => rfl
  | cons n ns ih =>
    simp only [stringids, stringidRecord, List.length_append, ih, List.flatten_cons,
      List.flatten_nil, bytes32_length, bytes64_length, List.length_nil, List.length_cons]
    omega

theorem stringids_append (k off : Nat) (ms ns : List Name) :
    stringids o k off (ms ++ ns) =
      stringids o k off ms ++ stringids o (k+ms.length) (off+namesSize ms) ns := by
  induction ms generalizing k off with
  | nil => rfl
  | cons m ms ih =>
    simp only [List.cons_append, stringids, ih, List.append_assoc, namesSize_cons,
      List.length_cons, Nat.add_assoc, Nat.add_comm 1]

@[simp] theorem stringsBytes_length (names : List Name) :
    (stringsBytes names).length = namesSize names := by
  induction names with
  | nil => rfl
  | cons n ns ih =>
    rw [stringsBytes, List.flatMap_cons, List.length_append, namesSize_cons, ← ih]
    simp [Name.size, stringsBytes]

theorem stringsBytes_append (ms ns : List Name) :
    stringsBytes (ms ++ ns) = stringsBytes ms ++ stringsBytes ns := List.flatMap_append

@[simp] theorem markerRecord_length (mType : UInt32) (position : UInt64) (id : UInt32) :
    (markerRecord o mType position id).flatten.length = 28 := by
  simp [markerRecord, zeros]

@[simp] theorem regionBytes_length (n k : Nat) (r : Region) :
    (regionBytes o n k r).length = 68 := by
  have hr : (regionRecord o (UInt32.ofNat (k+1))).flatten.length = 12 := by simp [regionRecord]
  rw [regionBytes, List.length_append, List.length_append, hr, markerRecord_length,
    markerRecord_length]

@[simp] theorem markerRecords_length (k : Nat) (ms : List Marker) :
    (markerRecords o k ms).length = 28*ms.length := by
  induction ms generalizing k with
  | nil => rfl
  | cons m ms ih =>
    rw [markerRecords, List.length_append, ih, markerRecord_length, List.length_cons]
    omega

@[simp] theorem regionRecords_length (n k : Nat) (rs : List Region) :
    (regionRecords o n k rs).length = 68*rs.length := by
  induction rs generalizing k with
  | nil => rfl
  | cons r rs ih =>
    rw [regionRecords, List.length_append, ih, regionBytes_length, List.length_cons]
    omega

end blocks

/-! Records in their block: stored field by field in the order of the host, then
swapped into the order of the file. -/

section records
variable (host : ByteOrder) (swap : Bool) (pre post : List UInt8)

theorem swapMarker_record (mType : UInt32) (position : UInt64) (id : UInt32) (pos : Nat)
    (hpos : pos = pre.length) :
    swapWhen swap (swapMarker host · pos)
        (pre ++ (markerRecord host mType position id).flatten ++ post) =
      .ok (pre ++ (markerRecord (host.swapIf swap) mType position id).flatten ++ post) := by
  have h := swapWhen_record host swap markerFields (markerRecord host mType position id) pre post
    pos hpos (by simp [Fields, markerFields, markerRecord, FieldKind.width, zeros])
  refine h.trans ?_
  cases swap
  · rfl
  · simp [swapFields, markerFields, markerRecord, FieldKind.swapped, bytes32_flip, bytes64_flip]

theorem swapStringid_record (id : UInt32) (byteoffset : UInt64) :
    swapWhen swap (swapStringid host · pre.length)
        (pre ++ (stringidRecord host id byteoffset).flatten ++ post) =
      .ok (pre ++ (stringidRecord (host.swapIf swap) id byteoffset).flatten ++ post) := by
  have h := swapWhen_record host swap stringidFields (stringidRecord host id byteoffset) pre post
    _ rfl (by simp [Fields, stringidFields, stringidRecord, FieldKind.width])
  refine h.trans ?_
  cases swap
  · rfl
  · simp [swapFields, stringidFields, stringidRecord, FieldKind.swapped, bytes32_flip, bytes64_flip]

theorem swapRegion_record (id : UInt32) :
    swapWhen swap (swapRegion host · pre.length)
        (pre ++ (regionRecord host id).flatten ++ post) =
      .ok (pre ++ (regionRecord (host.swapIf swap) id).flatten ++ post) := by
  have h := swapWhen_record host swap regionFields (regionRecord host id) pre post _ rfl
    (by simp [Fields, regionFields, regionRecord, FieldKind.width])
  refine h.trans ?_
  cases swap
  · rfl
  · simp [swapFields, regionFields, regionRecord, FieldKind.swapped, bytes32_flip]

theorem swapHeader_record (count : UInt32) :
    swapWhen swap (swapMarkerChunk host · 0) ((headerRecord host count).flatten ++ post) =
      .ok ((headerRecord (host.swapIf swap) count).flatten ++ post) := by
  have h := swapWhen_record host swap markerChunkFields (headerRecord host count) [] post 0 rfl
    (by simp [Fields, markerChunkFields, headerRecord, FieldKind.width])
  refine h.trans ?_
  cases swap
  · rfl
  · simp [swapFields, markerChunkFields, headerRecord, FieldKind.swapped, bytes32_flip]

theorem setMarker_eq (mType : UInt32) (position : UInt64) (id : UInt32) :
    setMarker host (pre ++ zeros 28 ++ post) pre.length mType position id =
      .ok (pre ++ (markerRecord host mType position id).flatten ++ post) := by
  have hz : zeros 28 = [zeros 4, zeros 8, zeros 4, zeros 8, zeros 4].flatten := by decide
  have h0 := store_field pre post [zeros 4, zeros 8, zeros 4, zeros 8, zeros 4] 0
    (bytes32 host mType) pre.length (by simp) (by simp [zeros]) (by simp [offset])
  have h1 := store_field pre post [bytes32 host mType, zeros 8, zeros 4, zeros 8, zeros 4] 1
    (bytes64 host position) (pre.length+4) (by simp) (by simp [zeros]) (by simp [offset])
  have h2 := store_field pre post
    [bytes32 host mType, bytes64 host position, zeros 4, zeros 8, zeros 4] 2
    (bytes32 host id) (pre.length+12) (by simp) (by simp [zeros]) (by simp [offset])
  have h3 := store_field pre post
    [bytes32 host mType, bytes64 host position, bytes32 host id, zeros 8, zeros 4] 4
    (bytes32 host 0) (pre.length+24) (by simp) (by simp [zeros]) (by simp [offset, zeros])
  simp only [List.set_cons_zero, List.set_cons_succ] at h0 h1 h2 h3
  simp only [setMarker, store32, store64, hz, h0, h1, h2, h3, ok_bind, markerRecord]

theorem setRegion_eq (id : UInt32) :
    setRegion host (pre ++ zeros 12 ++ post) pre.length id =
      .ok (pre ++ (regionRecord host id).flatten ++ post) := by
  have hz : zeros 12 = [zeros 4, zeros 4, zeros 4].flatten := by decide
  have h0 := store_field pre post [zeros 4, zeros 4, zeros 4] 0 (bytes32 host id) pre.length
    (by simp) (by simp [zeros]) (by simp [offset])
  have h1 := store_field pre post [bytes32 host id, zeros 4, zeros 4] 1 (bytes32 host 0)
    (pre.length+4) (by simp) (by simp [zeros]) (by simp [offset])
  have h2 := store_field pre post [bytes32 host id, bytes32 host 0, zeros 4] 2 (bytes32 host 2)
    (pre.length+8) (by simp) (by simp [zeros]) (by simp [offset])
  simp only [List.set_cons_zero, List.set_cons_succ] at h0 h1 h2
  simp only [setRegion, store32, hz, h0, h1, h2, ok_bind, regionRecord]

theorem writeRegion_eq (n k : Nat) (r : Region) :
    writeRegion host swap (UInt32.ofNat (k+1)) (UInt32.ofNat (n+k+1)) r
        (pre ++ zeros 68 ++ post) pre.length =
      .ok (pre ++ regionBytes (host.swapIf swap) n k r ++ post) := by
  have hz : zeros 68 = zeros 12 ++ (zeros 28 ++ zeros 28) := by decide
  have hregion (o : ByteOrder) : (regionRecord o (UInt32.ofNat (k+1))).flatten.length = 12 := by
    simp [regionRecord]
  have hset := setRegion_eq host pre (zeros 28 ++ zeros 28 ++ post) (UInt32.ofNat (k+1))
  have hstart := setMarker_eq host (pre ++ (regionRecord host (UInt32.ofNat (k+1))).flatten)
    (zeros 28 ++ post) markerTypeRegionStart r.startPosition (UInt32.ofNat (n+k+1))
  have hstop := setMarker_eq host (pre ++ (regionRecord host (UInt32.ofNat (k+1))).flatten ++
      (markerRecord host markerTypeRegionStart r.startPosition (UInt32.ofNat (n+k+1))).flatten)
    post markerTypeRegionEnd r.endPosition (UInt32.ofNat (n+k+1))
  have hswap := swapRegion_record host swap pre
    ((markerRecord host markerTypeRegionStart r.startPosition (UInt32.ofNat (n+k+1))).flatten ++
      (markerRecord host markerTypeRegionEnd r.endPosition (UInt32.ofNat (n+k+1))).flatten ++ post)
    (UInt32.ofNat (k+1))
  have hswap₁ := swapMarker_record host swap
    (pre ++ (regionRecord (host.swapIf swap) (UInt32.ofNat (k+1))).flatten)
    ((markerRecord host markerTypeRegionEnd r.endPosition (UInt32.ofNat (n+k+1))).flatten ++ post)
    markerTypeRegionStart r.startPosition (UInt32.ofNat (n+k+1)) (pre.length+12)
    (by rw [List.length_append, hregion])
  have hswap₂ := swapMarker_record host swap
    (pre ++ (regionRecord (host.swapIf swap) (UInt32.ofNat (k+1))).flatten ++
      (markerRecord (host.swapIf swap) markerTypeRegionStart r.startPosition
        (UInt32.ofNat (n+k+1))).flatten)
    post markerTypeRegionEnd r.endPosition (UInt32.ofNat (n+k+1)) (pre.length+12+28)
    (by rw [List.length_append, List.length_append, hregion, markerRecord_length])
  rw [List.length_append, hregion] at hstart
  rw [List.length_append, List.length_append, hregion, markerRecord_length] at hstop
  simp only [List.append_assoc] at hset hstart hstop hswap hswap₁ hswap₂
  simp only [writeRegion, hz, List.append_assoc, hset, ok_bind, sizeofCAFRegion, sizeofCAFMarker,
    hstart, hstop, hswap, hswap₁, hswap₂, regionBytes]

theorem setHeader_eq (datasize count : UInt32) (n : Nat) (hn : datasize.toNat = 8+n) :
    setHeader host datasize count = .ok ((headerRecord host count).flatten ++ zeros n) := by
  have hz : zeros (8+n) = [] ++ [zeros 4, zeros 4].flatten ++ zeros n := by
    rw [zeros, List.replicate_add]
    rfl
  have h0 := store_field [] (zeros n) [zeros 4, zeros 4] 0 (bytes32 host smpteTimeTypeNone) 0
    (by simp) (by simp [zeros]) (by simp [offset])
  have h1 := store_field [] (zeros n) [bytes32 host smpteTimeTypeNone, zeros 4] 1
    (bytes32 host count) 4 (by simp) (by simp [zeros]) (by simp [offset])
  simp only [List.set_cons_zero, List.set_cons_succ] at h0 h1
  simp only [setHeader, store32, hn, hz, h0, h1, ok_bind]
  rfl

end records

/-! The loops. Names written so far stand behind the string IDs; `left` more IDs and
`spare` more bytes of names have room. -/

def stringsAt (o : ByteOrder) (count : UInt32) (names : List Name) (left spare : Nat) :
    StringsData where
  data := bytes32 o count ++ stringids o 0 0 names ++ zeros (12*left) ++ stringsBytes names ++
    zeros spare
  stringid := 4+12*names.length
  strings := 4+12*(names.length+left)+namesSize names
  byteoffset := UInt64.ofNat (namesSize names)
  datasize := UInt32.ofNat (4+12*(names.length+left)+namesSize names)

theorem zeros_add (m n : Nat) : zeros (m+n) = zeros m ++ zeros n :=
  List.replicate_add m n 0

@[simp] theorem zeros_length (n : Nat) : (zeros n).length = n := List.length_replicate

theorem Name.length_toNat (n : Name) : (UInt32.ofNat n.bytes.length).toNat = n.bytes.length := by
  have := n.fits
  rw [UInt32.toNat_ofNat']
  omega

theorem Name.size64 (n : Name) (k : Nat) :
    UInt64.ofNat k+(UInt32.ofNat n.bytes.length+1).toUInt64 = UInt64.ofNat (k+n.size) := by
  have hfit := n.fits
  have hlen := n.length_toNat
  have h1 : UInt32.toNat 1 = 1 := rfl
  apply UInt64.toNat_inj.mp
  rw [UInt64.toNat_add, UInt64.toNat_ofNat', UInt64.toNat_ofNat', UInt32.toNat_toUInt64,
    UInt32.toNat_add, hlen, h1, Name.size]
  omega

theorem Name.size32 (n : Name) (k : Nat) :
    UInt32.ofNat k+(UInt32.ofNat n.bytes.length+1) = UInt32.ofNat (k+n.size) := by
  have hfit := n.fits
  have hlen := n.length_toNat
  have h1 : UInt32.toNat 1 = 1 := rfl
  apply UInt32.toNat_inj.mp
  rw [UInt32.toNat_add, UInt32.toNat_ofNat', UInt32.toNat_ofNat', UInt32.toNat_add, hlen, h1,
    Name.size]
  omega

theorem addStringToData_blocks (host : ByteOrder) (swap : Bool) (id : UInt32) (name : Name)
    (pre mid : List UInt8) (spare strings : Nat) (byteoffset : UInt64) (datasize : UInt32)
    (hstrings : strings = pre.length+12+mid.length) :
    addStringToData host swap id name
        ⟨pre ++ zeros 12 ++ mid ++ zeros (name.size+spare), pre.length, strings, byteoffset,
          datasize⟩ =
      .ok ⟨pre ++ (stringidRecord (host.swapIf swap) id byteoffset).flatten ++ mid ++
          (name.bytes ++ [0]) ++ zeros spare, pre.length, strings,
        byteoffset+(UInt32.ofNat name.bytes.length+1).toUInt64,
        datasize+(UInt32.ofNat name.bytes.length+1)⟩ := by
  have hz : zeros 12 = zeros 4 ++ zeros 8 := zeros_add 4 8
  have hname : zeros (name.size+spare) = zeros name.bytes.length ++ (zeros 1 ++ zeros spare) := by
    rw [← zeros_add, ← zeros_add, Name.size, Nat.add_assoc]
  have h0 := store_middle pre (zeros 4) (zeros 8 ++ mid ++ zeros (name.size+spare))
    (bytes32 host id) (by simp)
  have h1 := store_middle (pre ++ bytes32 host id) (zeros 8) (mid ++ zeros (name.size+spare))
    (bytes64 host byteoffset) (by simp)
  have h2 := store_middle (pre ++ bytes32 host id ++ bytes64 host byteoffset ++ mid)
    (zeros name.bytes.length) (zeros 1 ++ zeros spare) name.bytes (by simp)
  have h3 := store_middle (pre ++ bytes32 host id ++ bytes64 host byteoffset ++ mid ++ name.bytes)
    (zeros 1) (zeros spare) [0] (by simp)
  have hswap := swapStringid_record host swap pre (mid ++ name.bytes ++ [0] ++ zeros spare) id
    byteoffset
  have hp2 : strings =
      (pre ++ bytes32 host id ++ bytes64 host byteoffset ++ mid).length := by
    simp only [List.length_append, bytes32_length, bytes64_length]
    omega
  have hp3 : strings+(UInt32.ofNat name.bytes.length).toNat =
      (pre ++ bytes32 host id ++ bytes64 host byteoffset ++ mid ++ name.bytes).length := by
    rw [name.length_toNat, List.length_append, ← hp2]
  rw [← hp2] at h2
  rw [← hp3] at h3
  simp only [stringidRecord, List.flatten_cons, List.flatten_nil, List.append_nil,
    List.length_append, bytes32_length, List.append_assoc] at h0 h1 h2 h3 hswap
  rw [← hname] at h2
  simp only [addStringToData, store32, store64, hz, List.append_assoc, h0, h1, h2, h3, ok_bind,
    stringidRecord, List.flatten_cons, List.flatten_nil, List.append_nil, hswap]

theorem addStringToData_eq (host : ByteOrder) (swap : Bool) (count : UInt32) (names : List Name)
    (name : Name) (left spare : Nat) :
    ∃ s, addStringToData host swap (UInt32.ofNat (names.length+1)) name
        (stringsAt (host.swapIf swap) count names (left+1) (name.size+spare)) = .ok s ∧
      s.advance name = stringsAt (host.swapIf swap) count (names ++ [name]) left spare := by
  have hblocks := addStringToData_blocks host swap (UInt32.ofNat (names.length+1)) name
    (bytes32 (host.swapIf swap) count ++ stringids (host.swapIf swap) 0 0 names)
    (zeros (12*left) ++ stringsBytes names) spare (4+12*(names.length+(left+1))+namesSize names)
    (UInt64.ofNat (namesSize names)) (UInt32.ofNat (4+12*(names.length+(left+1))+namesSize names))
    (by simp; omega)
  have hz : zeros (12*(left+1)) = zeros 12 ++ zeros (12*left) := by
    rw [← zeros_add]
    congr 1
    omega
  simp only [List.append_assoc, List.length_append, bytes32_length, stringids_length,
    name.size64, name.size32] at hblocks
  rw [stringsAt, hz]
  simp only [List.append_assoc]
  refine ⟨_, hblocks, ?_⟩
  simp only [StringsData.advance, stringsAt, stringids_append, stringsBytes_append, stringids,
    namesSize_append, namesSize_cons, namesSize_nil, List.length_append, List.length_cons,
    List.length_nil, Nat.zero_add, List.append_assoc, Nat.add_zero, List.append_nil,
    sizeofCAFStringID, StringsData.mk.injEq]
  refine ⟨?_, by omega, ?_, trivial, ?_⟩
  · simp [stringsBytes]
  · rw [Name.size]
    omega
  · congr 1
    omega

theorem ofNat_succ (n : Nat) : UInt32.ofNat n+1 = UInt32.ofNat (n+1) :=
  (UInt32.ofNat_add n 1).symm

theorem writeMarkers_eq (host : ByteOrder) (swap : Bool) (count : UInt32) (ms : List Marker)
    (names : List Name) (pre : List UInt8) (left spare : Nat) :
    writeMarkers host swap ms (UInt32.ofNat names.length)
        (pre ++ zeros (28*ms.length), pre.length, stringsAt (host.swapIf swap) count names
          (ms.length+left) (namesSize (ms.map Marker.name)+spare)) =
      .ok (pre ++ markerRecords (host.swapIf swap) names.length ms, pre.length+28*ms.length,
        stringsAt (host.swapIf swap) count (names ++ ms.map Marker.name) left spare) := by
  induction ms generalizing names pre with
  | nil => simp [writeMarkers, markerRecords, zeros]
  | cons m ms ih =>
    have hz : pre ++ zeros (28*(m :: ms).length) = pre ++ zeros 28 ++ zeros (28*ms.length) := by
      rw [List.append_assoc, ← zeros_add, List.length_cons]
      congr 2
      omega
    have hset := setMarker_eq host pre (zeros (28*ms.length)) markerTypeGeneric m.position
      (UInt32.ofNat (names.length+1))
    have hswap := swapMarker_record host swap pre (zeros (28*ms.length)) markerTypeGeneric
      m.position (UInt32.ofNat (names.length+1)) pre.length rfl
    obtain ⟨s, hadd, hs⟩ := addStringToData_eq host swap count names m.name (ms.length+left)
      (namesSize (ms.map Marker.name)+spare)
    have hrest := ih (names ++ [m.name]) (pre ++ (markerRecord (host.swapIf swap)
      markerTypeGeneric m.position (UInt32.ofNat (names.length+1))).flatten)
    have hleft : (m :: ms).length+left = ms.length+left+1 := by rw [List.length_cons]; omega
    have hspare : namesSize ((m :: ms).map Marker.name)+spare =
        m.name.size+(namesSize (ms.map Marker.name)+spare) := by
      rw [List.map_cons, namesSize_cons, Nat.add_assoc]
    simp only [List.length_append, List.length_singleton, markerRecord_length] at hrest
    rw [writeMarkers, ofNat_succ, hz, hset, ok_bind, hswap, ok_bind, hleft, hspare, hadd, ok_bind,
      hs, sizeofCAFMarker, hrest]
    simp only [markerRecords, List.map_cons, List.length_cons, List.append_assoc,
      List.singleton_append]
    congr 3
    omega

theorem writeRegions_eq (host : ByteOrder) (swap : Bool) (count : UInt32) (n : Nat)
    (rs : List Region) (k : Nat) (names : List Name) (hk : names.length = n+k) (pre : List UInt8)
    (left spare : Nat) :
    writeRegions host swap (UInt32.ofNat n) rs (UInt32.ofNat k)
        (pre ++ zeros (68*rs.length), pre.length, stringsAt (host.swapIf swap) count names
          (rs.length+left) (namesSize (rs.map Region.name)+spare)) =
      .ok (pre ++ regionRecords (host.swapIf swap) n k rs, pre.length+68*rs.length,
        stringsAt (host.swapIf swap) count (names ++ rs.map Region.name) left spare) := by
  induction rs generalizing k names pre with
  | nil => simp [writeRegions, regionRecords, zeros]
  | cons r rs ih =>
    have hz : pre ++ zeros (68*(r :: rs).length) = pre ++ zeros 68 ++ zeros (68*rs.length) := by
      rw [List.append_assoc, ← zeros_add, List.length_cons]
      congr 2
      omega
    have hregion := writeRegion_eq host swap pre (zeros (68*rs.length)) n k r
    obtain ⟨s, hadd, hs⟩ := addStringToData_eq host swap count names r.name (rs.length+left)
      (namesSize (rs.map Region.name)+spare)
    have hrest := ih (k+1) (names ++ [r.name]) (by simp [hk, Nat.add_assoc])
      (pre ++ regionBytes (host.swapIf swap) n k r)
    have hleft : (r :: rs).length+left = rs.length+left+1 := by rw [List.length_cons]; omega
    have hspare : namesSize ((r :: rs).map Region.name)+spare =
        r.name.size+(namesSize (rs.map Region.name)+spare) := by
      rw [List.map_cons, namesSize_cons, Nat.add_assoc]
    have hid : UInt32.ofNat n+UInt32.ofNat k+1 = UInt32.ofNat (n+k+1) := by
      rw [← UInt32.ofNat_add, ofNat_succ]
    have hptr : pre.length+sizeofCAFRegion+2*sizeofCAFMarker = pre.length+68 := rfl
    rw [hk] at hadd
    simp only [List.length_append, regionBytes_length] at hrest
    rw [writeRegions, hid, ofNat_succ, hz, hregion, ok_bind, hleft, hspare, hadd, ok_bind, hs, hptr,
      hrest]
    simp only [regionRecords, List.map_cons, List.length_cons, List.append_assoc,
      List.singleton_append]
    congr 3
    omega

end Ambix
