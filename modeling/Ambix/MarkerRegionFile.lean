import Ambix.MarkerRegionSafe

/-! Well-formed marker data. A chunk is given by its records; what a file stores is read off
them, and the reader finds exactly that, however the records are spread over chunks. -/
namespace Ambix
open Machine

/-! Records. -/

/-- A `CAFMarker`. -/
structure StoredMarker where
  mType : UInt32
  framePosition : UInt64
  markerID : UInt32
  smpteTime : List UInt8
  channel : UInt32
  smpteTime_length : smpteTime.length = 8

/-- A `CAFStringID`. -/
structure StoredString where
  stringID : UInt32
  byteoffset : UInt64

namespace StoredMarker

def record (o : ByteOrder) (m : StoredMarker) : List (List UInt8) :=
  [bytes32 o m.mType, bytes64 o m.framePosition, bytes32 o m.markerID, m.smpteTime,
    bytes32 o m.channel]

def bytes (o : ByteOrder) (m : StoredMarker) : List UInt8 := (m.record o).flatten

def starts (m : StoredMarker) : Bool := m.mType == markerTypeRegionStart
def ends (m : StoredMarker) : Bool := m.mType == markerTypeRegionEnd

@[simp] theorem bytes_length (o : ByteOrder) (m : StoredMarker) : (m.bytes o).length = 28 := by
  simp [bytes, record, m.smpteTime_length]

theorem all_length (o : ByteOrder) (ms : List StoredMarker) :
    (ms.flatMap (bytes o)).length = 28*ms.length := by
  induction ms with
  | nil => rfl
  | cons m ms ih =>
    rw [List.flatMap_cons, List.length_append, bytes_length, ih, List.length_cons]
    omega

theorem fields (o : ByteOrder) (m : StoredMarker) (rest : List UInt8) :
    ¬ (m.bytes o ++ rest).length < 28 ∧
      word32 o (field (m.bytes o ++ rest) 0 4) = m.mType ∧
      word64 o (field (m.bytes o ++ rest) 4 8) = m.framePosition ∧
      word32 o (field (m.bytes o ++ rest) 12 4) = m.markerID ∧
      (m.bytes o ++ rest).drop 28 = rest := by
  have h0 : field (m.bytes o ++ rest) 0 4 = bytes32 o m.mType :=
    field_record (m.record o) rest 0 0 4 (by simp [record]) (by simp [record]) rfl
  have h1 : field (m.bytes o ++ rest) 4 8 = bytes64 o m.framePosition :=
    field_record (m.record o) rest 1 4 8 (by simp [record]) (by simp [record])
      (by simp [record, offset])
  have h2 : field (m.bytes o ++ rest) 12 4 = bytes32 o m.markerID :=
    field_record (m.record o) rest 2 12 4 (by simp [record]) (by simp [record])
      (by simp [record, offset])
  refine ⟨?_, ?_, ?_, ?_, List.drop_left' (bytes_length o m)⟩
  · rw [List.length_append, bytes_length]
    omega
  · rw [h0, word32_bytes32]
  · rw [h1, word64_bytes64]
  · rw [h2, word32_bytes32]

end StoredMarker

/-- A `CAFRegion` with its markers, of which one starts and one ends it. -/
structure StoredRegion where
  regionID : UInt32
  flags : UInt32
  markers : List StoredMarker
  start : StoredMarker
  stop : StoredMarker
  one_start : markers.filter StoredMarker.starts = [start]
  one_stop : markers.filter StoredMarker.ends = [stop]
  countable : markers.length < 2^32

namespace StoredRegion

def record (o : ByteOrder) (r : StoredRegion) : List (List UInt8) :=
  [bytes32 o r.regionID, bytes32 o r.flags, bytes32 o (UInt32.ofNat r.markers.length)]

def bytes (o : ByteOrder) (r : StoredRegion) : List UInt8 :=
  (r.record o).flatten ++ r.markers.flatMap (StoredMarker.bytes o)

theorem record_length (o : ByteOrder) (r : StoredRegion) : (r.record o).flatten.length = 12 := by
  simp [record]

theorem markers_pos (r : StoredRegion) : 0 < r.markers.length := by
  have hmem : r.start ∈ r.markers := by
    refine List.mem_of_mem_filter (p := StoredMarker.starts) ?_
    rw [r.one_start]
    exact List.mem_cons_self
  exact List.length_pos_of_mem hmem

theorem bytes_length_le (o : ByteOrder) (r : StoredRegion) : 40 ≤ (r.bytes o).length := by
  have hpos := r.markers_pos
  rw [bytes, List.length_append, record_length, StoredMarker.all_length]
  omega

theorem all_length_le (o : ByteOrder) (rs : List StoredRegion) :
    40*rs.length ≤ (rs.flatMap (bytes o)).length := by
  induction rs with
  | nil => exact Nat.zero_le _
  | cons r rs ih =>
    have hr := r.bytes_length_le o
    rw [List.flatMap_cons, List.length_append, List.length_cons]
    omega

end StoredRegion

/-! Chunks. -/

/-- A `mark` chunk. -/
structure MarkData where
  smpteTimeType : UInt32
  markers : List StoredMarker
  nonempty : markers ≠ []
  countable : markers.length < 2^32

/-- A `regn` chunk. -/
structure RegnData where
  smpteTimeType : UInt32
  regions : List StoredRegion
  nonempty : regions ≠ []
  countable : regions.length < 2^32

def chunkHeader (o : ByteOrder) (smpteTimeType : UInt32) (count : Nat) : List (List UInt8) :=
  [bytes32 o smpteTimeType, bytes32 o (UInt32.ofNat count)]

def MarkData.bytes (o : ByteOrder) (d : MarkData) : List UInt8 :=
  (chunkHeader o d.smpteTimeType d.markers.length).flatten ++
    d.markers.flatMap (StoredMarker.bytes o)

def RegnData.bytes (o : ByteOrder) (d : RegnData) : List UInt8 :=
  (chunkHeader o d.smpteTimeType d.regions.length).flatten ++
    d.regions.flatMap (StoredRegion.bytes o)

/-- The bytes of a `strg` chunk: the count, the string IDs, and the text behind them. -/
def strgBytes (o : ByteOrder) (ids : List StoredString) (text : List UInt8) : List UInt8 :=
  bytes32 o (UInt32.ofNat ids.length) ++
    ids.flatMap (fun s => bytes32 o s.stringID ++ bytes64 o s.byteoffset) ++ text

/-- Where a string begins; its offset counts from the text on. -/
def stringPosition (ids : List StoredString) (s : StoredString) : Int :=
  (4+12*ids.length : Nat)+s.byteoffset.toInt64.toInt

/-- A `strg` chunk: every offset lies in the chunk, and its string is terminated there. -/
structure StrgData (o : ByteOrder) where
  ids : List StoredString
  text : List UInt8
  nonempty : ids ≠ []
  countable : ids.length < 2^32
  inside : ∀ s ∈ ids, 0 ≤ stringPosition ids s ∧
    0 ∈ (strgBytes o ids text).drop (stringPosition ids s).toNat

/-! What is stored. -/

section stored
variable {o : ByteOrder}

def StrgData.bytes (d : StrgData o) : List UInt8 := strgBytes o d.ids d.text

def StrgData.string (d : StrgData o) (s : StoredString) : List UInt8 :=
  (d.bytes.drop (stringPosition d.ids s).toNat).takeWhile (· != 0)

def StrgData.strings (d : StrgData o) : List (UInt32 × List UInt8) :=
  d.ids.map fun s => (s.stringID, d.string s)

def storedStrings (strg : List (StrgData o)) : List (UInt32 × List UInt8) :=
  strg.flatMap StrgData.strings

/-- The first string that carries an ID, cut to 255 bytes; empty if there is none. -/
def labelOf (table : List (UInt32 × List UInt8)) (id : UInt32) : Name :=
  Name.empty.copyFrom (StringsBuffer.lookup table id)

def StoredMarker.marker (table : List (UInt32 × List UInt8)) (m : StoredMarker) : Marker :=
  ⟨m.framePosition, labelOf table m.markerID⟩

def StoredRegion.region (table : List (UInt32 × List UInt8)) (r : StoredRegion) : Region :=
  ⟨r.start.framePosition, r.stop.framePosition, labelOf table r.start.markerID⟩

def storedMarkers (table : List (UInt32 × List UInt8)) (mark : List MarkData) : List Marker :=
  mark.flatMap fun d => d.markers.map (StoredMarker.marker table)

def storedRegions (table : List (UInt32 × List UInt8)) (regn : List RegnData) : List Region :=
  regn.flatMap fun d => d.regions.map (StoredRegion.region table)

end stored

/-! Reading markers and regions. -/

section records
variable (o : ByteOrder) {table : List (UInt32 × List UInt8)}

theorem decodeMarkers_stored (ms : List StoredMarker) :
    decodeMarkers o table ms.length (ms.flatMap (StoredMarker.bytes o)) =
      ms.map (StoredMarker.marker table) := by
  induction ms with
  | nil => rfl
  | cons m ms ih =>
    obtain ⟨-, -, hposition, hid, hrest⟩ := m.fields o (ms.flatMap (StoredMarker.bytes o))
    rw [List.length_cons, List.flatMap_cons, decodeMarkers, hposition, hid, hrest, ih]
    rfl

def StoredMarker.applyTo (table : List (UInt32 × List UInt8)) (region : Region)
    (m : StoredMarker) : Region :=
  if m.mType = markerTypeRegionStart then
    { region with
      startPosition := m.framePosition
      name := region.name.copyFrom (StringsBuffer.lookup table m.markerID) }
  else if m.mType = markerTypeRegionEnd then { region with endPosition := m.framePosition }
  else region

theorem decodeRegionMarkers_stored (ms : List StoredMarker) (rest : List UInt8) (region : Region) :
    decodeRegionMarkers o table ms.length (ms.flatMap (StoredMarker.bytes o) ++ rest) region =
      (ms.foldl (StoredMarker.applyTo table) region, rest) := by
  induction ms generalizing region with
  | nil => rfl
  | cons m ms ih =>
    obtain ⟨hlong, htype, hposition, hid, hrest⟩ :=
      m.fields o (ms.flatMap (StoredMarker.bytes o) ++ rest)
    rw [List.length_cons, List.flatMap_cons, List.append_assoc, decodeRegionMarkers, if_neg hlong,
      hrest, applyMarker, htype, hposition, hid, ih]
    rfl

theorem foldl_no_start (table : List (UInt32 × List UInt8)) {ms : List StoredMarker}
    (h : ∀ m ∈ ms, ¬ m.starts = true) (region : Region) :
    (ms.foldl (StoredMarker.applyTo table) region).startPosition = region.startPosition ∧
      (ms.foldl (StoredMarker.applyTo table) region).name = region.name := by
  induction ms generalizing region with
  | nil => exact ⟨rfl, rfl⟩
  | cons m ms ih =>
    obtain ⟨hm, hms⟩ := List.forall_mem_cons.mp h
    have hno : ¬ m.mType = markerTypeRegionStart := fun he => hm (beq_iff_eq.mpr he)
    obtain ⟨hstart, hname⟩ := ih hms (m.applyTo table region)
    have hkeep : (m.applyTo table region).startPosition = region.startPosition ∧
        (m.applyTo table region).name = region.name := by
      rw [StoredMarker.applyTo, if_neg hno]
      split <;> exact ⟨rfl, rfl⟩
    exact ⟨hstart.trans hkeep.1, hname.trans hkeep.2⟩

theorem foldl_no_stop (table : List (UInt32 × List UInt8)) {ms : List StoredMarker}
    (h : ∀ m ∈ ms, ¬ m.ends = true) (region : Region) :
    (ms.foldl (StoredMarker.applyTo table) region).endPosition = region.endPosition := by
  induction ms generalizing region with
  | nil => rfl
  | cons m ms ih =>
    obtain ⟨hm, hms⟩ := List.forall_mem_cons.mp h
    have hno : ¬ m.mType = markerTypeRegionEnd := fun he => hm (beq_iff_eq.mpr he)
    refine (ih hms (m.applyTo table region)).trans ?_
    rw [StoredMarker.applyTo]
    split
    · rfl
    · rfl

theorem StoredRegion.foldl_start (r : StoredRegion) :
    (r.markers.foldl (StoredMarker.applyTo table) ⟨0, 0, Name.empty⟩).startPosition =
      r.start.framePosition ∧
    (r.markers.foldl (StoredMarker.applyTo table) ⟨0, 0, Name.empty⟩).name =
      labelOf table r.start.markerID := by
  obtain ⟨before, after, hsplit, hbefore, hstart, hafter⟩ := List.filter_eq_cons_iff.mp r.one_start
  have htype : r.start.mType = markerTypeRegionStart := beq_iff_eq.mp hstart
  have hfirst := foldl_no_start table hbefore ⟨0, 0, Name.empty⟩
  have hlast := foldl_no_start table (List.filter_eq_nil_iff.mp hafter)
    (r.start.applyTo table (before.foldl (StoredMarker.applyTo table) ⟨0, 0, Name.empty⟩))
  rw [hsplit, List.foldl_append, List.foldl_cons, hlast.1, hlast.2, StoredMarker.applyTo,
    if_pos htype]
  refine ⟨rfl, ?_⟩
  dsimp only
  rw [hfirst.2]
  rfl

theorem StoredRegion.foldl_stop (r : StoredRegion) :
    (r.markers.foldl (StoredMarker.applyTo table) ⟨0, 0, Name.empty⟩).endPosition =
      r.stop.framePosition := by
  obtain ⟨before, after, hsplit, hbefore, hstop, hafter⟩ := List.filter_eq_cons_iff.mp r.one_stop
  have htype : r.stop.mType = markerTypeRegionEnd := beq_iff_eq.mp hstop
  have hne : ¬ r.stop.mType = markerTypeRegionStart := by
    rw [htype]
    decide
  have hlast := foldl_no_stop table (List.filter_eq_nil_iff.mp hafter)
    (r.stop.applyTo table (before.foldl (StoredMarker.applyTo table) ⟨0, 0, Name.empty⟩))
  rw [hsplit, List.foldl_append, List.foldl_cons, hlast, StoredMarker.applyTo, if_neg hne,
    if_pos htype]

theorem decodeRegions_stored (rs : List StoredRegion) :
    decodeRegions o table rs.length (rs.flatMap (StoredRegion.bytes o)) =
      rs.map (StoredRegion.region table) := by
  induction rs with
  | nil => rfl
  | cons r rs ih =>
    have hcount := field_record (r.record o) (r.markers.flatMap (StoredMarker.bytes o) ++
      rs.flatMap (StoredRegion.bytes o)) 2 8 4 (by simp [StoredRegion.record])
      (by simp [StoredRegion.record]) (by simp [StoredRegion.record, offset])
    have hlength : (UInt32.ofNat r.markers.length).toNat = r.markers.length := by
      rw [UInt32.toNat_ofNat', Nat.mod_eq_of_lt r.countable]
    have hregion : r.markers.foldl (StoredMarker.applyTo table) ⟨0, 0, Name.empty⟩ =
        r.region table := by
      calc
        _ = (⟨(r.markers.foldl (StoredMarker.applyTo table) ⟨0, 0, Name.empty⟩).startPosition,
            (r.markers.foldl (StoredMarker.applyTo table) ⟨0, 0, Name.empty⟩).endPosition,
            (r.markers.foldl (StoredMarker.applyTo table) ⟨0, 0, Name.empty⟩).name⟩ : Region) := rfl
        _ = r.region table := by rw [r.foldl_start.1, r.foldl_start.2, r.foldl_stop]; rfl
    rw [List.length_cons, List.flatMap_cons, StoredRegion.bytes, List.append_assoc, decodeRegions,
      if_neg (by rw [List.length_append, r.record_length]; omega), hcount,
      List.drop_left' (r.record_length o)]
    change (decodeRegionMarkers o table (word32 o (bytes32 o (UInt32.ofNat r.markers.length))).toNat
      _ _).1 :: decodeRegions o table rs.length (decodeRegionMarkers o table
        (word32 o (bytes32 o (UInt32.ofNat r.markers.length))).toNat _ _).2 = _
    rw [word32_bytes32, hlength, decodeRegionMarkers_stored]
    dsimp only
    rw [hregion, ih, List.map_cons]

/-! Both kinds of chunk. -/

theorem chunkHeader_length (time : UInt32) (count : Nat) :
    (chunkHeader o time count).flatten.length = 8 := by
  simp [chunkHeader]

theorem chunkHeader_count (time : UInt32) {count : Nat} (hcount : count < 2^32)
    (rest : List UInt8) :
    headerCount o ((chunkHeader o time count).flatten ++ rest) = count := by
  have hfield := field_record (chunkHeader o time count) rest 1 4 4 (by simp [chunkHeader])
    (by simp [chunkHeader]) (by simp [chunkHeader, offset])
  rw [headerCount, hfield]
  change (word32 o (bytes32 o (UInt32.ofNat count))).toNat = count
  rw [word32_bytes32, UInt32.toNat_ofNat', Nat.mod_eq_of_lt hcount]

theorem MarkData.length (d : MarkData) : (d.bytes o).length = 8+28*d.markers.length := by
  rw [MarkData.bytes, List.length_append, chunkHeader_length, StoredMarker.all_length]

theorem MarkData.good (d : MarkData) : d.bytes o ≠ [] ∧ markGood o (d.bytes o) = true := by
  refine ⟨List.length_pos_iff.mp (by rw [d.length o]; omega), decide_eq_true (Or.inr ?_)⟩
  rw [d.length o, MarkData.bytes, chunkHeader_count o _ d.countable]

theorem MarkData.decode (d : MarkData) :
    chunkMarkers o table (d.bytes o) = d.markers.map (StoredMarker.marker table) := by
  have hpos := List.length_pos_iff.mpr d.nonempty
  rw [chunkMarkers, if_pos (by rw [d.length o]; omega), MarkData.bytes,
    chunkHeader_count o _ d.countable, List.drop_left' (chunkHeader_length o _ _),
    decodeMarkers_stored]

theorem RegnData.length_le (d : RegnData) : 8+40*d.regions.length ≤ (d.bytes o).length := by
  have hall := StoredRegion.all_length_le o d.regions
  rw [RegnData.bytes, List.length_append, chunkHeader_length]
  omega

theorem RegnData.good (d : RegnData) : d.bytes o ≠ [] ∧ regnGood o (d.bytes o) = true := by
  have hle := d.length_le o
  refine ⟨List.length_pos_iff.mp (by omega), decide_eq_true (Or.inr ?_)⟩
  rwa [RegnData.bytes, chunkHeader_count o _ d.countable, ← RegnData.bytes]

theorem RegnData.decode (d : RegnData) :
    chunkRegions o table (d.bytes o) = d.regions.map (StoredRegion.region table) := by
  have hle := d.length_le o
  have hpos := List.length_pos_iff.mpr d.nonempty
  rw [chunkRegions, if_pos (by omega), RegnData.bytes, chunkHeader_count o _ d.countable,
    List.drop_left' (chunkHeader_length o _ _), decodeRegions_stored]

theorem scanned_all {good : List UInt8 → Bool} {chunks : List (List UInt8)}
    (h : ∀ b ∈ chunks, b ≠ [] ∧ good b = true) : scanned good chunks = chunks := by
  induction chunks with
  | nil => rfl
  | cons b bs ih =>
    obtain ⟨hb, hbs⟩ := List.forall_mem_cons.mp h
    rw [scanned_cons, if_pos hb, ih hbs]

theorem scanned_mark (mark : List MarkData) :
    scanned (markGood o) (mark.map (MarkData.bytes o)) = mark.map (MarkData.bytes o) :=
  scanned_all (List.forall_mem_map.mpr fun d _ => d.good o)

theorem scanned_regn (regn : List RegnData) :
    scanned (regnGood o) (regn.map (RegnData.bytes o)) = regn.map (RegnData.bytes o) :=
  scanned_all (List.forall_mem_map.mpr fun d _ => d.good o)

theorem fileMarkers_stored (mark : List MarkData) :
    fileMarkers (mark.map (MarkData.bytes o)) o table = storedMarkers table mark := by
  rw [fileMarkers, scanned_mark, List.flatMap_map]
  exact List.flatMap_congr fun d _ => d.decode o

theorem fileRegions_stored (regn : List RegnData) :
    fileRegions (regn.map (RegnData.bytes o)) o table = storedRegions table regn := by
  rw [fileRegions, scanned_regn, List.flatMap_map]
  exact List.flatMap_congr fun d _ => d.decode o

end records

end Ambix
