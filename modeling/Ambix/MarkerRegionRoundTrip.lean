import Ambix.MarkerRegionChunks
import Ambix.MarkerRegionSafe

/-! The writer's chunks, read back on a host of either byte order. The reader finds the
`k`-th name under the ID `k+1`, and every marker and region carries the ID of its name. -/
namespace Ambix
open Machine

/-! Names in the string table. -/

theorem Name.eq_of_bytes {m n : Name} (h : m.bytes = n.bytes) : m = n := by
  cases m
  cases n
  simpa using h

@[simp] theorem Name.strncpy_bytes (n : Name) : Name.strncpy n.bytes = n := by
  apply Name.eq_of_bytes
  have hall : n.bytes.takeWhile (· != 0) = n.bytes := by
    rw [List.takeWhile_eq_self_iff]
    intro c hc
    simpa using fun h : c = 0 => n.nonul (h ▸ hc)
  simp only [Name.strncpy, hall, List.take_of_length_le n.fits]

def entries : Nat → List Name → List (UInt32 × List UInt8)
  | _, [] => []
  | k, n :: ns => (UInt32.ofNat (k+1), n.bytes) :: entries (k+1) ns

theorem ofNat_ne {i j : Nat} (hi : i < 2^32) (hj : j < 2^32) (h : i ≠ j) :
    UInt32.ofNat i ≠ UInt32.ofNat j := by
  intro heq
  have hval := congrArg UInt32.toNat heq
  rw [UInt32.toNat_ofNat', UInt32.toNat_ofNat'] at hval
  omega

theorem lookup_entries (k j : Nat) (names : List Name) (n : Name) (hj : names[j]? = some n)
    (h : k+names.length < 2^32) :
    StringsBuffer.lookup (entries k names) (UInt32.ofNat (k+j+1)) = some n.bytes := by
  induction names generalizing k j with
  | nil => simp at hj
  | cons m ms ih =>
    rw [List.length_cons] at h
    rw [entries, StringsBuffer.lookup, List.find?_cons]
    cases j with
    | zero =>
      obtain rfl : m = n := by simpa using hj
      simp
    | succ j =>
      have hjlt : j < ms.length := by
        obtain ⟨hlt, -⟩ := List.getElem?_eq_some_iff.mp hj
        simpa using hlt
      have hrest := ih (k+1) j (by simpa using hj) (by omega)
      have hne := ofNat_ne (i := k+1) (j := k+(j+1)+1) (by omega) (by omega) (by omega)
      rw [show k+1+j+1 = k+(j+1)+1 by omega] at hrest
      rw [beq_eq_false_iff_ne.mpr hne]
      exact hrest

/-- The table `es` has `names` under the IDs from `k+1` on. -/
def Named (es : List (UInt32 × List UInt8)) (k : Nat) (names : List Name) : Prop :=
  ∀ j n, names[j]? = some n → StringsBuffer.lookup es (UInt32.ofNat (k+j+1)) = some n.bytes

theorem named_entries {names : List Name} (h : names.length < 2^32) :
    Named (entries 0 names) 0 names :=
  fun j n hj => lookup_entries 0 j names n hj (by omega)

section named
variable {es : List (UInt32 × List UInt8)} {k : Nat}

theorem Named.head {n : Name} {ns : List Name} (h : Named es k (n :: ns)) :
    StringsBuffer.lookup es (UInt32.ofNat (k+1)) = some n.bytes := h 0 n rfl

theorem Named.tail {n : Name} {ns : List Name} (h : Named es k (n :: ns)) : Named es (k+1) ns := by
  intro j m hj
  have hnext := h (j+1) m hj
  rwa [show k+(j+1)+1 = k+1+j+1 by omega] at hnext

theorem Named.left {ms ns : List Name} (h : Named es k (ms ++ ns)) : Named es k ms := by
  intro j m hj
  obtain ⟨hlt, -⟩ := List.getElem?_eq_some_iff.mp hj
  exact h j m (by rwa [List.getElem?_append_left hlt])

theorem Named.right {ms ns : List Name} (h : Named es k (ms ++ ns)) :
    Named es (k+ms.length) ns := by
  intro j m hj
  have hnext := h (ms.length+j) m (by simpa [List.getElem?_append_right] using hj)
  rwa [← Nat.add_assoc] at hnext

end named

/-! The `strg` chunk. -/

theorem toInt_ofNat64 {n : Nat} (h : n < 2^63) : (UInt64.ofNat n).toInt64.toInt = n := by
  change (BitVec.ofNat 64 n).toInt = n
  rw [BitVec.toInt_ofNat']
  exact Int.bmod_eq_of_le (by omega) (by omega)

section strg
variable (o : ByteOrder)

theorem strgChunk_length (names : List Name) :
    (strgChunk o names).length = 4+12*names.length+namesSize names := by
  simp [strgChunk, Nat.add_assoc]

theorem strgCount_strgChunk (names : List Name) :
    strgCount o (strgChunk o names) = UInt32.ofNat names.length := by
  have hsplit : strgChunk o names = [] ++ bytes32 o (UInt32.ofNat names.length) ++
      (stringids o 0 0 names ++ stringsBytes names) := List.append_assoc _ _ _
  rw [strgCount, field_middle hsplit List.length_nil.symm (by simp), word32_bytes32]

theorem strgStart_strgChunk {names : List Name} (h : names.length < 2^32) :
    strgStart o (strgChunk o names) = 4+12*names.length := by
  rw [strgStart, strgCount_strgChunk, UInt32.toNat_ofNat', Nat.mod_eq_of_lt h]

section entry
variable (ms ns : List Name) (n : Name)

theorem strgChunk_split :
    strgChunk o (ms ++ n :: ns) =
      (bytes32 o (UInt32.ofNat (ms ++ n :: ns).length) ++ stringids o 0 0 ms) ++
        (bytes32 o (UInt32.ofNat (ms.length+1)) ++ bytes64 o (UInt64.ofNat (namesSize ms))) ++
        (stringids o (ms.length+1) (namesSize ms+n.size) ns ++ stringsBytes (ms ++ n :: ns)) := by
  rw [strgChunk, stringids_append, stringids]
  simp [stringidRecord, List.append_assoc]

theorem stringidAt_strgChunk :
    stringidAt o (strgChunk o (ms ++ n :: ns)) ms.length = UInt32.ofNat (ms.length+1) := by
  have hsplit := strgChunk_split o ms ns n
  rw [← List.append_assoc _ (bytes32 o _), List.append_assoc _ (bytes64 o _)] at hsplit
  rw [stringidAt, field_middle hsplit (by simp) (by simp), word32_bytes32]

theorem byteoffsetAt_strgChunk (h : namesSize ms < 2^63) :
    byteoffsetAt o (strgChunk o (ms ++ n :: ns)) ms.length = namesSize ms := by
  have hsplit := strgChunk_split o ms ns n
  rw [← List.append_assoc _ (bytes32 o _)] at hsplit
  rw [byteoffsetAt, field_middle hsplit (by simp [Nat.add_assoc]) (by simp), word64_bytes64,
    toInt_ofNat64 h]

theorem labelAt_strgChunk (swap : Bool) (hn : (ms ++ n :: ns).length < 2^32)
    (h : namesSize ms < 2^63) :
    labelAt o swap (strgChunk o (ms ++ n :: ns)) ms.length = some n.bytes := by
  have hlen := strgChunk_length o (ms ++ n :: ns)
  have hids : (ms ++ n :: ns).length = ms.length+(ns.length+1) := by simp
  have hstart := strgStart_strgChunk o hn
  -- the names begin behind all string IDs, so none of them has been swapped
  have hdrop : (strgSeen swap (strgChunk o (ms ++ n :: ns)) (ms.length+1)).drop
      (4+12*(ms ++ n :: ns).length+namesSize ms) = n.bytes ++ 0 :: stringsBytes ns := by
    rw [strgSeen_drop swap _ _ _ (by omega) (by omega), strgChunk, stringsBytes_append,
      ← List.append_assoc, List.drop_left' (by simp [Nat.add_assoc])]
    simp [stringsBytes]
  have hpos : ((4+12*(ms ++ n :: ns).length : Nat) : Int)+(namesSize ms : Int) =
      ((4+12*(ms ++ n :: ns).length+namesSize ms : Nat) : Int) := by omega
  have hfit := n.fits
  have hlabel : UInt32.ofNat n.bytes.length+1 ≠ 0 := by
    rw [Ne, ofNat_add_one_eq_zero]
    omega
  rw [labelAt, byteoffsetAt_strgChunk o ms ns n h, hstart, hpos, if_neg (by omega),
    Int.toNat_natCast, hdrop, strlen_append_nul _ _ n.nonul, Option.bind_some,
    if_neg hlabel, field, hdrop, UInt32.toNat_ofNat', Nat.mod_eq_of_lt (by omega),
    List.take_left']
  rfl

end entry

theorem decodeStrings_strgChunk (swap : Bool) (ms ns : List Name)
    (hn : (ms ++ ns).length < 2^32) (h : namesSize (ms ++ ns) < 2^63) :
    decodeStrings o swap (strgChunk o (ms ++ ns)) ns.length ms.length =
      some (entries ms.length ns) := by
  induction ns generalizing ms with
  | nil => rfl
  | cons n ns ih =>
    rw [namesSize_append, namesSize_cons, Name.size] at h
    have hnext := ih (ms ++ [n]) (by simpa using hn) (by
      simp only [namesSize_append, namesSize_cons, namesSize_nil, Name.size]
      omega)
    have hlen := strgChunk_length o (ms ++ n :: ns)
    rw [namesSize_append, namesSize_cons, Name.size] at hlen
    rw [List.append_assoc, List.singleton_append, List.length_append,
      List.length_singleton] at hnext
    rw [List.length_cons, decodeStrings, byteoffsetAt_strgChunk o ms ns n (by omega),
      strgStart_strgChunk o hn, if_neg (by omega), labelAt_strgChunk o ms ns n swap hn (by omega),
      Option.bind_some, hnext, stringidAt_strgChunk]
    rfl

end strg

/-! Markers and regions whose names are in the table. -/

section records
variable (o : ByteOrder) {es : List (UInt32 × List UInt8)}

theorem marker_fields (mType : UInt32) (position : UInt64) (id : UInt32) (rest : List UInt8) :
    ¬ ((markerRecord o mType position id).flatten ++ rest).length < 28 ∧
      field ((markerRecord o mType position id).flatten ++ rest) 0 4 = bytes32 o mType ∧
      field ((markerRecord o mType position id).flatten ++ rest) 4 8 = bytes64 o position ∧
      field ((markerRecord o mType position id).flatten ++ rest) 12 4 = bytes32 o id ∧
      ((markerRecord o mType position id).flatten ++ rest).drop 28 = rest := by
  refine ⟨?_, field_record _ rest 0 _ _ ?_ ?_ ?_, field_record _ rest 1 _ _ ?_ ?_ ?_,
    field_record _ rest 2 _ _ ?_ ?_ ?_, List.drop_left' (markerRecord_length o _ _ _)⟩
  · rw [List.length_append, markerRecord_length]
    omega
  all_goals simp [markerRecord, offset]

theorem decodeMarkers_records (k : Nat) (ms : List Marker) (h : Named es k (ms.map Marker.name)) :
    decodeMarkers o es ms.length (markerRecords o k ms) = ms := by
  induction ms generalizing k with
  | nil => rfl
  | cons m ms ih =>
    obtain ⟨-, -, hposition, hid, hrest⟩ := marker_fields o markerTypeGeneric m.position
      (UInt32.ofNat (k+1)) (markerRecords o (k+1) ms)
    rw [List.length_cons, markerRecords, decodeMarkers, hposition, hid, hrest, word64_bytes64,
      word32_bytes32, h.head, Name.copyFrom, Name.strncpy_bytes, ih (k+1) h.tail]

theorem region_fields (id : UInt32) (rest : List UInt8) :
    ¬ ((regionRecord o id).flatten ++ rest).length < 12 ∧
      field ((regionRecord o id).flatten ++ rest) 8 4 = bytes32 o 2 ∧
      ((regionRecord o id).flatten ++ rest).drop 12 = rest := by
  refine ⟨?_, field_record _ rest 2 _ _ ?_ ?_ ?_, List.drop_left' ?_⟩
  · simp only [regionRecord, List.flatten_cons, List.length_append, bytes32_length]
    omega
  all_goals simp [regionRecord, offset]

theorem decodeRegionMarkers_bytes (id : UInt32) (r : Region) (rest : List UInt8)
    (h : StringsBuffer.lookup es id = some r.name.bytes) :
    decodeRegionMarkers o es 2 ((markerRecord o markerTypeRegionStart r.startPosition id).flatten ++
        ((markerRecord o markerTypeRegionEnd r.endPosition id).flatten ++ rest))
      ⟨0, 0, Name.empty⟩ = (r, rest) := by
  obtain ⟨hs, hs0, hs4, hs12, hs28⟩ := marker_fields o markerTypeRegionStart r.startPosition id
    ((markerRecord o markerTypeRegionEnd r.endPosition id).flatten ++ rest)
  obtain ⟨he, he0, he4, -, he28⟩ := marker_fields o markerTypeRegionEnd r.endPosition id rest
  have hne : markerTypeRegionEnd ≠ markerTypeRegionStart := by decide
  rw [decodeRegionMarkers, if_neg hs, decodeRegionMarkers, hs28, if_neg he,
    decodeRegionMarkers, he28]
  simp only [applyMarker, hs0, hs4, hs12, he0, he4, word32_bytes32, word64_bytes64, if_true,
    if_neg hne, h, Name.copyFrom, Name.strncpy_bytes]

theorem decodeRegions_records (n k : Nat) (rs : List Region)
    (h : Named es (n+k) (rs.map Region.name)) :
    decodeRegions o es rs.length (regionRecords o n k rs) = rs := by
  induction rs generalizing k with
  | nil => rfl
  | cons r rs ih =>
    have hnext := ih (k+1) h.tail
    obtain ⟨hlong, hcount, hrest⟩ := region_fields o (UInt32.ofNat (k+1))
      ((markerRecord o markerTypeRegionStart r.startPosition (UInt32.ofNat (n+k+1))).flatten ++
        ((markerRecord o markerTypeRegionEnd r.endPosition (UInt32.ofNat (n+k+1))).flatten ++
          regionRecords o n (k+1) rs))
    have hmarkers := decodeRegionMarkers_bytes o (UInt32.ofNat (n+k+1)) r
      (regionRecords o n (k+1) rs) h.head
    rw [List.length_cons, regionRecords, regionBytes, List.append_assoc, List.append_assoc,
      decodeRegions, if_neg hlong, hcount, hrest, word32_bytes32]
    change (decodeRegionMarkers o es 2 _ _).1 :: decodeRegions o es rs.length
      (decodeRegionMarkers o es 2 _ _).2 = _
    rw [hmarkers, hnext]

end records

/-! The chunks of a file. -/

section file
variable (o : ByteOrder)

theorem header_count (count : UInt32) (rest : List UInt8) :
    headerCount o ((headerRecord o count).flatten ++ rest) = count.toNat := by
  have hfield := field_record (headerRecord o count) rest 1 4 4 (by simp [headerRecord])
    (by simp [headerRecord]) (by simp [headerRecord, offset])
  rw [headerCount, hfield]
  simp [headerRecord]

theorem scanned_single {good : List UInt8 → Bool} {b : List UInt8} (hne : b ≠ [])
    (hgood : good b = true) : scanned good [b] = [b] := by
  simp [scanned, hne, hgood]

theorem headed_chunk (count : Nat) (records : List UInt8) (hcount : count < 2^32) :
    headerCount o ((headerRecord o (UInt32.ofNat count)).flatten ++ records) = count ∧
    ((headerRecord o (UInt32.ofNat count)).flatten ++ records).length = 8+records.length ∧
    ((headerRecord o (UInt32.ofNat count)).flatten ++ records).drop 8 = records := by
  refine ⟨?_, ?_, List.drop_left' (headerRecord_length o _)⟩
  · rw [header_count, UInt32.toNat_ofNat', Nat.mod_eq_of_lt hcount]
  · rw [List.length_append, headerRecord_length]

theorem fileMarkers_markChunk {es : List (UInt32 × List UInt8)} (ms : List Marker)
    (hlen : ms.length < 2^32) (h : Named es 0 (ms.map Marker.name)) :
    fileMarkers [markChunk o ms] o es = ms := by
  by_cases hnil : ms = []
  · subst hnil
    rfl
  · have hchunk : markChunk o ms = (headerRecord o (UInt32.ofNat ms.length)).flatten ++
        markerRecords o 0 ms := if_neg hnil
    obtain ⟨hcount, hsize, hrest⟩ := headed_chunk o ms.length (markerRecords o 0 ms) hlen
    have hpos : 0 < ms.length := List.length_pos_iff.mpr hnil
    rw [← hchunk] at hcount hsize hrest
    rw [markerRecords_length] at hsize
    have hgood : markGood o (markChunk o ms) = true := by
      rw [markGood, decide_eq_true_iff, hcount, hsize]
      exact Or.inr le_rfl
    rw [fileMarkers, scanned_single (List.length_pos_iff.mp (by omega)) hgood,
      List.flatMap_singleton, chunkMarkers, if_pos (by omega), hcount, hrest,
      decodeMarkers_records o 0 ms h]

theorem fileRegions_regnChunk {es : List (UInt32 × List UInt8)} (n : Nat) (rs : List Region)
    (hlen : rs.length < 2^32) (h : Named es n (rs.map Region.name)) :
    fileRegions [regnChunk o n rs] o es = rs := by
  by_cases hnil : rs = []
  · subst hnil
    rfl
  · have hchunk : regnChunk o n rs = (headerRecord o (UInt32.ofNat rs.length)).flatten ++
        regionRecords o n 0 rs := if_neg hnil
    obtain ⟨hcount, hsize, hrest⟩ := headed_chunk o rs.length (regionRecords o n 0 rs) hlen
    have hpos : 0 < rs.length := List.length_pos_iff.mpr hnil
    rw [← hchunk] at hcount hsize hrest
    rw [regionRecords_length] at hsize
    -- the reader asks for one marker a region only
    have hgood : regnGood o (regnChunk o n rs) = true := by
      rw [regnGood, decide_eq_true_iff, hcount, hsize]
      omega
    rw [fileRegions, scanned_single (List.length_pos_iff.mp (by omega)) hgood,
      List.flatMap_singleton, chunkRegions, if_pos (by omega), hcount, hrest,
      decodeRegions_records o n 0 rs h]

theorem decode_strgChunk (swap : Bool) (names : List Name) (hlen : names.length < 2^32)
    (h : namesSize names < 2^63) :
    decodeStrings o swap (strgChunk o names) names.length 0 = some (entries 0 names) :=
  decodeStrings_strgChunk o swap [] names hlen h

theorem strgGood_strgChunk {names : List Name} (hlen : names.length < 2^32) :
    strgGood o (strgChunk o names) = true := by
  rw [strgGood, decide_eq_true_iff, strgStart_strgChunk o hlen, strgChunk_length]
  omega

theorem scanned_strgChunk {names : List Name} (hlen : names.length < 2^32) :
    scanned (strgGood o) [strgChunk o names] = [strgChunk o names] :=
  scanned_single (List.length_pos_iff.mp (by rw [strgChunk_length]; omega))
    (strgGood_strgChunk o hlen)

theorem tableEntries_strgChunk (swap : Bool) (names : List Name) (hlen : names.length < 2^32)
    (h : namesSize names < 2^63) :
    tableEntries o swap [strgChunk o names] = some (entries 0 names) := by
  have hdecode := decode_strgChunk o swap names hlen h
  have hcount : (strgCount o (strgChunk o names)).toNat = names.length := by
    rw [strgCount_strgChunk, UInt32.toNat_ofNat', Nat.mod_eq_of_lt hlen]
  have hsize := strgChunk_length o names
  rw [tableEntries, hcount, hdecode]
  split
  · simp [tableEntries]
  · have hnil : names = [] := List.length_eq_zero_iff.mp (by omega)
    subst hnil
    rfl

theorem stringsSafe_strgChunk (swap : Bool) (names : List Name) (hlen : names.length < 2^32)
    (h : namesSize names < 2^63) : StringsSafe o swap 0 [strgChunk o names] := by
  have hcount : (strgCount o (strgChunk o names)).toNat = names.length := by
    rw [strgCount_strgChunk, UInt32.toNat_ofNat', Nat.mod_eq_of_lt hlen]
  refine ⟨fun _ => by omega, fun i hi => ?_, trivial⟩
  rw [strgUsed, hcount] at hi
  split at hi
  · exact (decodeStrings_isSome names.length 0).mp ⟨_, decode_strgChunk o swap names hlen h⟩ i
      (Nat.zero_le i) (by omega)
  · omega

end file

/-- The chunks of one ID as a file gives them back; an empty one is reported with
length 0. -/
def stored (id : ChunkId) (writes : List ChunkWrite) : List (List UInt8) :=
  (writes.filter fun w => w.id = id).map fun w => w.data.take w.datasize.toNat

theorem readMarkersregions_chunks (reader file : ByteOrder) (markers : List Marker)
    (regions : List Region) (hlen : (allNames markers regions).length < 2^32)
    (h : namesSize (allNames markers regions) < 2^63) (fuel : Nat) (hfuel : 1 < fuel) :
    readMarkersregions reader (decide (reader ≠ file)) [strgChunk file (allNames markers regions)]
      [markChunk file markers] [regnChunk file markers.length regions] fuel =
      .ok (markers, regions) := by
  have hfile : reader.swapIf (decide (reader ≠ file)) = file := ByteOrder.swapIf_ne reader file
  have hstrg := scanned_strgChunk file hlen
  have hsafe : ReaderSafe (decide (reader ≠ file)) [strgChunk file (allNames markers regions)]
      [markChunk file markers] [regnChunk file markers.length regions]
      (reader.swapIf (decide (reader ≠ file))) := by
    rw [hfile]
    refine ⟨?_, ?_, ?_, ?_⟩
    · exact lt_of_le_of_lt (scanned_le _ _) (by simp)
    · rw [hstrg]
      exact stringsSafe_strgChunk file _ _ hlen h
    · exact lt_of_le_of_lt (scanned_le _ _) (by simp)
    · exact lt_of_le_of_lt (scanned_le _ _) (by simp)
  obtain ⟨es, hes, hread⟩ := readMarkersregions_of_safe reader _ hsafe fuel (by simpa using hfuel)
    (by simpa using hfuel) (by simpa using hfuel)
  rw [hfile, hstrg, tableEntries_strgChunk file _ _ hlen h, Option.some.injEq] at hes
  have hnamed : Named es 0 (allNames markers regions) := hes ▸ named_entries hlen
  have hright := hnamed.right
  simp only [allNames, List.length_append, List.length_map] at hlen
  rw [List.length_map, Nat.zero_add] at hright
  rw [hread, hfile, fileMarkers_markChunk file markers (by omega) hnamed.left,
    fileRegions_regnChunk file markers.length regions (by omega) hright]

/-- Whatever the writer finishes is read back as what it was given. -/
theorem readMarkersregions_written {writer reader file : ByteOrder} {markers : List Marker}
    {regions : List Region} {writes : List ChunkWrite}
    (hwrite : markersregionsChunks writer (decide (writer ≠ file)) markers regions = .ok writes)
    (hcount : markers.length+regions.length < 2^32) {fuel : Nat}
    (hfuel : (stored .mark writes).length < fuel) :
    readMarkersregions reader (decide (reader ≠ file)) (stored .strg writes) (stored .mark writes)
      (stored .regn writes) fuel = .ok (markers, regions) := by
  have hroom := names_fit_of_ok hcount hwrite
  have hle := length_le_namesSize (allNames markers regions)
  by_cases hne : 0 < markers.length+regions.length
  · have hfile : writer.swapIf (decide (writer ≠ file)) = file := ByteOrder.swapIf_ne writer file
    obtain ⟨dm, dr, ds, hdm, hdr, hds, heq⟩ := markersregionsChunks_eq writer
      (decide (writer ≠ file)) markers regions hne (fits32_of_names hroom) hroom
    rw [hfile] at heq hdm hdr hds
    rw [hwrite, Except.ok.injEq] at heq
    subst heq
    have hread := readMarkersregions_chunks reader file markers regions (by omega) (by omega) fuel
      hfuel
    simpa [stored, hdm, hdr, hds] using hread
  · have hm : markers = [] := List.length_eq_zero_iff.mp (by omega)
    have hr : regions = [] := List.length_eq_zero_iff.mp (by omega)
    subst hm hr
    obtain rfl := Except.ok.inj hwrite
    cases fuel with
    | zero => exact absurd hfuel (Nat.not_lt_zero _)
    | succ fuel => rfl

theorem markersregions_roundTrip (writer reader file : ByteOrder) (markers : List Marker)
    (regions : List Region) (h : namesSize (allNames markers regions) ≤ 256) :
    ∃ chunks, markersregionsChunks writer (decide (writer ≠ file)) markers regions = .ok chunks ∧
      ∀ fuel, 1 < fuel → readMarkersregions reader (decide (reader ≠ file)) (stored .strg chunks)
        (stored .mark chunks) (stored .regn chunks) fuel = .ok (markers, regions) := by
  have hle := length_le_namesSize (allNames markers regions)
  rw [allNames, List.length_append, List.length_map, List.length_map, ← allNames] at hle
  obtain ⟨chunks, hwrite, hmark⟩ : ∃ chunks,
      markersregionsChunks writer (decide (writer ≠ file)) markers regions = .ok chunks ∧
        (stored .mark chunks).length ≤ 1 := by
    by_cases hne : 0 < markers.length+regions.length
    · obtain ⟨dm, dr, ds, -, -, -, hwrite⟩ := markersregionsChunks_eq writer
        (decide (writer ≠ file)) markers regions hne (fits32_of_names h) h
      exact ⟨_, hwrite, le_rfl⟩
    · have hm : markers = [] := List.length_eq_zero_iff.mp (by omega)
      have hr : regions = [] := List.length_eq_zero_iff.mp (by omega)
      subst hm hr
      exact ⟨[], markersregionsChunks_nil writer _, Nat.zero_le 1⟩
  exact ⟨chunks, hwrite, fun fuel hfuel =>
    readMarkersregions_written hwrite (by omega) (Nat.lt_of_le_of_lt hmark hfuel)⟩

/-- A marker and a region of one name, from a little-endian to a big-endian host. -/
theorem markersregions_roundTrip_single : ∃ chunks,
    markersregionsChunks .little (decide (ByteOrder.little ≠ .big)) [⟨5, nameA⟩] [⟨1, 7, nameA⟩] =
      .ok chunks ∧
    ∀ fuel, 1 < fuel → readMarkersregions .big (decide (ByteOrder.big ≠ .big))
      (stored .strg chunks) (stored .mark chunks) (stored .regn chunks) fuel =
      .ok ([⟨5, nameA⟩], [⟨1, 7, nameA⟩]) :=
  markersregions_roundTrip .little .big .big [⟨5, nameA⟩] [⟨1, 7, nameA⟩] (by decide)

end Ambix
