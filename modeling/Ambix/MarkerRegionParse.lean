import Ambix.MarkerRegionRead
import Ambix.Machine.Record

/-! What the reader computes. Each chunk is decoded by a pure function of its bytes in
the byte order `o` of the file; the checked reader agrees with it. -/
namespace Ambix
open Machine

/-! The string table: filled up to `numStrings`, with room behind, or damaged. -/

namespace StringsBuffer

/-- The entries `es` with `pad` free slots behind them. -/
def ofEntries (es : List (UInt32 × List UInt8)) (pad : Nat) : StringsBuffer :=
  ⟨UInt32.ofNat es.length, es.map some ++ List.replicate pad none⟩

theorem empty_eq : empty = ofEntries [] 0 := rfl

variable {es : List (UInt32 × List UInt8)} {pad : Nat}

theorem numStrings_ofEntries (es : List (UInt32 × List UInt8)) (pad : Nat) (h : es.length < 2^32) :
    (ofEntries es pad).numStrings.toNat = es.length := by
  rw [ofEntries, UInt32.toNat_ofNat']
  omega

theorem slot_ofEntries {i : Nat} (hi : i < es.length) : (ofEntries es pad).slot i = .ok es[i] := by
  have hget : (ofEntries es pad).slots[i]? = some (some es[i]) := by
    rw [ofEntries, List.getElem?_append_left (by simpa using hi)]
    simp [hi]
  rw [slot, hget]

theorem realloc_ofEntries (es : List (UInt32 × List UInt8)) (pad n : Nat)
    (h : es.length+n < 2^32) :
    (ofEntries es pad).realloc ((ofEntries es pad).numStrings+UInt32.ofNat n) =
      ofEntries es n := by
  have hsum : (UInt32.ofNat es.length+UInt32.ofNat n).toNat = es.length+n := by
    rw [← UInt32.ofNat_add, UInt32.toNat_ofNat']
    omega
  simp only [realloc, ofEntries, hsum, mk.injEq, true_and]
  rw [List.take_append, List.take_of_length_le (by simp), List.append_assoc, List.take_replicate,
    List.replicate_append_replicate]
  congr 2
  simp
  omega

theorem push_ofEntries (id : UInt32) (string : List UInt8) (h : es.length+(pad+1) < 2^32) :
    (ofEntries es (pad+1)).push id string = .ok (ofEntries (es ++ [(id, string)]) pad) := by
  have hnum := numStrings_ofEntries es (pad+1) (by omega)
  rw [push, hnum, if_pos (by simp [ofEntries])]
  congr 1
  simp only [ofEntries, mk.injEq]
  constructor
  · rw [List.length_append, UInt32.ofNat_add]
    rfl
  · rw [List.set_append_right _ _ (by simp)]
    simp [List.replicate_succ]

def lookup (es : List (UInt32 × List UInt8)) (id : UInt32) : Option (List UInt8) :=
  (es.find? fun e => e.1 == id).map Prod.snd

theorem scan_ofEntries (id : UInt32) (n i : Nat) (hi : i+n = es.length) :
    (ofEntries es pad).scan id n i = .ok (lookup (es.drop i) id) := by
  induction n generalizing i with
  | zero =>
    rw [List.drop_eq_nil_of_le (by omega)]
    rfl
  | succ n ih =>
    have hlt : i < es.length := by omega
    rw [scan, slot_ofEntries hlt, ok_bind, List.drop_eq_getElem_cons hlt, lookup, List.find?_cons]
    by_cases he : es[i].1 = id
    · simp [he]
    · rw [if_neg he, ih (i+1) (by omega), beq_eq_false_iff_ne.mpr he]
      rfl

theorem getStringFromBuffer_ofEntries (pad : Nat) (id : UInt32) (h : es.length < 2^32) :
    getStringFromBuffer (ofEntries es pad) id = .ok (lookup es id) := by
  rw [getStringFromBuffer, numStrings_ofEntries es pad h, scan_ofEntries id _ 0 (by simp),
    List.drop_zero]

theorem free_ofEntries (h : es.length < 2^32) : (ofEntries es pad).free = .ok () := by
  rw [free, numStrings_ofEntries es pad h]
  refine loopM_eq (fun _ => ()) rfl fun i hi => ?_
  rw [slot_ofEntries hi]
  rfl

/-- Some string below `numStrings` is lost, for good. -/
def Lost (t : StringsBuffer) : Prop :=
  t.slots.length < 2^32 ∧ ∃ i, i < t.numStrings.toNat ∧ ∀ e, t.slots[i]? ≠ some (some e)

theorem lost_of_wrap (n : UInt32) (hes : es.length < 2^32) (h : 2^32 ≤ es.length+n.toNat) :
    ((ofEntries es pad).realloc ((ofEntries es pad).numStrings+n)).Lost := by
  have hn := n.toNat_lt
  have hnum := numStrings_ofEntries es pad hes
  have hsum : ((ofEntries es pad).numStrings+n).toNat = es.length+n.toNat-2^32 := by
    rw [UInt32.toNat_add, hnum]
    omega
  have hlen : ((ofEntries es pad).realloc ((ofEntries es pad).numStrings+n)).slots.length =
      es.length+n.toNat-2^32 := by
    simp only [realloc, hsum, List.length_append, List.length_take, List.length_replicate]
    omega
  refine ⟨by omega, es.length+n.toNat-2^32, ?_, fun e => ?_⟩
  · change es.length+n.toNat-2^32 < (ofEntries es pad).numStrings.toNat
    omega
  · rw [List.getElem?_eq_none (by omega)]
    simp

theorem Lost.realloc {t : StringsBuffer} (h : t.Lost) (n : UInt32) : (t.realloc n).Lost := by
  obtain ⟨-, i, hi, hlost⟩ := h
  have hn := n.toNat_lt
  refine ⟨?_, i, hi, fun e he => ?_⟩
  · simp only [StringsBuffer.realloc, List.length_append, List.length_take, List.length_replicate]
    omega
  · rw [StringsBuffer.realloc, List.getElem?_append] at he
    split at he
    · rw [List.getElem?_take] at he
      split at he
      · exact hlost e he
      · cases he
    · rw [List.getElem?_replicate] at he
      split at he
      · cases he
      · cases he

theorem Lost.push {t t' : StringsBuffer} {id : UInt32} {string : List UInt8} (h : t.Lost)
    (hp : t.push id string = .ok t') : t'.Lost := by
  obtain ⟨hlen, i, hi, hlost⟩ := h
  rw [StringsBuffer.push] at hp
  split at hp
  · rename_i hroom
    rw [← Except.ok.inj hp]
    have hnum : (t.numStrings+1).toNat = t.numStrings.toNat+1 := by
      have h1 : UInt32.toNat 1 = 1 := rfl
      rw [UInt32.toNat_add, h1]
      omega
    refine ⟨by simpa using hlen, i, by simp only [hnum]; omega, fun e he => hlost e ?_⟩
    rwa [List.getElem?_set_ne (by omega)] at he
  · cases hp

theorem Lost.not_free {t : StringsBuffer} (h : t.Lost) : t.free ≠ .ok () := by
  obtain ⟨-, i, hi, hlost⟩ := h
  intro hfree
  have hall := loopM_invariant (fun n (_ : Unit) => i < n → ∃ e, t.slot i = .ok e) hfree
    (fun h0 => absurd h0 (Nat.not_lt_zero i)) ?_
  · obtain ⟨e, he⟩ := hall hi
    rw [slot] at he
    split at he
    · rename_i hget
      exact hlost _ hget
    · cases he
    · cases he
  · intro j _ u hj hprev hbody hlt
    by_cases hij : i = j
    · obtain ⟨e, he, -⟩ := bind_eq_ok.mp hbody
      exact ⟨e, hij ▸ he⟩
    · exact hprev (by omega)

end StringsBuffer
open StringsBuffer

section decode
variable (o : ByteOrder) (es : List (UInt32 × List UInt8))

/-! Markers. -/

def decodeMarkers : Nat → List UInt8 → List Marker
  | 0, _ => []
  | n+1, rest =>
    ⟨word64 o (field rest 4 8), Name.empty.copyFrom (lookup es (word32 o (field rest 12 4)))⟩ ::
      decodeMarkers n (rest.drop 28)

/-- The count in the header of a `mark` or `regn` chunk. -/
def headerCount (b : List UInt8) : Nat := (word32 o (field b 4 4)).toNat

/-- The chunk is long enough for the markers it announces, or it is skipped. -/
def markGood (b : List UInt8) : Bool := decide (b.length ≤ 8 ∨ 8+28*headerCount o b ≤ b.length)

def chunkMarkers (b : List UInt8) : List Marker :=
  if 8 < b.length then decodeMarkers o es (headerCount o b) (b.drop 8) else []

/-! Regions. -/

/-- One marker of a region, at the head of `rest`. -/
def applyMarker (rest : List UInt8) (region : Region) : Region :=
  if word32 o (field rest 0 4) = markerTypeRegionStart then
    { region with
      startPosition := word64 o (field rest 4 8)
      name := region.name.copyFrom (lookup es (word32 o (field rest 12 4))) }
  else if word32 o (field rest 0 4) = markerTypeRegionEnd then
    { region with endPosition := word64 o (field rest 4 8) }
  else region

def decodeRegionMarkers : Nat → List UInt8 → Region → Region × List UInt8
  | 0, rest, region => (region, rest)
  | n+1, rest, region =>
    if rest.length < 28 then (region, rest)
    else decodeRegionMarkers n (rest.drop 28) (applyMarker o es rest region)

def decodeRegions : Nat → List UInt8 → List Region
  | 0, _ => []
  | n+1, rest =>
    if rest.length < 12 then []
    else
      let r := decodeRegionMarkers o es (word32 o (field rest 8 4)).toNat (rest.drop 12)
        ⟨0, 0, Name.empty⟩
      r.1 :: decodeRegions n r.2

def regnGood (b : List UInt8) : Bool := decide (b.length ≤ 8 ∨ 8+40*headerCount o b ≤ b.length)

def chunkRegions (b : List UInt8) : List Region :=
  if 8 < b.length then decodeRegions o es (headerCount o b) (b.drop 8) else []

end decode

section readers
variable (host : ByteOrder) (swap : Bool) {es : List (UInt32 × List UInt8)} {pad : Nat}

theorem readMarkers_eq (hes : es.length < 2^32) (n pos : Nat) (pre rest : List UInt8)
    (markers : List Marker) (hpos : pos = pre.length) (h : 28*n ≤ rest.length) :
    readMarkers host swap (ofEntries es pad) n pos (pre ++ rest) markers =
      .ok (markers ++ decodeMarkers (host.swapIf swap) es n rest) := by
  induction n generalizing pos pre rest markers with
  | zero => simp [readMarkers, decodeMarkers]
  | succ n ih =>
    obtain ⟨record, hlen, hswap, -, hposition, hid⟩ :=
      marker_seen host swap pre rest pos hpos (by omega)
    have hget := getStringFromBuffer_ofEntries pad
      (word32 (host.swapIf swap) (field rest 12 4)) hes
    rw [readMarkers, hswap, ok_bind, hposition, ok_bind, hid, ok_bind, hget, ok_bind,
      sizeofCAFMarker, ih (pos+28) (pre ++ record) (rest.drop 28) _
        (by rw [List.length_append, hlen, hpos]) (by rw [List.length_drop]; omega),
      decodeMarkers, List.append_assoc, List.singleton_append]

theorem count_checked {α : Type} {k size n len : Nat} (hk : k < len) {x : Checked (Option α)}
    {y : Checked α} (h : k+size*n ≤ len → x = some <$> y) :
    (if len < n*size+k then .ok none else x) =
      if decide (len ≤ k ∨ k+size*n ≤ len) = true then some <$> y else .ok none := by
  have hcomm := Nat.mul_comm n size
  by_cases hfit : len < n*size+k
  · rw [if_pos hfit, if_neg (by rw [decide_eq_true_iff]; omega)]
  · rw [if_neg hfit, if_pos (by rw [decide_eq_true_iff]; omega)]
    exact h (by omega)

theorem readMarkChunk_eq (pad : Nat) (hes : es.length < 2^32) (b : List UInt8)
    (markers : List Marker) :
    readMarkChunk host swap (ofEntries es pad) b markers =
      if markGood (host.swapIf swap) b = true then
        some <$> (.ok (markers ++ chunkMarkers (host.swapIf swap) es b) : Checked (List Marker))
      else .ok none := by
  by_cases h8 : 8 < b.length
  · obtain ⟨record, hlen, hswap, hcount⟩ := header_seen host swap b (by omega)
    have hlength : (record ++ b.drop 8).length = b.length := by
      rw [List.length_append, hlen, List.length_drop]
      omega
    rw [readMarkChunk, if_pos h8, hswap, ok_bind, hcount, ok_bind, hlength, sizeofCAFMarker]
    refine count_checked h8 fun hfit => ?_
    rw [readMarkers_eq host swap hes _ 8 record (b.drop 8) markers hlen.symm
      (by rw [List.length_drop]; omega), chunkMarkers, if_pos h8, headerCount]
  · have hgood : markGood (host.swapIf swap) b = true := by
      rw [markGood, decide_eq_true_iff]
      omega
    rw [readMarkChunk, if_neg h8, if_pos hgood, chunkMarkers, if_neg h8, List.append_nil]
    rfl

theorem readRegionMarkers_eq (pad : Nat) (hes : es.length < 2^32) (n pos : Nat)
    (pre rest : List UInt8) (region : Region) (hpos : pos = pre.length) :
    ∃ pre' : List UInt8, readRegionMarkers host swap (ofEntries es pad) n (pre ++ rest) pos region =
      .ok (pre' ++ (decodeRegionMarkers (host.swapIf swap) es n rest region).2, pre'.length,
        (decodeRegionMarkers (host.swapIf swap) es n rest region).1) := by
  induction n generalizing pos pre rest region with
  | zero => exact ⟨pre, by rw [readRegionMarkers, hpos]; rfl⟩
  | succ n ih =>
    by_cases hend : rest.length < 28
    · refine ⟨pre, ?_⟩
      rw [readRegionMarkers, if_pos (by rw [List.length_append, sizeofCAFMarker]; omega),
        decodeRegionMarkers, if_pos hend, hpos]
    · obtain ⟨record, hlen, hswap, htype, hposition, hid⟩ :=
        marker_seen host swap pre rest pos hpos (by omega)
      have hget := getStringFromBuffer_ofEntries pad
        (word32 (host.swapIf swap) (field rest 12 4)) hes
      have hnext : pos+28 = (pre ++ record).length := by rw [List.length_append, hlen, hpos]
      obtain ⟨pre', hrest⟩ := ih (pos+28) (pre ++ record) (rest.drop 28)
        (applyMarker (host.swapIf swap) es rest region) hnext
      refine ⟨pre', ?_⟩
      rw [readRegionMarkers, if_neg (by rw [List.length_append, sizeofCAFMarker]; omega), hswap,
        ok_bind, htype, ok_bind, hposition, ok_bind, hid, ok_bind, decodeRegionMarkers,
        if_neg hend, ← hrest, sizeofCAFMarker, applyMarker]
      by_cases hstart : word32 (host.swapIf swap) (field rest 0 4) = markerTypeRegionStart
      · simp only [hstart, if_true, hget, ok_bind]
      · rw [if_neg hstart, if_neg hstart]
        by_cases hstop : word32 (host.swapIf swap) (field rest 0 4) = markerTypeRegionEnd
        · simp only [hstop, if_true]
        · rw [if_neg hstop, if_neg hstop]

theorem readRegions_eq (hes : es.length < 2^32) (n pos : Nat) (pre rest : List UInt8)
    (regions : List Region) (hpos : pos = pre.length) :
    readRegions host swap (ofEntries es pad) n (pre ++ rest) pos regions =
      .ok (regions ++ decodeRegions (host.swapIf swap) es n rest) := by
  induction n generalizing pos pre rest regions with
  | zero => simp [readRegions, decodeRegions]
  | succ n ih =>
    by_cases hend : rest.length < 12
    · rw [readRegions, if_pos (by rw [List.length_append, sizeofCAFRegion]; omega), decodeRegions,
        if_pos hend, List.append_nil]
    · obtain ⟨record, hlen, hswap, hcount⟩ := region_seen host swap pre rest pos hpos (by omega)
      have hnext : pos+12 = (pre ++ record).length := by rw [List.length_append, hlen, hpos]
      obtain ⟨pre', hmarkers⟩ := readRegionMarkers_eq host swap pad hes
        (word32 (host.swapIf swap) (field rest 8 4)).toNat (pos+12) (pre ++ record) (rest.drop 12)
        ⟨0, 0, Name.empty⟩ hnext
      rw [readRegions, if_neg (by rw [List.length_append, sizeofCAFRegion]; omega), hswap, ok_bind,
        hcount, ok_bind, sizeofCAFRegion, hmarkers, ok_bind]
      dsimp only
      rw [ih _ pre' _ _ rfl, decodeRegions, if_neg hend, List.append_assoc, List.singleton_append]

theorem readRegnChunk_eq (pad : Nat) (hes : es.length < 2^32) (b : List UInt8)
    (regions : List Region) :
    readRegnChunk host swap (ofEntries es pad) b regions =
      if regnGood (host.swapIf swap) b = true then
        some <$> (.ok (regions ++ chunkRegions (host.swapIf swap) es b) : Checked (List Region))
      else .ok none := by
  by_cases h8 : 8 < b.length
  · obtain ⟨record, hlen, hswap, hcount⟩ := header_seen host swap b (by omega)
    have hlength : (record ++ b.drop 8).length = b.length := by
      rw [List.length_append, hlen, List.length_drop]
      omega
    have hregion : swapRegionChunk host = swapMarkerChunk host := rfl
    rw [readRegnChunk, if_pos h8, hregion, hswap, ok_bind, hcount, ok_bind, hlength]
    refine count_checked h8 fun _ => ?_
    rw [readRegions_eq host swap hes _ 8 record (b.drop 8) regions hlen.symm, chunkRegions,
      if_pos h8, headerCount]
  · have hgood : regnGood (host.swapIf swap) b = true := by
      rw [regnGood, decide_eq_true_iff]
      omega
    rw [readRegnChunk, if_neg h8, if_pos hgood, chunkRegions, if_neg h8, List.append_nil]
    rfl

end readers
end Ambix
