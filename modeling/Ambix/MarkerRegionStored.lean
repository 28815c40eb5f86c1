import Ambix.MarkerRegionFile

/-! Reading well-formed marker data. The strings of all `strg` chunks make one table, in
which IDs find their labels; markers and regions come out in the order of the file. -/
namespace Ambix
open Machine

/-! One `strg` chunk. -/

theorem drop_field (b : List UInt8) (pos n : Nat) :
    b.drop pos = field b pos n ++ b.drop (pos+n) := by
  rw [← List.drop_drop]
  exact (List.take_append_drop n (b.drop pos)).symm

theorem strgSeen_false (b : List UInt8) (k : Nat) : strgSeen false b k = b := by
  induction k with
  | zero => exact List.take_append_drop 4 b
  | succ k ih =>
    rw [strgSeen] at ih ⊢
    rw [idsSeen, List.append_assoc]
    conv_rhs => rw [← ih]
    rw [drop_field b (4+12*k) 4, drop_field b (4+12*k+4) 8, List.append_assoc]
    rfl

section strg
variable {o : ByteOrder}

def StoredString.bytes (o : ByteOrder) (s : StoredString) : List UInt8 :=
  bytes32 o s.stringID ++ bytes64 o s.byteoffset

theorem ids_length (ids : List StoredString) :
    (ids.flatMap (StoredString.bytes o)).length = 12*ids.length := by
  induction ids with
  | nil => rfl
  | cons s ids ih =>
    rw [List.flatMap_cons, List.length_append, ih, StoredString.bytes, List.length_append,
      List.length_cons, bytes32_length, bytes64_length]
    omega

theorem strgBytes_length (ids : List StoredString) (text : List UInt8) :
    (strgBytes o ids text).length = 4+12*ids.length+text.length := by
  rw [strgBytes, List.length_append, List.length_append, bytes32_length]
  exact congrArg (4+·+text.length) (ids_length (o := o) ids)

theorem strgBytes_count (ids : List StoredString) (text : List UInt8) :
    strgCount o (strgBytes o ids text) = UInt32.ofNat ids.length := by
  have hsplit : strgBytes o ids text = [] ++ bytes32 o (UInt32.ofNat ids.length) ++
      (ids.flatMap (StoredString.bytes o) ++ text) := List.append_assoc _ _ _
  rw [strgCount, field_middle hsplit List.length_nil.symm (by simp), word32_bytes32]

theorem strgBytes_start {ids : List StoredString} (text : List UInt8) (h : ids.length < 2^32) :
    strgStart o (strgBytes o ids text) = 4+12*ids.length := by
  rw [strgStart, strgBytes_count, UInt32.toNat_ofNat', Nat.mod_eq_of_lt h]

theorem strgBytes_entry (before after : List StoredString) (s : StoredString) (text : List UInt8) :
    stringidAt o (strgBytes o (before ++ s :: after) text) before.length = s.stringID ∧
      byteoffsetAt o (strgBytes o (before ++ s :: after) text) before.length =
        s.byteoffset.toInt64.toInt := by
  have hfront : (bytes32 o (UInt32.ofNat (before ++ s :: after).length) ++
      before.flatMap (StoredString.bytes o)).length = 4+12*before.length := by
    rw [List.length_append, bytes32_length, ids_length]
  have hsplit : strgBytes o (before ++ s :: after) text =
      (bytes32 o (UInt32.ofNat (before ++ s :: after).length) ++
        before.flatMap (StoredString.bytes o)) ++ s.bytes o ++
        (after.flatMap (StoredString.bytes o) ++ text) := by
    change bytes32 o _ ++ (before ++ s :: after).flatMap (StoredString.bytes o) ++ text = _
    rw [List.flatMap_append, List.flatMap_cons]
    simp only [List.append_assoc]
  constructor
  · rw [StoredString.bytes, ← List.append_assoc _ (bytes32 o _),
      List.append_assoc _ (bytes64 o _)] at hsplit
    rw [stringidAt, field_middle hsplit hfront.symm (bytes32_length o _).symm, word32_bytes32]
  · rw [StoredString.bytes, ← List.append_assoc _ (bytes32 o _)] at hsplit
    rw [byteoffsetAt, field_middle hsplit (by rw [List.length_append, hfront, bytes32_length])
      (bytes64_length o _).symm, word64_bytes64]

theorem strgSeen_text (swap : Bool) (b : List UInt8) (k pos : Nat)
    (hpos : swap = true → 4+12*k ≤ pos) (hb : 4+12*k ≤ b.length) :
    (strgSeen swap b k).drop pos = b.drop pos := by
  cases swap with
  | false => rw [strgSeen_false]
  | true => exact strgSeen_drop true b k pos (hpos rfl) hb

theorem StrgData.labelAt (d : StrgData o) (swap : Bool) {before after : List StoredString}
    {s : StoredString} (hids : d.ids = before ++ s :: after)
    (hplain : swap = true → 0 ≤ s.byteoffset.toInt64.toInt)
    (hshort : (d.string s).length < 2^32-1) :
    Ambix.labelAt o swap d.bytes before.length = some (d.string s) := by
  have hcount : d.ids.length = before.length+(after.length+1) := by
    rw [hids, List.length_append, List.length_cons]
  obtain ⟨hpos, hnul⟩ := d.inside s (by rw [hids]; simp)
  have hstart : strgStart o d.bytes = 4+12*d.ids.length := strgBytes_start d.text d.countable
  have hoffset : byteoffsetAt o d.bytes before.length = s.byteoffset.toInt64.toInt := by
    rw [StrgData.bytes, hids]
    exact (strgBytes_entry before after s d.text).2
  have hsum : (strgStart o d.bytes+byteoffsetAt o d.bytes before.length : Int) =
      stringPosition d.ids s := by
    rw [hstart, hoffset, stringPosition]
  have hlength := strgBytes_length (o := o) d.ids d.text
  have hseen : (strgSeen swap d.bytes (before.length+1)).drop (stringPosition d.ids s).toNat =
      d.bytes.drop (stringPosition d.ids s).toNat := by
    refine strgSeen_text swap d.bytes _ _ (fun hs => ?_) (by rw [StrgData.bytes]; omega)
    have hoff := hplain hs
    rw [stringPosition]
    omega
  have hstring : strlen (d.bytes.drop (stringPosition d.ids s).toNat) =
      some (d.string s).length := strlen_of_mem hnul
  have hwrap : UInt32.ofNat (d.string s).length+1 ≠ 0 := by
    rw [Ne, ofNat_add_one_eq_zero]
    omega
  obtain ⟨rest, hrest⟩ : d.string s <+: d.bytes.drop (stringPosition d.ids s).toNat :=
    List.takeWhile_prefix _
  rw [Ambix.labelAt, hsum, if_neg (by omega), hseen, hstring, Option.bind_some, if_neg hwrap,
    field, hseen, UInt32.toNat_ofNat', Nat.mod_eq_of_lt (by omega), ← hrest, List.take_left']
  rfl

theorem StrgData.offset_lt (d : StrgData o) {s : StoredString} (hs : s ∈ d.ids) :
    ¬ (d.bytes.length-strgStart o d.bytes : Int) ≤ s.byteoffset.toInt64.toInt := by
  obtain ⟨hpos, hnul⟩ := d.inside s hs
  have hlt := List.length_pos_of_mem hnul
  rw [List.length_drop] at hlt
  have hstart : strgStart o d.bytes = 4+12*d.ids.length := strgBytes_start d.text d.countable
  rw [stringPosition] at hpos hlt
  rw [hstart, StrgData.bytes]
  omega

/-- Labels the reader takes as they are: it counts their bytes, the terminating zero with
them, in 32 bits, and looks for them in front of the text when it has already swapped the
string IDs there. -/
structure StrgData.Plain (d : StrgData o) (swap : Bool) : Prop where
  behind : swap = true → ∀ s ∈ d.ids, 0 ≤ s.byteoffset.toInt64.toInt
  short : ∀ s ∈ d.ids, (d.string s).length < 2^32-1

theorem StrgData.decode_from (d : StrgData o) {swap : Bool} (h : d.Plain swap)
    (before after : List StoredString) (hids : d.ids = before ++ after) :
    decodeStrings o swap d.bytes after.length before.length =
      some (after.map fun s => (s.stringID, d.string s)) := by
  induction after generalizing before with
  | nil => rfl
  | cons s after ih =>
    have hs : s ∈ d.ids := by simp [hids]
    have hentry := strgBytes_entry (o := o) before after s d.text
    rw [← hids] at hentry
    change stringidAt o d.bytes before.length = _ ∧ byteoffsetAt o d.bytes before.length = _
      at hentry
    have hlabel := d.labelAt swap hids (fun hswap => h.behind hswap s hs) (h.short s hs)
    have hrest := ih (before ++ [s]) (by rw [hids, List.append_assoc]; rfl)
    rw [List.length_append, List.length_singleton] at hrest
    rw [List.length_cons, decodeStrings, hentry.2, if_neg (d.offset_lt hs), hlabel,
      Option.bind_some, hrest, hentry.1]
    rfl

theorem StrgData.decode (d : StrgData o) {swap : Bool} (h : d.Plain swap) :
    decodeStrings o swap d.bytes d.ids.length 0 = some d.strings :=
  d.decode_from h [] d.ids rfl

theorem StrgData.count (d : StrgData o) : (strgCount o d.bytes).toNat = d.ids.length := by
  rw [StrgData.bytes, strgBytes_count, UInt32.toNat_ofNat', Nat.mod_eq_of_lt d.countable]

theorem StrgData.long (d : StrgData o) : 4 < d.bytes.length := by
  have hpos := List.length_pos_iff.mpr d.nonempty
  rw [StrgData.bytes, strgBytes_length]
  omega

theorem StrgData.good (d : StrgData o) : d.bytes ≠ [] ∧ strgGood o d.bytes = true := by
  refine ⟨List.length_pos_iff.mp (Nat.zero_lt_of_lt d.long), decide_eq_true (Or.inr ?_)⟩
  rw [StrgData.bytes, strgBytes_start d.text d.countable, strgBytes_length]
  exact Nat.le_add_right _ _

theorem StrgData.used (d : StrgData o) {swap : Bool} (h : d.Plain swap) :
    strgUsed o d.bytes = d.ids.length := by
  have hlength := decodeStrings_length _ 0 (d.decode h)
  rw [strgUsed, if_pos d.long, d.count, ← hlength, StrgData.strings, List.length_map]

theorem scanned_strg (strg : List (StrgData o)) :
    scanned (strgGood o) (strg.map StrgData.bytes) = strg.map StrgData.bytes :=
  scanned_all (List.forall_mem_map.mpr fun d _ => d.good)

theorem tableEntries_stored {swap : Bool} {strg : List (StrgData o)}
    (h : ∀ d ∈ strg, d.Plain swap) :
    tableEntries o swap (strg.map StrgData.bytes) = some (storedStrings strg) := by
  induction strg with
  | nil => rfl
  | cons d strg ih =>
    obtain ⟨hd, hstrg⟩ := List.forall_mem_cons.mp h
    rw [List.map_cons, tableEntries, if_pos d.long, d.count, d.decode hd, Option.bind_some,
      ih hstrg]
    rfl

theorem stringsSafe_stored {swap : Bool} {strg : List (StrgData o)} (n : Nat)
    (h : ∀ d ∈ strg, d.Plain swap) (hfew : n+(storedStrings strg).length < 2^32) :
    StringsSafe o swap n (strg.map StrgData.bytes) := by
  induction strg generalizing n with
  | nil => exact trivial
  | cons d strg ih =>
    obtain ⟨hd, hstrg⟩ := List.forall_mem_cons.mp h
    rw [storedStrings, List.flatMap_cons, List.length_append, StrgData.strings,
      List.length_map] at hfew
    refine ⟨fun _ => ?_, fun i hi => ?_, ?_⟩
    · rw [d.count]
      omega
    · rw [strgUsed, if_pos d.long] at hi
      exact (decodeStrings_isSome _ 0).mp ⟨_, d.count ▸ d.decode hd⟩ i (Nat.zero_le i) (by omega)
    · rw [d.used hd]
      refine ih _ hstrg ?_
      rw [storedStrings]
      omega

end strg

/-! The whole reader. -/

/-- Marker data whose strings, markers and regions can be counted in 32 bits. -/
structure Countable32 {o : ByteOrder} (strg : List (StrgData o)) (mark : List MarkData)
    (regn : List RegnData) : Prop where
  strings : (strg.flatMap StrgData.ids).length < 2^32
  markers : (mark.flatMap MarkData.markers).length < 2^32
  regions : (regn.flatMap RegnData.regions).length < 2^32

theorem storedStrings_length {o : ByteOrder} (strg : List (StrgData o)) :
    (storedStrings strg).length = (strg.flatMap StrgData.ids).length := by
  induction strg with
  | nil => rfl
  | cons d strg ih =>
    rw [storedStrings] at ih ⊢
    rw [List.flatMap_cons, List.flatMap_cons, List.length_append, List.length_append, ih,
      StrgData.strings, List.length_map]

theorem length_le_entries {α β : Type} {f : α → List β} {l : List α} (h : ∀ a ∈ l, f a ≠ []) :
    l.length ≤ (l.flatMap f).length := by
  induction l with
  | nil => exact Nat.zero_le _
  | cons a l ih =>
    obtain ⟨ha, hl⟩ := List.forall_mem_cons.mp h
    have hpos := List.length_pos_iff.mpr ha
    have hrest := ih hl
    rw [List.flatMap_cons, List.length_append, List.length_cons]
    omega

section reader
variable (host : ByteOrder) (swap : Bool) (strg : List (StrgData (host.swapIf swap)))
  (mark : List MarkData) (regn : List RegnData)

def readStored (fuel : Nat) : Checked (List Marker × List Region) :=
  readMarkersregions host swap (strg.map StrgData.bytes)
    (mark.map (MarkData.bytes (host.swapIf swap))) (regn.map (RegnData.bytes (host.swapIf swap)))
    fuel

def storedMarkersregions : List Marker × List Region :=
  (storedMarkers (storedStrings strg) mark, storedRegions (storedStrings strg) regn)

/-- The reader ends and finds them. -/
def ReadsStored : Prop := ∃ enough, ∀ fuel, enough < fuel →
  readStored host swap strg mark regn fuel = .ok (storedMarkersregions host swap strg mark regn)

theorem readStored_of_table {es : List (UInt32 × List UInt8)}
    (htable : tableEntries (host.swapIf swap) swap (strg.map StrgData.bytes) = some es)
    (hstrings : StringsSafe (host.swapIf swap) swap 0 (strg.map StrgData.bytes))
    (hstrg : strg.length < 2^32) (hmark : mark.length < 2^32) (hregn : regn.length < 2^32)
    (fuel : Nat) (hfuel : strg.length+mark.length+regn.length < fuel) :
    readStored host swap strg mark regn fuel =
      .ok (storedMarkers es mark, storedRegions es regn) := by
  have hsafe : ReaderSafe swap (strg.map StrgData.bytes)
      (mark.map (MarkData.bytes (host.swapIf swap))) (regn.map (RegnData.bytes (host.swapIf swap)))
      (host.swapIf swap) := by
    refine ⟨?_, ?_, ?_, ?_⟩
    · rwa [scanned_strg, List.length_map]
    · rwa [scanned_strg]
    · rwa [scanned_mark, List.length_map]
    · rwa [scanned_regn, List.length_map]
  obtain ⟨es', hes, hread⟩ := readMarkersregions_of_safe host swap hsafe fuel
    (by rw [List.length_map]; omega) (by rw [List.length_map]; omega)
    (by rw [List.length_map]; omega)
  rw [scanned_strg, htable] at hes
  rw [readStored, hread, ← Option.some.inj hes, fileMarkers_stored, fileRegions_stored]

theorem wellFormed_read (hplain : ∀ d ∈ strg, d.Plain swap)
    (hcount : Countable32 strg mark regn) : ReadsStored host swap strg mark regn := by
  refine ⟨strg.length+mark.length+regn.length, fun fuel hfuel => ?_⟩
  have hstrings : StringsSafe (host.swapIf swap) swap 0 (strg.map StrgData.bytes) := by
    refine stringsSafe_stored 0 hplain ?_
    rw [storedStrings_length, Nat.zero_add]
    exact hcount.strings
  exact readStored_of_table host swap strg mark regn (tableEntries_stored hplain) hstrings
    (lt_of_le_of_lt (length_le_entries fun d _ => d.nonempty) hcount.strings)
    (lt_of_le_of_lt (length_le_entries fun d _ => d.nonempty) hcount.markers)
    (lt_of_le_of_lt (length_le_entries fun d _ => d.nonempty) hcount.regions) fuel hfuel

end reader

/-- A big-endian file on a little-endian host: the labels are in the second `strg` chunk,
the markers in two chunks, and the region ends before it starts. -/
theorem wellFormed_read_split : ∃ enough, ∀ fuel, enough < fuel →
    readMarkersregions .little true
      [[0, 0, 0, 1, 0, 0, 0, 9, 0, 0, 0, 0, 0, 0, 0, 0, 67, 0],
        [0, 0, 0, 2, 0, 0, 0, 1, 0, 0, 0, 0, 0, 0, 0, 0, 0, 0, 0, 2, 0, 0, 0, 0, 0, 0, 0, 2,
          65, 0, 66, 0]]
      [[0, 0, 0, 0, 0, 0, 0, 1] ++
          [0, 0, 0, 0, 0, 0, 0, 0, 0, 0, 0, 5, 0, 0, 0, 1, 0, 0, 0, 0, 0, 0, 0, 0, 0, 0, 0, 0],
        [0, 0, 0, 0, 0, 0, 0, 1] ++
          [0, 0, 0, 0, 0, 0, 0, 0, 0, 0, 0, 6, 0, 0, 0, 3, 0, 0, 0, 0, 0, 0, 0, 0, 0, 0, 0, 0]]
      [[0, 0, 0, 0, 0, 0, 0, 1, 0, 0, 0, 0, 0, 0, 0, 0, 0, 0, 0, 2] ++
          [114, 101, 110, 100, 0, 0, 0, 0, 0, 0, 0, 8, 0, 0, 0, 1,
            0, 0, 0, 0, 0, 0, 0, 0, 0, 0, 0, 0] ++
          [114, 98, 101, 103, 0, 0, 0, 0, 0, 0, 0, 7, 0, 0, 0, 2,
            0, 0, 0, 0, 0, 0, 0, 0, 0, 0, 0, 0]]
      fuel = .ok ([⟨5, .strncpy [65]⟩, ⟨6, .empty⟩], [⟨7, 8, .strncpy [66]⟩]) := by
  have hread := wellFormed_read .little true
    [⟨[⟨9, 0⟩], [67, 0], by simp, by decide, by decide⟩,
      ⟨[⟨1, 0⟩, ⟨2, 2⟩], [65, 0, 66, 0], by simp, by decide, by decide⟩]
    [⟨0, [⟨0, 5, 1, [0, 0, 0, 0, 0, 0, 0, 0], 0, rfl⟩], by simp, by decide⟩,
      ⟨0, [⟨0, 6, 3, [0, 0, 0, 0, 0, 0, 0, 0], 0, rfl⟩], by simp, by decide⟩]
    [⟨0, [⟨0, 0, [⟨markerTypeRegionEnd, 8, 1, [0, 0, 0, 0, 0, 0, 0, 0], 0, rfl⟩,
      ⟨markerTypeRegionStart, 7, 2, [0, 0, 0, 0, 0, 0, 0, 0], 0, rfl⟩], _, _, rfl, rfl, by simp⟩],
      by simp, by decide⟩]
    (by
      simp only [List.forall_mem_cons]
      exact ⟨⟨fun _ => by decide, by decide⟩, ⟨fun _ => by decide, by decide⟩, nofun⟩)
    ⟨by decide, by decide, by decide⟩
  exact hread

/-! What is not read: more than the counters hold, and labels that lie where the string IDs
are swapped. -/

section limits
variable {host : ByteOrder} {swap : Bool} {strg : List (StrgData (host.swapIf swap))}
  {mark : List MarkData} {regn : List RegnData}

theorem ReadsStored.safe (h : ReadsStored host swap strg mark regn) :
    ReaderSafe swap (strg.map StrgData.bytes) (mark.map (MarkData.bytes (host.swapIf swap)))
      (regn.map (RegnData.bytes (host.swapIf swap))) (host.swapIf swap) := by
  obtain ⟨enough, h⟩ := h
  exact safe_of_readMarkersregions host swap (h (enough+1) (Nat.lt_succ_self enough))

theorem ReadsStored.few_mark (h : ReadsStored host swap strg mark regn) : mark.length < 2^32 := by
  have hends := h.safe.markEnds
  rwa [scanned_mark, List.length_map] at hends

theorem ReadsStored.few_regn (h : ReadsStored host swap strg mark regn) : regn.length < 2^32 := by
  have hends := h.safe.regnEnds
  rwa [scanned_regn, List.length_map] at hends

theorem StringsSafe.few {o : ByteOrder} {strg : List (StrgData o)} {n : Nat}
    (hplain : ∀ d ∈ strg, d.Plain swap) (hn : n < 2^32)
    (h : StringsSafe o swap n (strg.map StrgData.bytes)) :
    n+(strg.flatMap StrgData.ids).length < 2^32 := by
  induction strg generalizing n with
  | nil => exact hn
  | cons d strg ih =>
    obtain ⟨hd, hstrg⟩ := List.forall_mem_cons.mp hplain
    obtain ⟨hwrap, -, hrest⟩ := h
    have hnext := hwrap d.long
    rw [d.count] at hnext
    rw [d.used hd] at hrest
    have hall := ih hstrg hnext hrest
    rw [List.flatMap_cons, List.length_append]
    omega

theorem ReadsStored.few_strings (hplain : ∀ d ∈ strg, d.Plain swap)
    (h : ReadsStored host swap strg mark regn) : (strg.flatMap StrgData.ids).length < 2^32 := by
  have hsafe := h.safe.strings
  rw [scanned_strg] at hsafe
  have hfew := hsafe.few hplain (by decide)
  omega

end limits

theorem drop_repeated (o : ByteOrder) (n : Nat) :
    0 ≤ stringPosition (List.replicate n ⟨1, 0⟩) ⟨1, 0⟩ ∧
      (strgBytes o (List.replicate n ⟨1, 0⟩) [0]).drop
        (stringPosition (List.replicate n ⟨1, 0⟩) ⟨1, 0⟩).toNat = [0] := by
  have hpos : stringPosition (List.replicate n ⟨1, 0⟩) ⟨1, 0⟩ = (4+12*n : Nat) := by
    rw [stringPosition, List.length_replicate]
    rfl
  have hids := ids_length (o := o) (List.replicate n ⟨1, 0⟩)
  rw [List.length_replicate] at hids
  rw [hpos, Int.toNat_natCast]
  refine ⟨Int.natCast_nonneg _, List.drop_left' ?_⟩
  rw [List.length_append, bytes32_length]
  exact congrArg (4+·) hids

/-- One empty label, for `n+1` string IDs. -/
def StrgData.repeated (o : ByteOrder) (n : Nat) (hn : n+1 < 2^32) : StrgData o where
  ids := List.replicate (n+1) ⟨1, 0⟩
  text := [0]
  nonempty := by simp
  countable := by rwa [List.length_replicate]
  inside s hs := by
    obtain rfl := List.eq_of_mem_replicate hs
    obtain ⟨hpos, hdrop⟩ := drop_repeated o (n+1)
    exact ⟨hpos, by simp [hdrop]⟩

theorem StrgData.string_repeated (o : ByteOrder) (n : Nat) (hn : n+1 < 2^32) :
    (StrgData.repeated o n hn).string ⟨1, 0⟩ = [] := by
  rw [StrgData.string]
  change ((strgBytes o (List.replicate (n+1) ⟨1, 0⟩) [0]).drop
    (stringPosition (List.replicate (n+1) ⟨1, 0⟩) ⟨1, 0⟩).toNat).takeWhile (· != 0) = []
  rw [(drop_repeated o (n+1)).2]
  rfl

def MarkData.single (id : UInt32) : MarkData :=
  ⟨0, [⟨0, 0, id, List.replicate 8 0, 0, rfl⟩], by simp, by simp⟩

def RegnData.single : RegnData :=
  ⟨0, [⟨0, 0, [⟨markerTypeRegionStart, 0, 1, List.replicate 8 0, 0, rfl⟩,
    ⟨markerTypeRegionEnd, 0, 1, List.replicate 8 0, 0, rfl⟩], _, _, rfl, rfl, by simp⟩],
    by simp, by simp⟩

theorem not_reads_many (k n : Nat) (hn : n+1 < 2^32) (hmany : 2^32 ≤ k*(n+1)) :
    ¬ ReadsStored .little false (List.replicate k (.repeated .little n hn)) [] [] := by
  intro h
  have hplain : (StrgData.repeated .little n hn).Plain false := by
    refine ⟨nofun, fun s hs => ?_⟩
    obtain rfl := List.eq_of_mem_replicate hs
    rw [StrgData.string_repeated]
    decide
  have hfew := h.few_strings fun d hd => List.eq_of_mem_replicate hd ▸ hplain
  have hids : (StrgData.repeated .little n hn).ids.length = n+1 := List.length_replicate
  have hlength : ((List.replicate k (StrgData.repeated .little n hn)).flatMap
      StrgData.ids).length = k*(n+1) := by
    rw [List.length_flatMap, List.map_replicate, List.sum_replicate_nat, hids]
  exact absurd hfew (not_lt.mpr (hmany.trans hlength.ge))

theorem wellFormed_read_fails :
    ¬ ReadsStored .little false [] (List.replicate (2^32) (.single 1)) [] ∧
    ¬ ReadsStored .little false [] [] (List.replicate (2^32) .single) ∧
    ¬ ReadsStored .little false
      (List.replicate 16 (.repeated .little (2^28-1) (by decide))) [] [] ∧
    ¬ ReadsStored .little true [⟨[⟨0x41000042, -12⟩], [], by simp, by decide, by decide⟩]
      [.single 0x41000042] [] := by
  refine ⟨fun h => ?_, fun h => ?_, fun h => ?_, ?_⟩
  · have hfew := h.few_mark
    rw [List.length_replicate] at hfew
    exact absurd hfew (Nat.lt_irrefl _)
  · have hfew := h.few_regn
    rw [List.length_replicate] at hfew
    exact absurd hfew (Nat.lt_irrefl _)
  · exact not_reads_many 16 (2^28-1) (by decide) (by decide) h
  · -- the label lies in its own string ID, which the reader has turned round
    rintro ⟨enough, h⟩
    have hread : readStored .little true
        [⟨[⟨0x41000042, -12⟩], [], by simp, by decide, by decide⟩] [.single 0x41000042] []
        (enough+2) = .ok ([⟨0, .strncpy [66]⟩], []) := by rfl
    rw [h (enough+2) (by omega), Except.ok.injEq] at hread
    exact absurd hread (by decide)

end Ambix
