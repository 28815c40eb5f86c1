import Ambix.MarkerRegionStrings

/-! When the marker and region reader stays inside its chunks and its string table and
comes to an end. Counts, markers and regions never lead outside; only the labels of
`strg` chunks, the size of the table and the number of chunks can. -/
namespace Ambix
open Machine StringsBuffer

section conditions
variable (o : ByteOrder) (swap : Bool)

/-- How many of `n` strings from number `i` on are stored: those before the first offset
that is too large. -/
def usedFrom (b : List UInt8) : Nat → Nat → Nat
  | 0, _ => 0
  | n+1, i =>
    if (b.length-strgStart o b : Int) ≤ byteoffsetAt o b i then 0 else usedFrom b n (i+1)+1

def strgUsed (b : List UInt8) : Nat :=
  if 4 < b.length then usedFrom o b (strgCount o b).toNat 0 else 0

def labelBytes (b : List UInt8) (i : Nat) : List UInt8 :=
  (strgSeen swap b (i+1)).drop (strgStart o b+byteoffsetAt o b i : Int).toNat

/-- Label `i` starts in its chunk and is terminated there, and the 32-bit size of its copy
does not wrap. -/
def LabelSafe (b : List UInt8) (i : Nat) : Prop :=
  0 ≤ (strgStart o b+byteoffsetAt o b i : Int) ∧ 0 ∈ labelBytes o swap b i ∧
    ((labelBytes o swap b i).takeWhile (· != 0)).length % 2^32 ≠ 2^32-1

/-- Chunk after chunk, with `n` strings in the table before: its size does not wrap at 32
bits, and all labels that are stored are safe. -/
def StringsSafe : Nat → List (List UInt8) → Prop
  | _, [] => True
  | n, b :: bs => (4 < b.length → n+(strgCount o b).toNat < 2^32) ∧
      (∀ i, i < strgUsed o b → LabelSafe o swap b i) ∧ StringsSafe (n+strgUsed o b) bs

def tableEntries : List (List UInt8) → Option (List (UInt32 × List UInt8))
  | [] => some []
  | b :: bs =>
    (if 4 < b.length then decodeStrings o swap b (strgCount o b).toNat 0 else some []).bind
      fun es => (tableEntries bs).map (es ++ ·)

end conditions

theorem ofNat_add_one_eq_zero (n : Nat) : UInt32.ofNat n+1 = 0 ↔ n % 2^32 = 2^32-1 := by
  rw [← UInt32.toNat_inj, UInt32.toNat_add, UInt32.toNat_ofNat', UInt32.toNat_one,
    UInt32.toNat_zero]
  omega

section strings
variable {o : ByteOrder} {swap : Bool} {b : List UInt8}

theorem usedFrom_le (n i : Nat) : usedFrom o b n i ≤ n := by
  induction n generalizing i with
  | zero => exact le_rfl
  | succ n ih =>
    rw [usedFrom]
    split
    · exact Nat.zero_le _
    · exact Nat.succ_le_succ (ih (i+1))

theorem labelAt_isSome (i : Nat) : (labelAt o swap b i).isSome = true ↔ LabelSafe o swap b i := by
  rw [labelAt, LabelSafe]
  split
  · rename_i hneg
    simp only [Option.isSome_none, Bool.false_eq_true, false_iff, not_and]
    intro h
    omega
  · rename_i hpos
    have hstart : 0 ≤ (strgStart o b+byteoffsetAt o b i : Int) := by omega
    by_cases hnul : 0 ∈ labelBytes o swap b i
    · have hlen := strlen_of_mem hnul
      rw [labelBytes] at hlen
      rw [hlen, Option.bind_some, ← labelBytes]
      split
      · rename_i hwrap
        exact ⟨nofun, fun h => absurd ((ofNat_add_one_eq_zero _).mp hwrap) h.2.2⟩
      · rename_i hwrap
        exact ⟨fun _ => ⟨hstart, hnul, mt (ofNat_add_one_eq_zero _).mpr hwrap⟩, fun _ => rfl⟩
    · have hnone := Option.not_isSome_iff_eq_none.mp (mt (strlen_isSome _).mp hnul)
      rw [labelBytes] at hnone
      rw [hnone, Option.bind_none]
      exact ⟨nofun, fun h => absurd h.2.1 hnul⟩

theorem decodeStrings_length {new : List (UInt32 × List UInt8)} (n i : Nat)
    (h : decodeStrings o swap b n i = some new) : new.length = usedFrom o b n i := by
  induction n generalizing i new with
  | zero =>
    rw [decodeStrings, Option.some.injEq] at h
    rw [← h]
    rfl
  | succ n ih =>
    rw [decodeStrings] at h
    rw [usedFrom]
    split at h
    · rename_i hend
      rw [if_pos hend, ← Option.some.inj h]
      rfl
    · rename_i hend
      obtain ⟨s, -, h⟩ := Option.bind_eq_some_iff.mp h
      obtain ⟨rest, hrest, rfl⟩ := Option.map_eq_some_iff.mp h
      rw [if_neg hend, List.length_cons, ih (i+1) hrest]

theorem decodeStrings_isSome (n i : Nat) : (∃ new, decodeStrings o swap b n i = some new) ↔
    ∀ j, i ≤ j → j < i+usedFrom o b n i → LabelSafe o swap b j := by
  induction n generalizing i with
  | zero => exact ⟨fun _ j hij hj => by rw [usedFrom] at hj; omega, fun _ => ⟨[], rfl⟩⟩
  | succ n ih =>
    rw [decodeStrings, usedFrom]
    split
    · exact ⟨fun _ j hij hj => by omega, fun _ => ⟨[], rfl⟩⟩
    · constructor
      · rintro ⟨new, h⟩ j hij hj
        obtain ⟨s, hs, h⟩ := Option.bind_eq_some_iff.mp h
        obtain ⟨rest, hrest, -⟩ := Option.map_eq_some_iff.mp h
        by_cases hji : j = i
        · exact hji ▸ (labelAt_isSome i).mp (by rw [hs]; rfl)
        · exact (ih (i+1)).mp ⟨rest, hrest⟩ j (by omega) (by omega)
      · intro h
        obtain ⟨s, hs⟩ := Option.isSome_iff_exists.mp
          ((labelAt_isSome i).mpr (h i le_rfl (by omega)))
        obtain ⟨rest, hrest⟩ := (ih (i+1)).mpr fun j hij hj => h j (by omega) (by omega)
        exact ⟨_, by rw [hs, Option.bind_some, hrest]; rfl⟩

end strings

section fold
variable (host : ByteOrder) (swap : Bool)

theorem strgStep_lost {b : List UInt8} {t r : StringsBuffer} (ht : t.Lost)
    (h : strgStep host swap b t = .ok r) : r.Lost := by
  rw [strgStep] at h
  split at h
  · exact readStringids_lost host swap _ _ _ (ht.realloc _) h
  · exact Except.ok.inj h ▸ ht

theorem strgFold_lost {L : List (List UInt8)} {t r : StringsBuffer} (ht : t.Lost)
    (h : L.foldlM (fun t b => strgStep host swap b t) t = .ok r) : r.Lost := by
  induction L generalizing t with
  | nil => exact Except.ok.inj h ▸ ht
  | cons b L ih =>
    rw [List.foldlM_cons] at h
    obtain ⟨t', ht', h⟩ := bind_eq_ok.mp h
    exact ih (strgStep_lost host swap ht ht') h

/-- A chunk on an intact table: either the table is damaged, or the chunk's strings are
added. -/
theorem strgStep_iff {b : List UInt8} {es : List (UInt32 × List UInt8)} (pad : Nat)
    {r : StringsBuffer} (h4 : 4 < b.length) (hgood : strgGood (host.swapIf swap) b = true)
    (hes : es.length+(strgCount (host.swapIf swap) b).toNat < 2^32) :
    strgStep host swap b (ofEntries es pad) = .ok r ↔
      ∃ new, decodeStrings (host.swapIf swap) swap b (strgCount (host.swapIf swap) b).toNat 0 =
        some new ∧ r = ofEntries (es ++ new)
          ((strgCount (host.swapIf swap) b).toNat-new.length) := by
  have hrealloc := realloc_ofEntries es pad _ hes
  rw [UInt32.ofNat_toNat] at hrealloc
  have hstart : strgStart (host.swapIf swap) b ≤ b.length := by
    rw [strgGood, decide_eq_true_iff] at hgood
    omega
  rw [strgStart] at hstart
  rw [strgStep, if_pos h4, hrealloc]
  exact readStringids_iff host swap b _ 0 (by omega) hes

theorem strgFold_of_safe {L : List (List UInt8)} (es : List (UInt32 × List UInt8)) (pad : Nat)
    (hgood : ∀ b ∈ L, strgGood (host.swapIf swap) b = true) (hes : es.length+pad < 2^32)
    (hsafe : StringsSafe (host.swapIf swap) swap es.length L) :
    ∃ new pad', tableEntries (host.swapIf swap) swap L = some new ∧
      (es ++ new).length+pad' < 2^32 ∧
      L.foldlM (fun t b => strgStep host swap b t) (ofEntries es pad) =
        .ok (ofEntries (es ++ new) pad') := by
  induction L generalizing es pad with
  | nil => exact ⟨[], pad, rfl, by simpa using hes, by rw [List.append_nil]; rfl⟩
  | cons b L ih =>
    obtain ⟨hwrap, hlabels, hrest⟩ := hsafe
    have hgoodL := fun c hc => hgood c (List.mem_cons_of_mem b hc)
    by_cases h4 : 4 < b.length
    · rw [strgUsed, if_pos h4] at hlabels hrest
      obtain ⟨new, hnew⟩ := (decodeStrings_isSome
        (strgCount (host.swapIf swap) b).toNat 0).mpr fun j _ hj => hlabels j (by omega)
      have hlen := decodeStrings_length _ 0 hnew
      have hle := usedFrom_le (o := host.swapIf swap) (b := b)
        (strgCount (host.swapIf swap) b).toNat 0
      have hstep := (strgStep_iff host swap pad h4 (hgood b List.mem_cons_self)
        (hwrap h4)).mpr ⟨new, hnew, rfl⟩
      have hwrap' := hwrap h4
      rw [← hlen, ← List.length_append] at hrest
      obtain ⟨new', pad', htable, hsize, hfold⟩ := ih (es ++ new)
        ((strgCount (host.swapIf swap) b).toNat-new.length) hgoodL
        (by rw [List.length_append]; omega) hrest
      refine ⟨new ++ new', pad', ?_, ?_, ?_⟩
      · rw [tableEntries, if_pos h4, hnew, Option.bind_some, htable]
        rfl
      · rwa [← List.append_assoc]
      · rw [List.foldlM_cons, hstep, ok_bind, hfold, List.append_assoc]
    · rw [strgUsed, if_neg h4, Nat.add_zero] at hrest
      obtain ⟨new, pad', htable, hsize, hfold⟩ := ih es pad hgoodL hes hrest
      refine ⟨new, pad', ?_, hsize, ?_⟩
      · rw [tableEntries, if_neg h4, Option.bind_some, htable]
        rfl
      · rw [List.foldlM_cons, strgStep, if_neg h4]
        exact hfold

theorem safe_of_strgFold {L : List (List UInt8)} (es : List (UInt32 × List UInt8)) (pad : Nat)
    {r : StringsBuffer} (hgood : ∀ b ∈ L, strgGood (host.swapIf swap) b = true)
    (hes : es.length+pad < 2^32)
    (h : L.foldlM (fun t b => strgStep host swap b t) (ofEntries es pad) = .ok r) :
    StringsSafe (host.swapIf swap) swap es.length L ∨ r.Lost := by
  induction L generalizing es pad with
  | nil => exact Or.inl trivial
  | cons b L ih =>
    have hgoodL := fun c hc => hgood c (List.mem_cons_of_mem b hc)
    rw [List.foldlM_cons] at h
    obtain ⟨t, ht, h⟩ := bind_eq_ok.mp h
    by_cases h4 : 4 < b.length
    · by_cases hwrap : es.length+(strgCount (host.swapIf swap) b).toNat < 2^32
      · obtain ⟨new, hnew, rfl⟩ := (strgStep_iff host swap pad h4 (hgood b List.mem_cons_self)
          hwrap).mp ht
        have hlen := decodeStrings_length _ 0 hnew
        have hle := usedFrom_le (o := host.swapIf swap) (b := b)
          (strgCount (host.swapIf swap) b).toNat 0
        have hused : strgUsed (host.swapIf swap) b = new.length := by
          rw [strgUsed, if_pos h4, hlen]
        refine (ih _ _ hgoodL (by rw [List.length_append]; omega) h).imp (fun hsafe => ?_) id
        refine ⟨fun _ => hwrap, fun i hi => ?_, ?_⟩
        · rw [hused, hlen] at hi
          exact (decodeStrings_isSome _ 0).mp ⟨new, hnew⟩ i (Nat.zero_le i) (by omega)
        · rw [hused, ← List.length_append]
          exact hsafe
      · have hlost : t.Lost := by
          rw [strgStep, if_pos h4] at ht
          exact readStringids_lost host swap _ _ _
            (lost_of_wrap _ (by omega) (by omega)) ht
        exact Or.inr (strgFold_lost host swap hlost h)
    · rw [strgStep, if_neg h4] at ht
      obtain rfl := Except.ok.inj ht
      refine (ih es pad hgoodL hes h).imp (fun hsafe => ?_) id
      have hused : strgUsed (host.swapIf swap) b = 0 := if_neg h4
      exact ⟨fun h => absurd h h4, fun i hi => by omega, by rwa [hused, Nat.add_zero]⟩

end fold

/-! The whole reader. -/

section reader
variable (host : ByteOrder) (swap : Bool) (strg mark regn : List (List UInt8))

/-- Every access of the reader is inside its chunk or its table, and the reader ends. -/
def ReaderInside : Prop := ∃ fuel r, readMarkersregions host swap strg mark regn fuel = .ok r

/-- What the chunks must be like for that, `o` being the byte order of the file. -/
structure ReaderSafe (o : ByteOrder) : Prop where
  strgEnds : (scanned (strgGood o) strg).length < 2^32
  strings : StringsSafe o swap 0 (scanned (strgGood o) strg)
  markEnds : (scanned (markGood o) mark).length < 2^32
  regnEnds : (scanned (regnGood o) regn).length < 2^32

def fileMarkers (o : ByteOrder) (es : List (UInt32 × List UInt8)) : List Marker :=
  (scanned (markGood o) mark).flatMap (chunkMarkers o es)
def fileRegions (o : ByteOrder) (es : List (UInt32 × List UInt8)) : List Region :=
  (scanned (regnGood o) regn).flatMap (chunkRegions o es)

theorem scanned_le (good : List UInt8 → Bool) (chunks : List (List UInt8)) :
    (scanned good chunks).length ≤ chunks.length := (List.takeWhile_sublist _).length_le

theorem scanned_good (good : List UInt8 → Bool) (chunks : List (List UInt8)) :
    ∀ b ∈ scanned good chunks, good b = true := by
  intro b hb
  have h := List.mem_takeWhile_imp hb
  simp only [Bool.and_eq_true] at h
  exact h.2

theorem foldlM_append {α β : Type} (f : α → List β) (L : List α) (acc : List β) :
    L.foldlM (fun acc b => (.ok (acc ++ f b) : Checked (List β))) acc =
      .ok (acc ++ L.flatMap f) := by
  induction L generalizing acc with
  | nil => exact congrArg Except.ok (List.append_nil acc).symm
  | cons b L ih => rw [List.foldlM_cons, ok_bind, ih, List.flatMap_cons, List.append_assoc]

variable {strg mark regn}

theorem readMarkersregions_of_safe (hsafe : ReaderSafe swap strg mark regn (host.swapIf swap))
    (fuel : Nat) (hstrg : strg.length < fuel) (hmark : mark.length < fuel)
    (hregn : regn.length < fuel) :
    ∃ es, tableEntries (host.swapIf swap) swap (scanned (strgGood (host.swapIf swap)) strg) =
        some es ∧
      readMarkersregions host swap strg mark regn fuel =
        .ok (fileMarkers mark (host.swapIf swap) es, fileRegions regn (host.swapIf swap) es) := by
  obtain ⟨es, pad, hes, hsize, hfold⟩ := strgFold_of_safe host swap [] 0
    (scanned_good _ strg) (by simp) hsafe.strings
  rw [List.nil_append] at hsize hfold
  have hlen : es.length < 2^32 := by omega
  have hstrings := whileChunks_complete (readStrgChunk_eq host swap) (k := 0)
    (by simpa using hsafe.strgEnds) hfold (lt_of_le_of_lt (scanned_le _ _) hstrg)
  have hmarkers := whileChunks_complete (readMarkChunk_eq host swap pad hlen) (k := 0)
    (by simpa using hsafe.markEnds) (foldlM_append _ _ []) (lt_of_le_of_lt (scanned_le _ _) hmark)
  have hregions := whileChunks_complete (readRegnChunk_eq host swap pad hlen) (k := 0)
    (by simpa using hsafe.regnEnds) (foldlM_append _ _ []) (lt_of_le_of_lt (scanned_le _ _) hregn)
  change whileChunks _ strg fuel 0 (ofEntries [] 0) = _ at hstrings
  refine ⟨es, hes, ?_⟩
  rw [readMarkersregions, empty_eq, hstrings, ok_bind]
  change (whileChunks _ mark fuel (UInt32.ofNat 0) [] >>= _) = _
  rw [hmarkers, ok_bind]
  change (whileChunks _ regn fuel (UInt32.ofNat 0) [] >>= _) = _
  rw [hregions, ok_bind, free_ofEntries hlen]
  rfl

theorem safe_of_readMarkersregions {fuel : Nat} {r : List Marker × List Region}
    (h : readMarkersregions host swap strg mark regn fuel = .ok r) :
    ReaderSafe swap strg mark regn (host.swapIf swap) := by
  obtain ⟨t, ht, h⟩ := bind_eq_ok.mp h
  obtain ⟨markers, hmarkers, h⟩ := bind_eq_ok.mp h
  obtain ⟨regions, hregions, h⟩ := bind_eq_ok.mp h
  obtain ⟨u, hfree, -⟩ := bind_eq_ok.mp h
  obtain ⟨hstrgEnds, hfold⟩ := (whileChunks_iff (readStrgChunk_eq host swap)).mp ⟨fuel, ht⟩
  have hgood := scanned_good (strgGood (host.swapIf swap)) strg
  have hsafe : StringsSafe (host.swapIf swap) swap 0 (scanned (strgGood (host.swapIf swap)) strg) :=
    (safe_of_strgFold host swap [] 0 hgood (by simp) hfold).resolve_right
      fun hlost => hlost.not_free hfree
  -- so the table is intact where the markers and regions are read
  obtain ⟨es, pad, -, hsize, hfold'⟩ := strgFold_of_safe host swap [] 0 hgood (by simp) hsafe
  have hlen : es.length < 2^32 := by
    rw [List.nil_append] at hsize
    omega
  obtain rfl : t = ofEntries es pad := Except.ok.inj (hfold.symm.trans hfold')
  exact ⟨hstrgEnds, hsafe,
    ((whileChunks_iff (readMarkChunk_eq host swap pad hlen)).mp ⟨fuel, hmarkers⟩).1,
    ((whileChunks_iff (readRegnChunk_eq host swap pad hlen)).mp ⟨fuel, hregions⟩).1⟩

theorem readerInside_iff :
    ReaderInside host swap strg mark regn ↔ ReaderSafe swap strg mark regn (host.swapIf swap) := by
  constructor
  · rintro ⟨fuel, r, h⟩
    exact safe_of_readMarkersregions host swap h
  · intro hsafe
    obtain ⟨es, -, h⟩ := readMarkersregions_of_safe host swap hsafe
      (strg.length+mark.length+regn.length+1) (by omega) (by omega) (by omega)
    exact ⟨_, _, h⟩

end reader

/-- One string with the offset -17, that is one byte in front of its chunk. -/
theorem readerInside_fails : ¬ ReaderInside .little false
    [[1, 0, 0, 0, 1, 0, 0, 0, 0xef, 0xff, 0xff, 0xff, 0xff, 0xff, 0xff, 0xff]] [] [] := by
  rintro ⟨fuel, r, h⟩
  obtain ⟨-, ⟨-, hlabel, -⟩, -, -⟩ := safe_of_readMarkersregions .little false h
  have hstart := (hlabel 0 (by decide)).1
  exact absurd hstart (by decide)

end Ambix
