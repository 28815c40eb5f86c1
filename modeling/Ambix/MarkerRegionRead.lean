import Ambix.CafRecords
import Mathlib.Data.List.TakeWhile

/-! Reading markers and regions: `_ambix_read_markersregions` with every access to a
chunk or to the string table checked. The chunks of one id are a list; a loop over
them runs on fuel, since its 32-bit counter may come round again. -/
namespace Ambix
open Machine

section chunkLoop
variable {σ : Type}

/-- `_ambix_read_chunk` on the chunks of one id; `none` is the reported length 0. -/
def readChunk (chunks : List (List UInt8)) (chunkIt : UInt32) : Option (List UInt8) :=
  match chunks[chunkIt.toNat]? with
  | some [] => none
  | some (b :: bs) => some (b :: bs)
  | none => none

/-- `while(datasize) { data = _ambix_read_chunk(.., chunk_it++, &datasize); .. }`; the
body answers `none` where it breaks. -/
def whileChunks (body : List UInt8 → σ → Checked (Option σ)) (chunks : List (List UInt8)) :
    Nat → UInt32 → σ → Checked σ
  | 0, _, _ => .error .outOfFuel
  | fuel+1, chunkIt, s =>
    match readChunk chunks chunkIt with
    | none => .ok s
    | some b => do
      match ← body b s with
      | none => .ok s
      | some s => whileChunks body chunks fuel (chunkIt+1) s

/-! What such a loop does. With `good` for the chunks it does not break at, it
processes the chunks before the first empty or bad one, provided there are fewer of
them than its counter can tell apart. -/

def scanned (good : List UInt8 → Bool) (chunks : List (List UInt8)) : List (List UInt8) :=
  chunks.takeWhile fun b => !b.isEmpty && good b

section rule
variable {good : List UInt8 → Bool} {step : List UInt8 → σ → Checked σ}
  {body : List UInt8 → σ → Checked (Option σ)} {chunks : List (List UInt8)} {s r : σ} {fuel : Nat}

theorem readChunk_ofNat {k : Nat} (hk : k < 2^32) :
    readChunk chunks (UInt32.ofNat k) = match chunks.drop k with
      | [] => none
      | b :: _ => if b = [] then none else some b := by
  have hmod : (UInt32.ofNat k).toNat = k := by
    rw [UInt32.toNat_ofNat']
    omega
  rw [readChunk, hmod, ← List.head?_drop]
  cases hd : chunks.drop k with
  | nil => rfl
  | cons b bs => cases b <;> rfl

theorem scanned_cons (b : List UInt8) (bs : List (List UInt8)) :
    scanned good (b :: bs) = if b ≠ [] ∧ good b = true then b :: scanned good bs else [] := by
  cases b <;> simp [scanned, List.takeWhile_cons]

theorem scanned_drop {k : Nat} {b : List UInt8} {bs : List (List UInt8)}
    (hd : scanned good (chunks.drop k) = b :: bs) :
    bs = scanned good (chunks.drop (k+1)) ∧ chunks[k]? = some b ∧ b ≠ [] ∧ good b = true := by
  cases hk : chunks.drop k with
  | nil =>
    rw [hk] at hd
    cases hd
  | cons c cs =>
    rw [hk, scanned_cons] at hd
    split at hd
    · rename_i hc
      obtain ⟨rfl, rfl⟩ := List.cons.inj hd
      have hdrop : chunks.drop (k+1) = cs := by
        rw [← List.drop_drop, hk, List.drop_succ_cons, List.drop_zero]
      have hat : chunks[k]? = some c := by rw [← List.head?_drop, hk, List.head?_cons]
      exact ⟨by rw [hdrop], hat, hc⟩
    · cases hd

theorem whileChunks_succ
    (hbody : ∀ b s, body b s = if good b then some <$> step b s else .ok none) {k : Nat}
    (hk : k < 2^32) :
    whileChunks body chunks (fuel+1) (UInt32.ofNat k) s =
      match scanned good (chunks.drop k) with
      | [] => .ok s
      | b :: _ => step b s >>= whileChunks body chunks fuel (UInt32.ofNat (k+1)) := by
  rw [whileChunks, readChunk_ofNat hk, UInt32.ofNat_add, UInt32.ofNat_one]
  cases chunks.drop k with
  | nil => rfl
  | cons b bs =>
    rw [scanned_cons]
    dsimp only
    by_cases hb : b = []
    · rw [if_pos hb, if_neg fun hc => hc.1 hb]
    · rw [if_neg hb]
      dsimp only
      rw [hbody]
      by_cases hgood : good b = true
      · rw [if_pos hgood, if_pos ⟨hb, hgood⟩]
        dsimp only
        cases step b s <;> rfl
      · rw [if_neg hgood, if_neg fun hc => hgood hc.2]
        rfl

theorem whileChunks_diverges
    (hbody : ∀ b s, body b s = if good b then some <$> step b s else .ok none)
    (hall : ∀ k, k < 2^32 → ∃ b, chunks[k]? = some b ∧ b ≠ [] ∧ good b = true)
    (chunkIt : UInt32) : whileChunks body chunks fuel chunkIt s ≠ .ok r := by
  induction fuel generalizing chunkIt s with
  | zero =>
    intro h
    cases h
  | succ fuel ih =>
    intro h
    obtain ⟨b, hb, hne, hgood⟩ := hall chunkIt.toNat chunkIt.toNat_lt
    have hread : readChunk chunks chunkIt = some b := by
      rw [readChunk, hb]
      cases b with
      | nil => exact absurd rfl hne
      | cons x xs => rfl
    rw [whileChunks, hread] at h
    dsimp only at h
    rw [hbody, if_pos hgood] at h
    obtain ⟨o, ho, h⟩ := bind_eq_ok.mp h
    obtain ⟨s', hs', rfl⟩ := map_eq_ok.mp ho
    exact ih _ h

theorem whileChunks_of_ok
    (hbody : ∀ b s, body b s = if good b then some <$> step b s else .ok none) {k : Nat}
    (hk : k < 2^32) (hpre : ∀ j, j < k → ∃ b, chunks[j]? = some b ∧ b ≠ [] ∧ good b = true)
    (h : whileChunks body chunks fuel (UInt32.ofNat k) s = .ok r) :
    k+(scanned good (chunks.drop k)).length < 2^32 ∧
      (scanned good (chunks.drop k)).foldlM (fun s b => step b s) s = .ok r := by
  induction fuel generalizing k s with
  | zero => cases h
  | succ fuel ih =>
    rw [whileChunks_succ hbody hk] at h
    cases hs : scanned good (chunks.drop k) with
    | nil =>
      rw [hs] at h
      exact ⟨hk, h⟩
    | cons b bs =>
      rw [hs] at h
      obtain ⟨hbs, hat, hgood⟩ := scanned_drop hs
      obtain ⟨s', hs', h⟩ := bind_eq_ok.mp h
      have hpre' : ∀ j, j < k+1 → ∃ b, chunks[j]? = some b ∧ b ≠ [] ∧ good b = true := by
        intro j hj
        by_cases hjk : j = k
        · exact ⟨b, hjk ▸ hat, hgood⟩
        · exact hpre j (by omega)
      have hlast : k+1 < 2^32 := by
        by_contra hover
        exact whileChunks_diverges hbody (fun j hj => hpre' j (by omega)) _ h
      obtain ⟨hlen, hrun⟩ := ih hlast hpre' h
      rw [← hbs] at hlen hrun
      rw [List.length_cons, List.foldlM_cons, hs', ok_bind]
      exact ⟨by omega, hrun⟩

theorem whileChunks_complete
    (hbody : ∀ b s, body b s = if good b then some <$> step b s else .ok none) {k : Nat}
    (hlen : k+(scanned good (chunks.drop k)).length < 2^32)
    (hrun : (scanned good (chunks.drop k)).foldlM (fun s b => step b s) s = .ok r)
    (hfuel : (scanned good (chunks.drop k)).length < fuel) :
    whileChunks body chunks fuel (UInt32.ofNat k) s = .ok r := by
  induction fuel generalizing k s with
  | zero => omega
  | succ fuel ih =>
    rw [whileChunks_succ hbody (by omega)]
    cases hs : scanned good (chunks.drop k) with
    | nil =>
      rw [hs] at hrun
      exact hrun
    | cons b bs =>
      obtain ⟨hbs, -⟩ := scanned_drop hs
      rw [hs, List.length_cons] at hlen hfuel
      rw [hs, List.foldlM_cons] at hrun
      obtain ⟨s', hs', hrun⟩ := bind_eq_ok.mp hrun
      dsimp only
      rw [hs', ok_bind]
      rw [hbs] at hlen hrun hfuel
      exact ih (by omega) hrun (by omega)

/-- The loop ends with `r` exactly if its counter does not come round before the first
empty or bad chunk and the chunks up to there give `r`. -/
theorem whileChunks_iff
    (hbody : ∀ b s, body b s = if good b then some <$> step b s else .ok none) :
    (∃ fuel, whileChunks body chunks fuel 0 s = .ok r) ↔
      (scanned good chunks).length < 2^32 ∧
        (scanned good chunks).foldlM (fun s b => step b s) s = .ok r := by
  constructor
  · rintro ⟨fuel, h⟩
    have hok := whileChunks_of_ok hbody (k := 0) (by decide) (fun j hj => by omega) h
    simpa using hok
  · rintro ⟨hlen, hrun⟩
    exact ⟨_, whileChunks_complete hbody (k := 0) (by simpa using hlen) (by simpa using hrun)
      (Nat.lt_succ_self _)⟩

end rule
end chunkLoop

/-- `strings_buffer`: `string_ids` and `strings` side by side; `none` is a slot that has
not been stored to since it was allocated. -/
structure StringsBuffer where
  numStrings : UInt32
  slots : List (Option (UInt32 × List UInt8))

namespace StringsBuffer

def empty : StringsBuffer := ⟨0, []⟩

/-- `malloc` or `realloc` of both arrays to `n` slots. -/
def realloc (t : StringsBuffer) (n : UInt32) : StringsBuffer :=
  { t with slots := t.slots.take n.toNat ++ List.replicate (n.toNat-t.slots.length) none }

def slot (t : StringsBuffer) (i : Nat) : Checked (UInt32 × List UInt8) :=
  match t.slots[i]? with
  | some (some e) => .ok e
  | some none => .error (.uninitialised i)
  | none => .error (.outside i t.slots.length)

def push (t : StringsBuffer) (id : UInt32) (string : List UInt8) : Checked StringsBuffer :=
  if t.numStrings.toNat < t.slots.length then
    .ok ⟨t.numStrings+1, t.slots.set t.numStrings.toNat (some (id, string))⟩
  else .error (.outside t.numStrings.toNat t.slots.length)

/-- The strings from slot `i` on, `n` of them. -/
def scan (t : StringsBuffer) (id : UInt32) : Nat → Nat → Checked (Option (List UInt8))
  | 0, _ => .ok none
  | n+1, i => do
    let e ← t.slot i
    if e.1 = id then .ok (some e.2) else t.scan id n (i+1)

def free (t : StringsBuffer) : Checked Unit :=
  loopM (fun i _ => do let _ ← t.slot i; .ok ()) t.numStrings.toNat ()

end StringsBuffer

def getStringFromBuffer (buffer : StringsBuffer) (id : UInt32) : Checked (Option (List UInt8)) :=
  buffer.scan id buffer.numStrings.toNat 0

/-- `strncpy(name, string, 255)` into a zeroed `char[256]`. -/
def Name.strncpy (string : List UInt8) : Name where
  bytes := (string.takeWhile (· != 0)).take 255
  nonul h := by
    have h0 := List.mem_takeWhile_imp (List.mem_of_mem_take h)
    simp at h0
  fits := by simp

/-- `name` after the copy of a string that may be missing. -/
def Name.copyFrom (name : Name) : Option (List UInt8) → Name
  | some string => .strncpy string
  | none => name

/-- `calloc(mString_len+1)` and the copy of the `mString_len` bytes at `pos`; the size of the
new block is computed in 32 bits. -/
def copyString (b : List UInt8) (pos : Nat) (mString_len : UInt32) : Checked (List UInt8) :=
  if mString_len.toNat ≤ (mString_len+1).toNat then .ok (field b pos mString_len.toNat)
  else .error (.outside 0 (mString_len+1).toNat)

theorem copyString_eq (b : List UInt8) (pos : Nat) {len : UInt32} (h : len+1 ≠ 0) :
    copyString b pos len = .ok (field b pos len.toNat) := by
  have hnext : (len+1).toNat ≠ 0 := fun h0 => h (UInt32.toNat_inj.mp h0)
  rw [UInt32.toNat_add, UInt32.toNat_one] at hnext
  have hlt := len.toNat_lt
  rw [copyString, if_pos]
  rw [UInt32.toNat_add, UInt32.toNat_one]
  omega

theorem copyString_error (b : List UInt8) (pos : Nat) {len : UInt32} (h : len+1 = 0) :
    ∃ e, copyString b pos len = .error e := by
  refine ⟨_, if_neg ?_⟩
  have hzero : (len+1).toNat = 0 := by rw [h]; rfl
  rw [hzero]
  rw [UInt32.toNat_add, UInt32.toNat_one] at hzero
  omega

section read
variable (host : ByteOrder) (swap : Bool)

/-- The loop over the string IDs from number `i` on, `n` of them; `strings` is the
offset of `mStrings` and `datasize` their length. -/
def readStringids (strings : Nat) (datasize : Int) :
    Nat → Nat → List UInt8 → StringsBuffer → Checked StringsBuffer
  | 0, _, _, t => .ok t
  | n+1, i, b, t => do
    let pos := 4+sizeofCAFStringID*i
    let b ← swapWhen swap (swapStringid host · pos) b
    let byteoffset ← load64 host b (pos+4)
    -- only too large an offset is refused, not a negative one
    if datasize ≤ byteoffset.toInt64.toInt then .ok t
    else
      let mString := strings+byteoffset.toInt64.toInt
      let id ← load32 host b pos
      let len ← cstrlen b mString
      let string ← copyString b mString.toNat (UInt32.ofNat len)
      let t ← t.push id string
      readStringids strings datasize n (i+1) b t

/-- One `strg` chunk. -/
def readStrgChunk (b : List UInt8) (t : StringsBuffer) : Checked (Option StringsBuffer) :=
  if sizeofCAFStrings < b.length then do
    let b ← swapWhen swap (swap4array host · 0 1) b
    let numEntries ← load32 host b 0
    let strings := sizeofCAFStrings+sizeofCAFStringID*numEntries.toNat
    if b.length < strings then .ok none
    else
      let t := t.realloc (t.numStrings+numEntries)
      some <$> readStringids host swap strings (b.length-strings) numEntries.toNat 0 b t
  else .ok (some t)

/-- The loop over `n` markers from `bytePtr` on. -/
def readMarkers (t : StringsBuffer) :
    Nat → Nat → List UInt8 → List Marker → Checked (List Marker)
  | 0, _, _, markers => .ok markers
  | n+1, bytePtr, b, markers => do
    let b ← swapWhen swap (swapMarker host · bytePtr) b
    let position ← load64 host b (bytePtr+4)
    let id ← load32 host b (bytePtr+12)
    let string ← getStringFromBuffer t id
    readMarkers t n (bytePtr+sizeofCAFMarker) b
      (markers ++ [⟨position, Name.empty.copyFrom string⟩])

/-- One `mark` chunk. -/
def readMarkChunk (t : StringsBuffer) (b : List UInt8) (markers : List Marker) :
    Checked (Option (List Marker)) :=
  if 8 < b.length then do
    let b ← swapWhen swap (swapMarkerChunk host · 0) b
    let numberMarkers ← load32 host b 4
    if b.length < numberMarkers.toNat*sizeofCAFMarker+8 then .ok none
    else some <$> readMarkers host swap t numberMarkers.toNat 8 b markers
  else .ok (some markers)

/-- The loop over the `n` markers of a region, as far as the chunk goes. The state is the
chunk, `data_read` and the region. -/
def readRegionMarkers (t : StringsBuffer) :
    Nat → List UInt8 → Nat → Region → Checked (List UInt8 × Nat × Region)
  | 0, b, dataRead, region => .ok (b, dataRead, region)
  | n+1, b, dataRead, region =>
    if b.length < dataRead+sizeofCAFMarker then .ok (b, dataRead, region)
    else do
      let b ← swapWhen swap (swapMarker host · dataRead) b
      let mType ← load32 host b dataRead
      let position ← load64 host b (dataRead+4)
      let id ← load32 host b (dataRead+12)
      if mType = markerTypeRegionStart then do
        let string ← getStringFromBuffer t id
        readRegionMarkers t n b (dataRead+sizeofCAFMarker)
          { region with startPosition := position, name := region.name.copyFrom string }
      else if mType = markerTypeRegionEnd then
        readRegionMarkers t n b (dataRead+sizeofCAFMarker) { region with endPosition := position }
      else readRegionMarkers t n b (dataRead+sizeofCAFMarker) region

/-- The loop over `n` regions, as far as the chunk goes. -/
def readRegions (t : StringsBuffer) :
    Nat → List UInt8 → Nat → List Region → Checked (List Region)
  | 0, _, _, regions => .ok regions
  | n+1, b, dataRead, regions =>
    if b.length < dataRead+sizeofCAFRegion then .ok regions
    else do
      let b ← swapWhen swap (swapRegion host · dataRead) b
      let numberMarkers ← load32 host b (dataRead+8)
      let (b, dataRead, region) ← readRegionMarkers host swap t numberMarkers.toNat b
        (dataRead+sizeofCAFRegion) ⟨0, 0, Name.empty⟩
      readRegions t n b dataRead (regions ++ [region])

/-- One `regn` chunk. -/
def readRegnChunk (t : StringsBuffer) (b : List UInt8) (regions : List Region) :
    Checked (Option (List Region)) :=
  if 8 < b.length then do
    let b ← swapWhen swap (swapRegionChunk host · 0) b
    let numberRegions ← load32 host b 4
    if b.length < numberRegions.toNat*(sizeofCAFRegion+sizeofCAFMarker)+sizeofCAFRegionChunk then
      .ok none
    else some <$> readRegions host swap t numberRegions.toNat b 8 regions
  else .ok (some regions)

/-- `_ambix_read_markersregions` on the `strg`, `mark` and `regn` chunks of a file: the
markers and regions it adds. -/
def readMarkersregions (strg mark regn : List (List UInt8)) (fuel : Nat) :
    Checked (List Marker × List Region) := do
  let mystrings ← whileChunks (readStrgChunk host swap) strg fuel 0 .empty
  let markers ← whileChunks (readMarkChunk host swap mystrings) mark fuel 0 []
  let regions ← whileChunks (readRegnChunk host swap mystrings) regn fuel 0 []
  mystrings.free
  .ok (markers, regions)

end read
end Ambix
