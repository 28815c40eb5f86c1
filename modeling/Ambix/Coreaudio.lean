import Ambix.Types
import Ambix.UuidChunk

/-! coreaudio.m: how a matrix chunk finds its slot among the `uuid` chunks of a file. A block
of memory is the list of its bytes; `NULL` has none that could be read or filled. -/
namespace Ambix
open Machine

/-- What AudioFile.h and `calloc` answer. -/
structure CoreAudio where
  /-- The size `AudioFileGetUserDataSize` reports for a chunk, as an `UInt32`. -/
  userDataSize : List UInt8 → UInt32
  userDataSize_eq : ∀ chunk, chunk.length < 2^32 → (userDataSize chunk).toNat = chunk.length
  /-- `AudioFileGetUserData` succeeds on a chunk. -/
  reads : UInt32 → Bool
  /-- `AudioFileSetUserData` succeeds on a chunk. -/
  writes : UInt32 → Bool
  /-- There is memory for the bytes of a chunk. -/
  callocs : UInt32 → Bool

/-- `AudioFileSetUserData` on chunk `index` of a file. -/
def setUserData (chunks : List (List UInt8)) (index : Nat) (bytes : List UInt8) :
    List (List UInt8) :=
  if index < chunks.length then chunks.set index bytes else chunks ++ [bytes]

theorem setUserData_last (chunks : List (List UInt8)) (bytes : List UInt8) :
    setUserData chunks chunks.length bytes = chunks ++ [bytes] := if_neg (Nat.lt_irrefl _)

/-- What has been stored is there, and the chunks before it are what they were. -/
theorem setUserData_get {chunks : List (List UInt8)} {index : Nat} (bytes : List UInt8)
    (h : index ≤ chunks.length) :
    (setUserData chunks index bytes)[index]? = some bytes ∧
      ∀ i < index, (setUserData chunks index bytes)[i]? = chunks[i]? := by
  rw [setUserData]
  split
  · rename_i hlt
    constructor
    · rw [List.getElem?_set_self hlt]
    · intro i hi
      rw [List.getElem?_set_ne (by omega)]
  · rename_i hge
    obtain rfl : index = chunks.length := by omega
    constructor
    · exact List.getElem?_concat_length
    · intro i hi
      rw [List.getElem?_append_left hi]

namespace CoreAudio
variable (A : CoreAudio)

def block (pointer : Option (List UInt8)) : List UInt8 := pointer.getD []

/-- `_ambix_write_uuidchunk_at`, with the chunks it leaves in the file. The size is passed on
as an `UInt32`. -/
def writeUuidchunkAt (chunks : List (List UInt8)) (index : UInt32) (data : Option (List UInt8))
    (datasize : Int64) : Checked (Err × List (List UInt8)) := do
  if A.writes index = false then .ok (.unknown, chunks)
  else
    let bytes ← load (block data) 0 (UInt32.ofInt datasize.toInt).toNat
    .ok (.success, setUserData chunks index.toNat bytes)

/-- What one pass of the search makes of `data`, or what the function returns. -/
inductive Pass where
  | next (data : Option (List UInt8))
  | done (err : Err) (chunks : List (List UInt8))

/-- One pass of the loop in `_ambix_write_uuidchunk`. -/
def writePass (chunks : List (List UInt8)) (index : UInt32) (data : Option (List UInt8))
    (datasize : Int64) : Checked Pass := do
  let readdata : Option (List UInt8) := none
  match chunks[index.toNat]? with
  | none =>
    let (err, chunks) ← A.writeUuidchunkAt chunks index data datasize
    .ok (.done err chunks)
  | some chunk =>
    let size := A.userDataSize chunk
    if size = 0 then .ok (.next data)
    else if A.callocs index = false then .ok (.next none)
    else
      -- the new block is assigned to `data`, not to `readdata`
      let data := some (List.replicate size.toNat 0)
      if A.reads index = false then .ok (.done .unknown chunks)
      else
        let readdata ← store (block readdata) 0 (chunk.take size.toNat)
        if size < 16 then .ok (.next data)
        else if checkUUID (← load readdata 0 16) = 1 then
          let (err, chunks) ← A.writeUuidchunkAt chunks index data datasize
          .ok (.done err chunks)
        else .ok (.next data)

/-- `_ambix_write_uuidchunk` from pass `index` on. -/
def search (chunks : List (List UInt8)) (datasize : Int64) :
    Nat → UInt32 → Option (List UInt8) → Checked (Err × List (List UInt8))
  | 0, _, _ => .error .outOfFuel
  | fuel+1, index, data => do
    match ← A.writePass chunks index data datasize with
    | .next data => search chunks datasize fuel (index+1) data
    | .done err chunks => .ok (err, chunks)

def writeUuidchunk (chunks : List (List UInt8)) (data : List UInt8) (datasize : Int64)
    (fuel : Nat) : Checked (Err × List (List UInt8)) :=
  A.search chunks datasize fuel 0 (some data)

/-- The first slot that is unused or holds an ambix chunk. -/
def slot (chunks : List (List UInt8)) : Nat := chunks.findIdx fun chunk => checkUUID chunk = 1

/-- The caller's bytes end up in their slot, and nothing else changes. -/
def StoresCaller (chunks : List (List UInt8)) (data : List UInt8) (datasize : Int64) : Prop :=
  ∃ fuel, A.writeUuidchunk chunks data datasize fuel =
    .ok (.success, setUserData chunks (slot chunks) data)

variable {A} {chunks : List (List UInt8)} {index : UInt32} {data : Option (List UInt8)}
  {datasize : Int64}

/-! One pass. A chunk that would be read stops the run, since the buffer is still `NULL`. -/

/-- A chunk whose scratch block is not allocated. -/
def Skipped (A : CoreAudio) (i : Nat) (chunk : List UInt8) : Prop :=
  A.userDataSize chunk = 0 ∨ A.callocs (UInt32.ofNat i) = false

theorem userDataSize_nil : A.userDataSize [] = 0 :=
  UInt32.toNat_inj.mp (A.userDataSize_eq [] (by decide))

theorem writePass_unused (h : chunks[index.toNat]? = none) :
    A.writePass chunks index data datasize = (do
      let (err, chunks) ← A.writeUuidchunkAt chunks index data datasize
      .ok (.done err chunks)) := by
  rw [writePass, h]

theorem writePass_skipped {chunk : List UInt8} (h : chunks[index.toNat]? = some chunk)
    (hskip : A.Skipped index.toNat chunk) :
    A.writePass chunks index data datasize =
      .ok (.next (if A.userDataSize chunk = 0 then data else none)) := by
  rw [writePass, h]
  by_cases hsize : A.userDataSize chunk = 0
  · simp only [hsize, if_true]
  · rw [Skipped, UInt32.ofNat_toNat, or_iff_right hsize] at hskip
    simp only [hsize, hskip, if_false, if_true]

theorem writePass_reads {chunk : List UInt8} (hreads : ∀ i, A.reads i = true)
    (h : chunks[index.toNat]? = some chunk) (hskip : ¬ A.Skipped index.toNat chunk) :
    A.writePass chunks index data datasize = .error (.outside 0 0) := by
  obtain ⟨hsize, hcalloc⟩ := not_or.mp hskip
  rw [UInt32.ofNat_toNat] at hcalloc
  have hpos : 0 < (chunk.take (A.userDataSize chunk).toNat).length := by
    have hsize' : (A.userDataSize chunk).toNat ≠ 0 := fun h0 => hsize (UInt32.toNat_inj.mp h0)
    have hchunk : chunk.length ≠ 0 := by
      intro h0
      rw [List.length_eq_zero_iff.mp h0] at hsize
      exact hsize userDataSize_nil
    rw [List.length_take]
    omega
  have hfault := store_fails [] 0 (chunk.take (A.userDataSize chunk).toNat) (by simpa using hpos)
  rw [writePass, h]
  simp only [hsize, hcalloc, hreads index, if_false, Bool.true_eq_false, block, Option.getD_none,
    hfault, error_bind]
  rfl

/-! The search. -/

/-- What `data` points to after some chunks have been skipped. -/
def pointerAfter (A : CoreAudio) : List (List UInt8) → Option (List UInt8) → Option (List UInt8)
  | [], data => data
  | chunk :: rest, data =>
    pointerAfter A rest (if A.userDataSize chunk = 0 then data else none)

theorem pointerAfter_none (l : List (List UInt8)) : A.pointerAfter l none = none := by
  induction l with
  | nil => rfl
  | cons chunk rest ih => rwa [pointerAfter, ite_self]

theorem pointerAfter_eq (A : CoreAudio) (l : List (List UInt8)) (data : Option (List UInt8)) :
    (∀ chunk ∈ l, A.userDataSize chunk = 0) ∧ A.pointerAfter l data = data ∨
      ¬ (∀ chunk ∈ l, A.userDataSize chunk = 0) ∧ A.pointerAfter l data = none := by
  induction l generalizing data with
  | nil => exact Or.inl ⟨fun chunk h => (List.not_mem_nil h).elim, rfl⟩
  | cons chunk rest ih =>
    rw [pointerAfter, List.forall_mem_cons]
    by_cases hsize : A.userDataSize chunk = 0
    · simpa only [hsize, if_true, true_and] using ih data
    · right
      rw [if_neg hsize, pointerAfter_none]
      exact ⟨fun h => hsize h.1, rfl⟩

theorem search_unused (h : chunks[index.toNat]? = none) (fuel : Nat) :
    A.search chunks datasize (fuel+1) index data =
      A.writeUuidchunkAt chunks index data datasize := by
  rw [search, writePass_unused h]
  cases A.writeUuidchunkAt chunks index data datasize <;> rfl

theorem search_skipped {chunk : List UInt8} (h : chunks[index.toNat]? = some chunk)
    (hskip : A.Skipped index.toNat chunk) (fuel : Nat) :
    A.search chunks datasize (fuel+1) index data =
      A.search chunks datasize fuel (index+1)
        (if A.userDataSize chunk = 0 then data else none) := by
  rw [search, writePass_skipped h hskip]
  rfl

theorem search_reads {chunk : List UInt8} (hreads : ∀ i, A.reads i = true)
    (h : chunks[index.toNat]? = some chunk) (hskip : ¬ A.Skipped index.toNat chunk)
    (fuel : Nat) : A.search chunks datasize (fuel+1) index data = .error (.outside 0 0) := by
  rw [search, writePass_reads hreads h hskip]
  rfl

theorem search_skips (hcount : chunks.length < 2^32) {i k : Nat} (hik : i+k = chunks.length)
    (hskip : ∀ j chunk, i ≤ j → chunks[j]? = some chunk → A.Skipped j chunk) :
    A.search chunks datasize (k+1) (UInt32.ofNat i) data =
      A.writeUuidchunkAt chunks (UInt32.ofNat chunks.length)
        (A.pointerAfter (chunks.drop i) data) datasize := by
  induction k generalizing i data with
  | zero =>
    obtain rfl : i = chunks.length := hik
    have hi : (UInt32.ofNat chunks.length).toNat = chunks.length := UInt32.toNat_ofNat_of_lt hcount
    have hnone : chunks[(UInt32.ofNat chunks.length).toNat]? = none := by
      rw [hi, List.getElem?_eq_none le_rfl]
    rw [search_unused hnone, List.drop_length, pointerAfter]
  | succ k ih =>
    have hlt : i < chunks.length := by omega
    have hi : (UInt32.ofNat i).toNat = i := UInt32.toNat_ofNat_of_lt (hlt.trans hcount)
    have hget : chunks[(UInt32.ofNat i).toNat]? = some chunks[i] := by
      rw [hi, List.getElem?_eq_getElem hlt]
    have hpass := hskip i chunks[i] le_rfl (List.getElem?_eq_getElem hlt)
    rw [search_skipped hget (hi.symm ▸ hpass), ← UInt32.ofNat_one, ← UInt32.ofNat_add,
      ih (by omega) fun j chunk hj => hskip j chunk (by omega), List.drop_eq_getElem_cons hlt,
      pointerAfter]

theorem search_success (hreads : ∀ i, A.reads i = true) {fuel : Nat}
    {after : List (List UInt8)} (hle : index.toNat ≤ chunks.length)
    (h : A.search chunks datasize fuel index data = .ok (.success, after)) :
    chunks.length < 2^32 ∧
      (∀ j chunk, index.toNat ≤ j → chunks[j]? = some chunk → A.Skipped j chunk) ∧
      A.writeUuidchunkAt chunks (UInt32.ofNat chunks.length)
        (A.pointerAfter (chunks.drop index.toNat) data) datasize = .ok (.success, after) := by
  have hbound := index.toNat_lt
  induction fuel generalizing index data with
  | zero => cases h
  | succ fuel ih =>
    cases hget : chunks[index.toNat]? with
    | none =>
      have hge := List.getElem?_eq_none_iff.mp hget
      have hend : index.toNat = chunks.length := by omega
      have hindex : UInt32.ofNat chunks.length = index := by rw [← hend, UInt32.ofNat_toNat]
      rw [search_unused hget] at h
      rw [hindex, hend, List.drop_length, pointerAfter]
      refine ⟨by omega, fun j chunk hj hchunk => ?_, h⟩
      rw [List.getElem?_eq_none hj] at hchunk
      cases hchunk
    | some chunk =>
      obtain ⟨hlt, hchunk⟩ := List.getElem?_eq_some_iff.mp hget
      by_cases hskip : A.Skipped index.toNat chunk
      · rw [search_skipped hget hskip] at h
        have hmod : (index+1).toNat = (index.toNat+1)%2^32 := UInt32.toNat_add _ _
        obtain ⟨hcount, hrest, hat⟩ := ih (by omega) h (index+1).toNat_lt
        rw [Nat.mod_eq_of_lt (by omega)] at hmod
        rw [hmod] at hrest hat
        refine ⟨hcount, fun j c hj hc => ?_, ?_⟩
        · cases Nat.eq_or_lt_of_le hj with
          | inl heq =>
            subst heq
            rw [← Option.some.inj (hget.symm.trans hc)]
            exact hskip
          | inr hlater => exact hrest j c hlater hc
        · rwa [List.drop_eq_getElem_cons hlt, hchunk, pointerAfter]
      · rw [search_reads hreads hget hskip] at h
        cases h

/-! What is stored. -/

theorem writeUuidchunkAt_end (hwrites : ∀ i, A.writes i = true) (hcount : chunks.length < 2^32) :
    A.writeUuidchunkAt chunks (UInt32.ofNat chunks.length) data datasize =
      (load (block data) 0 (UInt32.ofInt datasize.toInt).toNat).map fun bytes =>
        (.success, chunks ++ [bytes]) := by
  have hindex : (UInt32.ofNat chunks.length).toNat = chunks.length :=
    UInt32.toNat_ofNat_of_lt hcount
  rw [writeUuidchunkAt, hwrites, if_neg (by decide), hindex]
  cases load (block data) 0 (UInt32.ofInt datasize.toInt).toNat with
  | error e => rfl
  | ok bytes =>
    rw [ok_bind, setUserData_last]
    rfl

theorem slot_le (chunks : List (List UInt8)) : slot chunks ≤ chunks.length :=
  List.findIdx_le_length

theorem slot_end : slot chunks = chunks.length ↔ ∀ chunk ∈ chunks, checkUUID chunk ≠ 1 := by
  simp [slot, List.findIdx_eq_length]

/-- When the caller's block is the one that is stored: either no chunk is read at all, or there
is nothing to store and no memory to read a chunk. -/
structure Reached (A : CoreAudio) (chunks : List (List UInt8)) (data : List UInt8) : Prop where
  size : data.length < 2^32
  count : chunks.length < 2^32
  foreign : ∀ chunk ∈ chunks, checkUUID chunk ≠ 1
  kept : (∀ chunk ∈ chunks, A.userDataSize chunk = 0) ∨
    data = [] ∧ ∀ (i : Nat) chunk, chunks[i]? = some chunk → A.Skipped i chunk

theorem StoresCaller.reached {data : List UInt8} (hreads : ∀ i, A.reads i = true)
    (hwrites : ∀ i, A.writes i = true) (hsize : datasize.toInt = data.length)
    (h : A.StoresCaller chunks data datasize) : A.Reached chunks data := by
  obtain ⟨fuel, hrun⟩ := h
  obtain ⟨hcount, hskip, hat⟩ := search_success hreads (Nat.zero_le _) hrun
  rw [writeUuidchunkAt_end hwrites hcount, hsize, UInt32.toNat_zero, List.drop_zero] at hat
  have hmod : (UInt32.ofInt (data.length : Int)).toNat = data.length%2^32 := by
    rw [UInt32.ofInt, UInt32.toNat_ofNat']
    omega
  obtain ⟨bytes, hload, hafter⟩ := map_eq_ok.mp hat
  have hslot : slot chunks = chunks.length := by
    by_contra hne
    have hlen := congrArg List.length (Prod.mk.inj hafter).2
    have hle := slot_le chunks
    rw [setUserData, if_pos (by omega), List.length_append, List.length_set,
      List.length_singleton] at hlen
    omega
  have hbytes : bytes = data := by
    have hstored := (setUserData_get data (slot_le chunks)).1
    rw [← (Prod.mk.inj hafter).2, hslot, List.getElem?_concat_length] at hstored
    exact Option.some.inj hstored
  rw [hmod, hbytes] at hload
  obtain ⟨hfit, hlen⟩ := load_length hload
  rw [Nat.zero_add] at hfit
  refine ⟨by omega, hcount, slot_end.mp hslot, ?_⟩
  rcases A.pointerAfter_eq chunks (some data) with ⟨hzero, -⟩ | ⟨-, hnone⟩
  · exact Or.inl hzero
  · right
    rw [hnone] at hfit
    have hzero : data.length = 0 := hlen.trans (Nat.eq_zero_of_le_zero hfit)
    exact ⟨List.length_eq_zero_iff.mp hzero, fun i chunk => hskip i chunk (Nat.zero_le i)⟩

theorem Reached.storesCaller {data : List UInt8} (hwrites : ∀ i, A.writes i = true)
    (hsize : datasize.toInt = data.length) (h : A.Reached chunks data) :
    A.StoresCaller chunks data datasize := by
  have hskip : ∀ (i : Nat) chunk, 0 ≤ i → chunks[i]? = some chunk → A.Skipped i chunk := by
    intro i chunk _ hchunk
    rcases h.kept with hzero | ⟨-, hskip⟩
    · exact Or.inl (hzero chunk (List.mem_of_getElem? hchunk))
    · exact hskip i chunk hchunk
  refine ⟨chunks.length+1, ?_⟩
  have hrun : A.writeUuidchunk chunks data datasize (chunks.length+1) = _ :=
    search_skips h.count (Nat.zero_add _) hskip
  rw [writeUuidchunkAt_end hwrites h.count, hsize, List.drop_zero] at hrun
  have hmod : (UInt32.ofInt (data.length : Int)).toNat = data.length := by
    have hlt := h.size
    rw [UInt32.ofInt, UInt32.toNat_ofNat']
    omega
  refine hrun.trans ?_
  rw [slot_end.mpr h.foreign, setUserData_last, hmod]
  rcases A.pointerAfter_eq chunks (some data) with ⟨-, hkept⟩ | ⟨hread, hnone⟩
  · rw [hkept, block, Option.getD_some, load_eq_ok _ _ _ (by omega), field, List.drop_zero,
      List.take_length]
    rfl
  · rcases h.kept with hzero | ⟨rfl, -⟩
    · exact absurd hzero hread
    · rw [hnone]
      rfl

/-- The caller's bytes are stored exactly where the search reads no chunk. -/
theorem storesCaller_iff {data : List UInt8} (hreads : ∀ i, A.reads i = true)
    (hwrites : ∀ i, A.writes i = true) (hsize : datasize.toInt = data.length) :
    A.StoresCaller chunks data datasize ↔ A.Reached chunks data :=
  ⟨StoresCaller.reached hreads hwrites hsize, Reached.storesCaller hwrites hsize⟩

def healthy : CoreAudio where
  userDataSize chunk := UInt32.ofNat chunk.length
  userDataSize_eq _ h := UInt32.toNat_ofNat_of_lt h
  reads _ := true
  writes _ := true
  callocs _ := true

/-- A file with an empty chunk. -/
theorem storesCaller_empty : healthy.StoresCaller [[]] [1, 2, 3] 3 :=
  (storesCaller_iff (fun _ => rfl) (fun _ => rfl) rfl).mpr
    ⟨by decide, by decide, by decide, Or.inl (by decide)⟩

/-- A file with the chunk of an earlier matrix: the search reads it through `NULL`. -/
theorem storesCaller_fails :
    ¬ healthy.StoresCaller [uuidV1] [1, 2, 3] 3 ∧
      ∀ fuel, healthy.writeUuidchunk [uuidV1] [1, 2, 3] 3 (fuel+1) = .error (.outside 0 0) := by
  have hrun : ∀ fuel, healthy.writeUuidchunk [uuidV1] [1, 2, 3] 3 (fuel+1) =
      .error (.outside 0 0) := fun _ => rfl
  refine ⟨fun ⟨fuel, h⟩ => ?_, hrun⟩
  cases fuel with
  | zero => cases h
  | succ fuel => cases (hrun fuel).symm.trans h

end CoreAudio
end Ambix
