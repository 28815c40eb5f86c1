import Ambix.Coreaudio
import Ambix.KeptFrames

/-! coreaudio.m: how the matrix chunk of a file is found for reading. Both backends find the same
matrix where AudioFile.h and `calloc` do not fail. -/
namespace Ambix
open Machine

namespace CoreAudio
variable {K : Type} [Field K] (A : CoreAudio)

inductive Found (K : Type) [Zero K] where
  | next (matrix : AmbixMatrix K)
  | done (err : Err) (matrix : AmbixMatrix K)

/-- One pass of the loop in `read_uuidchunk`, from the size of the chunk on. -/
def readPass (P : Platform K) (swap : Bool) (chunk : List UInt8) (index : UInt32)
    (matrix : AmbixMatrix K) : Found K :=
  let size := A.userDataSize chunk
  if size = 0 then .next matrix
  else if A.callocs index = false then .next matrix
  else if A.reads index = false then .done .unknown matrix
  else
    let data := chunk.take size.toNat
    if data.length < 16 then .next matrix
    else if checkUUID data = 1 then
      let result := uuid1ToMatrix P.host P.number (view (data.drop 16) P.behind)
        (UInt64.ofNat (data.length-16)) (some matrix) swap
      let matrix := result.orgmtx.getD matrix
      if result.ret.isSome then .done .success matrix else .next matrix
    else .next matrix

/-- `read_uuidchunk` from pass `index` on. -/
def readFrom (P : Platform K) (swap : Bool) (chunks : List (List UInt8)) :
    Nat → UInt32 → AmbixMatrix K → Checked (Err × AmbixMatrix K)
  | 0, _, _ => .error .outOfFuel
  | fuel+1, index, matrix =>
    match chunks[index.toNat]? with
    | none => .ok (.unknown, matrix)
    | some chunk =>
      match A.readPass P swap chunk index matrix with
      | .next matrix => readFrom P swap chunks fuel (index+1) matrix
      | .done err matrix => .ok (err, matrix)

def readUuidchunk (P : Platform K) (swap : Bool) (chunks : List (List UInt8)) (fuel : Nat)
    (matrix : AmbixMatrix K) : Checked (Err × AmbixMatrix K) :=
  A.readFrom P swap chunks fuel 0 matrix

instance (i : Nat) (chunk : List UInt8) : Decidable (A.Skipped i chunk) :=
  inferInstanceAs (Decidable (_ ∨ _))

/-- The chunks that are looked at: a chunk without memory is passed over, one that cannot be
read ends the search. -/
def readable : Nat → List (List UInt8) → List (List UInt8)
  | _, [] => []
  | i, chunk :: rest =>
    if A.Skipped i chunk then readable (i+1) rest
    else if A.reads (UInt32.ofNat i) = false then [] else chunk :: readable (i+1) rest

variable {A} {P : Platform K} {swap : Bool} {chunks rest : List (List UInt8)} {chunk : List UInt8}
  {index : UInt32} {matrix : AmbixMatrix K}

/-! One pass. -/

theorem readPass_skipped (hskip : A.Skipped index.toNat chunk) :
    A.readPass P swap chunk index matrix = .next matrix := by
  unfold readPass
  by_cases hsize : A.userDataSize chunk = 0
  · exact if_pos hsize
  · rw [Skipped, UInt32.ofNat_toNat, or_iff_right hsize] at hskip
    exact (if_neg hsize).trans (if_pos hskip)

theorem readPass_fails (hskip : ¬ A.Skipped index.toNat chunk) (hfails : A.reads index = false) :
    A.readPass P swap chunk index matrix = .done .unknown matrix := by
  obtain ⟨hsize, hcalloc⟩ := not_or.mp hskip
  rw [UInt32.ofNat_toNat] at hcalloc
  unfold readPass
  exact (if_neg hsize).trans ((if_neg hcalloc).trans (if_pos hfails))

theorem readPass_judges (hlength : chunk.length < 2^32) (hskip : ¬ A.Skipped index.toNat chunk)
    (hreads : A.reads index ≠ false) : Ambix.readUuidchunk P swap (chunk :: rest) matrix =
      match A.readPass P swap chunk index matrix with
      | .next matrix => Ambix.readUuidchunk P swap rest matrix
      | .done err matrix => (err, matrix) := by
  obtain ⟨hsize, hcalloc⟩ := not_or.mp hskip
  rw [UInt32.ofNat_toNat] at hcalloc
  have htake : chunk.take (A.userDataSize chunk).toNat = chunk := by
    rw [A.userDataSize_eq chunk hlength, List.take_length]
  rw [readPass, Ambix.readUuidchunk]
  dsimp only
  rw [if_neg hsize, if_neg hcalloc, if_neg hreads, htake]
  by_cases hshort : chunk.length < 16
  · rw [if_pos hshort, if_pos hshort]
  rw [if_neg hshort, if_neg hshort]
  by_cases hambix : checkUUID chunk = 1
  · rw [if_pos hambix, if_pos hambix]
    split <;> rfl
  · rw [if_neg hambix, if_neg hambix]

/-! The search. -/

theorem readFrom_readable (hcount : chunks.length < 2^32)
    (hlengths : ∀ chunk ∈ chunks, chunk.length < 2^32) {i fuel : Nat} (hi : i ≤ chunks.length)
    (hrest : chunks.drop i = rest) (hfuel : rest.length < fuel) :
    A.readFrom P swap chunks fuel (UInt32.ofNat i) matrix =
      .ok (Ambix.readUuidchunk P swap (A.readable i rest) matrix) := by
  induction rest generalizing i fuel matrix with
  | nil =>
    obtain ⟨fuel, rfl⟩ : ∃ fuel', fuel = fuel'+1 := ⟨fuel-1, by omega⟩
    have hindex : (UInt32.ofNat i).toNat = i :=
      UInt32.toNat_ofNat_of_lt (Nat.lt_of_le_of_lt hi hcount)
    have hend : chunks[(UInt32.ofNat i).toNat]? = none := by
      rw [hindex, List.getElem?_eq_none_iff]
      exact List.drop_eq_nil_iff.mp hrest
    rw [readFrom, hend]
    rfl
  | cons chunk rest ih =>
    obtain ⟨fuel, rfl⟩ : ∃ fuel', fuel = fuel'+1 := ⟨fuel-1, by omega⟩
    have hindex : (UInt32.ofNat i).toNat = i :=
      UInt32.toNat_ofNat_of_lt (Nat.lt_of_le_of_lt hi hcount)
    have hget : chunks[(UInt32.ofNat i).toNat]? = some chunk := by
      rw [hindex, ← List.head?_drop, hrest, List.head?_cons]
    have hlt : i < chunks.length := by
      have hlength := congrArg List.length hrest
      rw [List.length_drop, List.length_cons] at hlength
      omega
    have hdrop : chunks.drop (i+1) = rest := by
      rw [← List.tail_drop, hrest, List.tail_cons]
    have hnext : UInt32.ofNat i+1 = UInt32.ofNat (i+1) := by
      rw [UInt32.ofNat_add, UInt32.ofNat_one]
    have hfuel' : rest.length < fuel := Nat.lt_of_succ_lt_succ hfuel
    rw [readFrom, hget, readable, hnext]
    dsimp only
    by_cases hskip : A.Skipped i chunk
    · rw [if_pos hskip, readPass_skipped (hindex.symm ▸ hskip)]
      exact ih hlt hdrop hfuel'
    rw [if_neg hskip]
    by_cases hfails : A.reads (UInt32.ofNat i) = false
    · rw [if_pos hfails, readPass_fails (hindex.symm ▸ hskip) hfails]
      rfl
    have hlength := hlengths chunk (List.mem_of_getElem? hget)
    rw [if_neg hfails, readPass_judges hlength (hindex.symm ▸ hskip) hfails]
    cases A.readPass P swap chunk (UInt32.ofNat i) matrix with
    | next matrix => exact ih hlt hdrop hfuel'
    | done err matrix => rfl

theorem readUuidchunk_readable (hcallocs : ∀ i, A.callocs i = true)
    (hreads : ∀ i, A.reads i = true) (hlengths : ∀ chunk ∈ chunks, chunk.length < 2^32) (i : Nat) :
    Ambix.readUuidchunk P swap (A.readable i chunks) matrix =
      Ambix.readUuidchunk P swap chunks matrix := by
  induction chunks generalizing i matrix with
  | nil => rfl
  | cons chunk rest ih =>
    have hrest (matrix' : AmbixMatrix K) :
        Ambix.readUuidchunk P swap (A.readable (i+1) rest) matrix' =
          Ambix.readUuidchunk P swap rest matrix' :=
      ih (fun chunk' h => hlengths chunk' (List.mem_cons_of_mem chunk h)) (i+1)
    rw [readable]
    by_cases hskip : A.Skipped i chunk
    · have hempty : A.userDataSize chunk = 0 :=
        hskip.resolve_right (by rw [hcallocs]; decide)
      have hshort : chunk.length < 16 := by
        rw [← A.userDataSize_eq chunk (hlengths chunk List.mem_cons_self), hempty]
        decide
      rw [if_pos hskip, hrest, Ambix.readUuidchunk.eq_2, if_pos hshort]
    · rw [if_neg hskip, if_neg (by rw [hreads]; decide)]
      simp only [Ambix.readUuidchunk, hrest]

theorem readUuidchunk_looks (hcount : chunks.length < 2^32)
    (hlengths : ∀ chunk ∈ chunks, chunk.length < 2^32) {fuel : Nat} (hfuel : chunks.length < fuel) :
    A.readUuidchunk P swap chunks fuel matrix =
      .ok (Ambix.readUuidchunk P swap (A.readable 0 chunks) matrix) :=
  readFrom_readable hcount hlengths (Nat.zero_le _) rfl hfuel

/-- The search finds what the other backend finds in the chunks it looks at, and that is all of
them if nothing fails. -/
theorem backends_agree (hcount : chunks.length < 2^32)
    (hlengths : ∀ chunk ∈ chunks, chunk.length < 2^32) {fuel : Nat} (hfuel : chunks.length < fuel) :
    A.readUuidchunk P swap chunks fuel matrix =
        .ok (Ambix.readUuidchunk P swap (A.readable 0 chunks) matrix) ∧
      ((∀ i, A.callocs i = true) → (∀ i, A.reads i = true) →
        A.readUuidchunk P swap chunks fuel matrix =
          .ok (Ambix.readUuidchunk P swap chunks matrix)) := by
  refine ⟨readUuidchunk_looks hcount hlengths hfuel, fun hcallocs hreads => ?_⟩
  rw [readUuidchunk_looks hcount hlengths hfuel, readUuidchunk_readable hcallocs hreads hlengths]

/-- An unused chunk before the 1 by 1 identity. -/
theorem backends_agree_identity : ∃ chunks, chunks =
      [[], uuidV1 ++ [1, 0, 0, 0, 1, 0, 0, 0, 0, 0, 0x80, 0x3f]] ∧
    healthy.readUuidchunk unitPlatform false chunks 3 matrixNull =
      .ok (Ambix.readUuidchunk unitPlatform false chunks matrixNull) := by
  refine ⟨_, rfl, (backends_agree ?_ ?_ ?_).2 (fun _ => rfl) fun _ => rfl⟩
  all_goals decide

/-! Files closed by the other backend. -/

section closed
variable [LinearOrder K] {Q : Platform K} {disk : Disk K} {info : Info} {h h0 : Handle K}
  {events : List (Event (Handle K) (Call K) (Answer K))} {file : SoundFile K} {res : Err}
  {M : AmbixMatrix K}

/-- The matrix of a closed file is the last one accepted while it was written. -/
theorem closed_read (hopen : ambixOpen P disk .write info = .ok (some h0))
    (hok : ∀ k, disk.chunkOk k = true) (hrun : Session P h0 events h)
    (hmem : ∀ e ∈ events, ∀ M, e.call = .setAdaptormatrix M → Addressable M)
    (hlast : lastAccepted events = some M) (hrows : M.rows ≠ 0) (hcols : M.cols ≠ 0)
    (hsize : 24+4*(M.rows.toNat*M.cols.toNat) < 2^32) (hexact : Exact P Q M)
    (hclose : h.close P = .ok (res, file)) (hcallocs : ∀ i, A.callocs i = true)
    (hreads : ∀ i, A.reads i = true) {fuel : Nat} (hfuel : 1 < fuel) :
    A.readUuidchunk Q (decide (Q.host ≠ file.order)) (chunksOf .uuid file.chunks) fuel matrixNull =
      .ok (.success, M) := by
  have hlengths : ∀ chunk ∈ [uuid1Bytes file.order P.word M], chunk.length < 2^32 := by
    intro chunk hchunk
    rw [List.mem_singleton.mp hchunk, uuid1Bytes_length]
    exact hsize
  rw [closed_matrix hopen hok hrun hmem hlast hclose,
    readUuidchunk_looks (Nat.lt_of_sub_eq_succ rfl) hlengths hfuel,
    readUuidchunk_readable hcallocs hreads hlengths, readUuidchunk_stored file.order (by omega)
    hexact, if_pos ⟨toNat_pos.mpr hrows, toNat_pos.mpr hcols⟩]

/-- The matrix of a file with two ambisonics channels and an extra one. -/
theorem closed_read_reduced : ∃ (h0 h1 h : Handle ℚ) (file : SoundFile ℚ),
    ambixOpen unitPlatform (unitDisk none) .write ⟨.extended, 1, 2⟩ = .ok (some h0) ∧
    Session unitPlatform h0 (matrixEvents h0 h1 swapMatrix threeFrames) h ∧
    h.close unitPlatform = .ok (.success, file) ∧
    healthy.readUuidchunk unitPlatform (decide (unitPlatform.host ≠ file.order))
      (chunksOf .uuid file.chunks) 2 matrixNull = .ok (.success, swapMatrix) := by
  obtain ⟨h0, h1, h, file, hopen, hrun, hclose, -⟩ := swapMatrix_written
  exact ⟨h0, h1, h, file, hopen, hrun, hclose, closed_read (M := swapMatrix) hopen
    (fun _ => rfl) hrun (matrixEvents_addressable h0 h1 swapMatrix_addressable threeFrames) rfl
    (by decide) (by decide) (by decide) swapMatrix_exact hclose (fun _ => rfl) (fun _ => rfl)
    (by decide)⟩

end closed
end CoreAudio
end Ambix
