import Ambix.MarkerRegionRead
import Ambix.MarkerRegionWrite
import Ambix.MatrixFill
import Ambix.UuidChunk
import Ambix.Machine.Stream

/-! sndfile.c on top of libsndfile. A sound file gives back the chunks and frames it was
handed; what libsndfile decides by itself (whether it can open a file or store a
chunk) is left to `Disk`. -/
namespace Ambix
open Machine

/-- What the library takes from its platform: the byte order, `number32_t` in both
directions, `sqrt`, the sizes `realloc` grants, and the memory behind a chunk. -/
structure Platform (K : Type) where
  host : ByteOrder
  word : K → UInt32
  number : UInt32 → K
  sqrt : K → K
  grants : UInt64 → Bool
  behind : Nat → UInt8

structure Chunk where
  id : ChunkId
  data : List UInt8
deriving DecidableEq

/-- `SF_FORMAT_CAF`, a file with `SF_AMBISONIC_B_FORMAT` set, or anything else. -/
inductive Container where
  | caf | wavexAmbisonic | other
deriving DecidableEq, Repr

/-- A sound file. Its channel count is a positive `int`. -/
structure SoundFile (K : Type) where
  container : Container
  order : ByteOrder
  channels : UInt32
  chunks : List Chunk
  frames : List (List K)
  channels_pos : 0 < channels.toNat
  channels_int : channels.toNat < 2^31
  width : ∀ fr ∈ frames, fr.length = channels.toNat

def chunksOf (id : ChunkId) (chunks : List Chunk) : List (List UInt8) :=
  (chunks.filter fun c => c.id = id).map Chunk.data

/-- An open `SNDFILE`; `chunkOk` tells which of its chunk writes succeed, `asked` how
many there have been. -/
structure SndFile (K : Type) where
  file : SoundFile K
  mode : FileMode
  position : Nat
  chunkOk : Nat → Bool
  asked : Nat

/-- The place a path leads to: the file to be read there, and how a file is created. -/
structure Disk (K : Type) where
  existing : Option (SoundFile K)
  accepts : UInt32 → Bool
  accepts_int : ∀ n, accepts n = true → 0 < n.toNat ∧ n.toNat < 2^31
  order : ByteOrder
  chunkOk : Nat → Bool

section backend
variable {K : Type}

def newFile (disk : Disk K) (channels : UInt32) (h : disk.accepts channels = true) :
    SoundFile K where
  container := .caf
  order := disk.order
  channels := channels
  chunks := []
  frames := []
  channels_pos := (disk.accepts_int channels h).1
  channels_int := (disk.accepts_int channels h).2
  width := by simp

def sfOpen (disk : Disk K) (mode : FileMode) (channels : UInt32) : Option (SndFile K) :=
  match mode with
  | .read => disk.existing.map fun file => ⟨file, .read, 0, disk.chunkOk, 0⟩
  | .write =>
    if h : disk.accepts channels = true then
      some ⟨newFile disk channels h, .write, 0, disk.chunkOk, 0⟩
    else none
  | .rdrw => none

/-- `sf_readf_*` into `data`; a file opened for writing gives nothing. -/
def sfReadf (sf : SndFile K) (data : Nat → K) (frames : Nat) : Nat × (Nat → K) × SndFile K :=
  if sf.mode.canRead then
    let got := (sf.file.frames.drop sf.position).take frames
    (got.length, ((Cursor.start data).putAll got.flatten).data,
      { sf with position := sf.position+got.length })
  else (0, data, sf)

def SoundFile.overwrite (file : SoundFile K) (position : Nat) (frames : List (List K))
    (h : ∀ fr ∈ frames, fr.length = file.channels.toNat) : SoundFile K :=
  { file with
    frames := file.frames.take position ++ frames ++ file.frames.drop (position+frames.length)
    width := by
      intro fr hfr
      simp only [List.mem_append] at hfr
      rcases hfr with (hfr | hfr) | hfr
      · exact file.width fr (List.mem_of_mem_take hfr)
      · exact h fr hfr
      · exact file.width fr (List.mem_of_mem_drop hfr) }

def overwritten (old : List (List K)) (position : Nat) (frames : List (List K)) : List (List K) :=
  old.take position ++ frames ++ old.drop (position+frames.length)

theorem overwritten_nil (old : List (List K)) (position : Nat) :
    overwritten old position [] = old := by
  rw [overwritten, List.append_nil, List.length_nil, Nat.add_zero, List.take_append_drop]

theorem overwritten_end {old frames : List (List K)} {position : Nat} (hp : position = old.length) :
    overwritten old position frames = old ++ frames := by
  rw [overwritten, hp, List.take_length, List.drop_eq_nil_of_le (by omega), List.append_nil]

theorem overwritten_append (old as bs : List (List K)) (position : Nat) :
    overwritten (overwritten old position as) (position+as.length) bs =
      overwritten old position (as ++ bs) := by
  have htake : (overwritten old position as).take (position+as.length) =
      old.take position ++ as := by
    rw [overwritten]
    cases Nat.le_total position old.length with
    | inl hle => rw [List.take_left' (by simp [hle])]
    | inr hle =>
      rw [List.drop_eq_nil_of_le (by omega), List.append_nil,
        List.take_of_length_le (by simp)]
  have hdrop : (overwritten old position as).drop (position+as.length+bs.length) =
      old.drop (position+(as ++ bs).length) := by
    rw [overwritten, List.length_append, ← Nat.add_assoc]
    cases Nat.le_total position old.length with
    | inl hle =>
      rw [List.drop_append, List.drop_eq_nil_of_le (by simp; omega), List.nil_append,
        List.drop_drop]
      congr 1
      simp [hle]
    | inr hle =>
      rw [List.drop_eq_nil_of_le (by simp; omega), List.drop_eq_nil_of_le (by omega)]
  rw [overwritten, htake, hdrop, overwritten, List.append_assoc (old.take position)]

/-- `sf_writef_*` from `data`; a file opened for reading takes nothing. -/
def sfWritef (sf : SndFile K) (data : Nat → K) (frames : Nat) : Nat × SndFile K :=
  if sf.mode.canWrite then
    (frames, { sf with
      file := sf.file.overwrite sf.position (framesOf data sf.file.channels.toNat frames)
        framesOf_width
      position := sf.position+frames })
  else (0, sf)

theorem sfWritef_writes {sf : SndFile K} (hmode : sf.mode.canWrite = true) (data : Nat → K)
    (frames : Nat) : sfWritef sf data frames = (frames, { sf with
      file := sf.file.overwrite sf.position (framesOf data sf.file.channels.toNat frames)
        framesOf_width
      position := sf.position+frames }) := if_pos hmode

def sfSetChunk (sf : SndFile K) (id : ChunkId) (data : List UInt8) : Err × SndFile K :=
  if sf.chunkOk sf.asked then
    (.success, { sf with
      file := { sf.file with chunks := sf.file.chunks ++ [⟨id, data⟩] }
      asked := sf.asked+1 })
  else (.unknown, { sf with asked := sf.asked+1 })

/-- `_ambix_write_chunk` and `_ambix_write_uuidchunk`: the first `datasize` bytes of
`data` become a chunk. -/
def writeChunk (sf : SndFile K) (id : ChunkId) (data : List UInt8) (datasize : Nat) :
    Checked (Err × SndFile K) := do
  let data ← load data 0 datasize
  .ok (sfSetChunk sf id data)

/-- `_ambix_write_markersregions`, the results of the chunk writes being dropped. -/
def writeMarkersregions (host : ByteOrder) (swap : Bool) (markers : List Marker)
    (regions : List Region) (sf : SndFile K) : Checked (Err × SndFile K) := do
  let writes ← markersregionsChunks host swap markers regions
  let sf ← writes.foldlM (fun sf w => do
    let (_, sf) ← writeChunk sf w.id w.data w.datasize.toNat
    .ok sf) sf
  .ok (.success, sf)

variable [Field K]

/-- `read_uuidchunk` over the `uuid` chunks: the first one that holds a matrix. -/
def readUuidchunk (P : Platform K) (swap : Bool) :
    List (List UInt8) → AmbixMatrix K → Err × AmbixMatrix K
  | [], matrix => (.unknown, matrix)
  | data :: rest, matrix =>
    if data.length < 16 then readUuidchunk P swap rest matrix
    else if checkUUID data = 1 then
      let result := uuid1ToMatrix P.host P.number (view (data.drop 16) P.behind)
        (UInt64.ofNat (data.length-16)) (some matrix) swap
      let matrix := result.orgmtx.getD matrix
      if result.ret.isSome then (.success, matrix) else readUuidchunk P swap rest matrix
    else readUuidchunk P swap rest matrix

/-- What `_ambix_open` fills in. -/
structure Opened (K : Type) [Zero K] where
  sf : SndFile K
  isAmbix : Bool
  format : FileFormat
  byteswap : Bool
  matrix : AmbixMatrix K

/-- The matrix prepared for a Furse-Malham file of `channels` channels. -/
def fumaMatrix (channels : UInt32) : AmbixMatrix K :=
  match channels.toNat with
  | 3 | 4 => matrixInit (order2channels 1) channels
  | 5 | 6 | 9 => matrixInit (order2channels 2) channels
  | 7 | 8 | 11 | 16 => matrixInit (order2channels 3) channels
  | _ => matrixNull

/-- `_ambix_open`; `none` is `AMBIX_ERR_INVALID_FILE`. -/
def backendOpen (P : Platform K) (disk : Disk K) (mode : FileMode) (channels : UInt32) :
    Checked (Option (Opened K)) :=
  match sfOpen disk mode channels with
  | none => .ok none
  | some sf =>
    let byteswap := decide (P.host ≠ sf.file.order)
    match sf.file.container with
    | .caf =>
      let (err, matrix) := readUuidchunk P byteswap (chunksOf .uuid sf.file.chunks) matrixNull
      .ok (some ⟨sf, true, if err = .success then .extended else .basic, byteswap, matrix⟩)
    | .wavexAmbisonic => do
      let matrix := fumaMatrix sf.file.channels
      match ← matrixFill P.sqrt matrix .fuma with
      | some matrix => .ok (some ⟨sf, true, .extended, byteswap, matrix⟩)
      | none => .ok (some ⟨sf, false, .none, byteswap, matrix⟩)
    | .other => .ok (some ⟨sf, false, .none, byteswap, matrixNull⟩)

end backend
end Ambix
