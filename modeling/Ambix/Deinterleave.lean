import Ambix.Interleave

/-! ambix-deinterleave.c: the channels of an ambix file become mono files, the ambisonics
ones decoded by the adaptor matrix. Both tools treat buffers and block sizes alike. -/
namespace Ambix.Deinterleave
open Machine
open Interleave (behind copySize)

section passes
variable {K : Type}

/-- `deinterleaver`. The state is `dest` and how far `source` has moved. -/
def deinterleaver (dest source : Nat → K) (frames channels : Nat) : Nat → K :=
  (loop (fun frame s => loop (fun channel (s : (Nat → K) × Nat) =>
    (Function.update s.1 (channel*frames+frame) (source s.2), s.2+1)) channels s)
    frames (dest, 0)).1

/-- `ambix_matrix_multiply_float32` of matrix.c. -/
def matrixMultiplyFloat32 [Semiring K] (dest : Nat → K) (matrix : AmbixMatrix K)
    (source : Nat → K) (frames : Nat) : Nat → K :=
  loop (fun frame dst => loop (fun outchan dst =>
    Function.update dst (frame*matrix.rows.toNat+outchan)
      (matrixChannel (.exact id id) matrix (fun inchan => source (frame*matrix.cols.toNat+inchan))
        outchan))
    matrix.rows.toNat dst) frames dest

/-- `outhandles`; an entry that has not been opened is `NULL`. -/
abbrev Outhandles (K : Type) := Nat → Option (SndFile K)

/-- `sf_writef_float` on one output, the count it returns being checked. A `NULL` handle takes
no frames. -/
def writeChannel (frames : Nat) (data : Nat → K) (channel : Nat) (outhandles : Outhandles K) :
    Option (Outhandles K) :=
  match outhandles channel with
  | none => if frames ≠ 0 then none else some outhandles
  | some out =>
    let (framed, out) := sfWritef out data frames
    if frames ≠ framed then none else some (Function.update outhandles channel (some out))

/-- The loops of `ai_copy_block` that store `count` channels, the first one in `channel`. -/
def writeChannels (frames : Nat) (buffer : Nat → K) (channel count : Nat)
    (outhandles : Outhandles K) : Option (Outhandles K) :=
  tryLoop (fun c => writeChannel frames (fun i => buffer (c*frames+i)) (channel+c)) count outhandles

/-- The loops of `ai_open_output` that open `count` mono files, the first one as `channel`. -/
def openChannels (places : Nat → Disk K) (channel count : Nat) (outhandles : Outhandles K) :
    Option (Outhandles K) :=
  tryLoop (fun chan outhandles =>
    (sfOpen (places (channel+chan)) .write 1).map fun out =>
      Function.update outhandles (channel+chan) (some out)) count outhandles

end passes

section tool
variable {K : Type} [Field K]

structure Ai (K : Type) [Zero K] where
  info : Info
  /-- `info.frames`. -/
  frames : Nat
  inhandle : Handle K
  matrix : AmbixMatrix K
  outhandles : Outhandles K
  blocksize : UInt32

def aiOpenInput (P : Platform K) (place : Disk K) (blocksize : UInt32) :
    Checked (Option (Ai K)) := do
  match ← ambixOpen P place .read ⟨.extended, 0, 0⟩ with
  | none => .ok none
  | some inhandle =>
    let info := inhandle.info
    let ai : Ai K := ⟨info, inhandle.sf.file.frames.length, inhandle, matrixNull, fun _ => none,
      blocksize⟩
    if info.ambichannels < 1 ∧ info.extrachannels < 1 then .ok none
    else if info.ambichannels > 0 then
      .ok (inhandle.getAdaptormatrix.map fun matrix =>
        { ai with matrix := matrixCopy matrix ai.matrix })
    else .ok (some ai)

/-- `ai_open_output`; output `n` is created at `places n`. -/
def aiOpenOutput (places : Nat → Disk K) (ai : Ai K) : Option (Ai K) := do
  let ambichannels := int32Count ai.matrix.rows
  let extrachannels := int32Count ai.info.extrachannels
  let outhandles ← openChannels places 0 ambichannels ai.outhandles
  let outhandles ← openChannels places ambichannels extrachannels outhandles
  some { ai with outhandles := outhandles }

/-- What `ai_copy` works on. A buffer that is not needed is `NULL`. -/
structure Copying (K : Type) [Zero K] where
  inhandle : Handle K
  outhandles : Outhandles K
  rawdata : Option (Nat → K)
  cookeddata : Option (Nat → K)
  extradata : Option (Nat → K)
  deinterleavebuf : Nat → K

/-- The ambisonics part of `ai_copy_block`, with the number of outputs it has stored to. -/
def storeAmbi (matrix : AmbixMatrix K) (frames : Nat) (s : Copying K) :
    Option (Nat × Copying K) :=
  match s.rawdata, s.cookeddata with
  | some rawdata, some cookeddata =>
    let cookeddata := matrixMultiplyFloat32 cookeddata matrix rawdata frames
    let deinterleavebuf := deinterleaver s.deinterleavebuf cookeddata frames matrix.rows.toNat
    (writeChannels frames deinterleavebuf 0 matrix.rows.toNat s.outhandles).map fun outhandles =>
      (matrix.rows.toNat, { s with
        outhandles := outhandles
        cookeddata := some cookeddata
        deinterleavebuf := deinterleavebuf })
  | _, _ => some (0, s)

/-- The part of `ai_copy_block` for the extra channels. -/
def storeExtra (extrachannels channel frames : Nat) (s : Copying K) : Option (Copying K) :=
  match s.extradata with
  | some extradata =>
    let deinterleavebuf := deinterleaver s.deinterleavebuf extradata frames extrachannels
    (writeChannels frames deinterleavebuf channel extrachannels s.outhandles).map fun outhandles =>
      { s with outhandles := outhandles, deinterleavebuf := deinterleavebuf }
  | none => some s

def aiCopyBlock (P : Platform K) (info : Info) (matrix : AmbixMatrix K) (frames : Nat)
    (s : Copying K) : Checked (Option (Copying K)) := do
  match ← s.inhandle.readf P .float32 (behind s.rawdata) (behind s.extradata) frames with
  | (.error _, _) => .ok none
  | (.ok (framed, split), inhandle) =>
    if frames ≠ framed then .ok none
    else .ok do
      let (channel, s) ← storeAmbi matrix frames { s with
        inhandle := inhandle
        rawdata := s.rawdata.map fun _ => split.ambi.data
        extradata := s.extradata.map fun _ => split.other.data }
      storeExtra info.extrachannels.toNat channel frames s

def aiCopy (P : Platform K) (fresh : Nat → K) (ai : Ai K) : Checked (Option (Copying K)) :=
  inBlocks (aiCopyBlock P ai.info ai.matrix)
    (copySize ai.blocksize) ai.frames {
      inhandle := ai.inhandle
      outhandles := ai.outhandles
      rawdata := if ai.info.ambichannels ≠ 0 then some fresh else none
      cookeddata := if ai.info.ambichannels ≠ 0 then some fresh else none
      extradata := if ai.info.extrachannels ≠ 0 then some fresh else none
      deinterleavebuf := fresh }

/-- The files named `ambi%03d` and those named `extra%03d`. -/
structure Outputs (K : Type) where
  ambi : List (SoundFile K)
  extra : List (SoundFile K)

omit [Field K] in
def outputs (ambichannels extrachannels : Nat) (outhandles : Outhandles K) : Outputs K where
  ambi := (List.range ambichannels).filterMap fun chan => (outhandles chan).map SndFile.file
  extra := (List.range extrachannels).filterMap fun chan =>
    (outhandles (ambichannels+chan)).map SndFile.file

/-- `ambix_deinterleave` with the block size asked for: the files it leaves. -/
def ambixDeinterleave (P : Platform K) (place : Disk K) (places : Nat → Disk K) (fresh : Nat → K)
    (blocksize : Option UInt32) : Checked (Option (Outputs K)) := do
  match ← aiOpenInput P place (blocksize.getD 0) with
  | none => .ok none
  | some ai =>
    match aiOpenOutput places ai with
    | none => .ok none
    | some ai =>
      let copied ← aiCopy P fresh ai
      .ok (copied.map fun s =>
        outputs (int32Count ai.matrix.rows) (int32Count ai.info.extrachannels) s.outhandles)

end tool
end Ambix.Deinterleave
