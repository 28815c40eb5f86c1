import Ambix.Libambix
import Ambix.Machine.Planar

/-! ambix-interleave.c: the channels of several sound files become one ambix file. Memory is
granted as it is asked for; `fresh` is what lies in it then. -/
namespace Ambix.Interleave
open Machine

/-- What `-X` names: a sound file, or something that cannot be opened as one. -/
inductive MatrixArgument (K : Type) where
  | file (file : SoundFile K)
  | format (format : List Char)

/-- A command line on which each option is given once at most. -/
structure Arguments (K : Type) where
  order : Option UInt32
  blocksize : Option UInt32
  matrix : Option (MatrixArgument K)
  infiles : List (SoundFile K)

structure Ai (K : Type) [Zero K] where
  info : Info
  /-- `info.frames`. -/
  frames : Nat
  infiles : List (SoundFile K)
  matrix : Option (AmbixMatrix K)
  matrixNorm : MatrixType
  matrixRout : MatrixType
  channels : UInt32
  blocksize : UInt32

def defaultBlocksize : UInt32 := 1024

def openRead {K : Type} (file : SoundFile K) : SndFile K := ⟨file, .read, 0, fun _ => false, 0⟩

section cmdline
variable {K : Type} [Zero K] (fresh : Nat → K)

/-- `ai_matrix`: the channels of the file are the rows and its frames the columns. The size of
`data` is counted in 32 bits. -/
def aiMatrix (file : SoundFile K) : Checked (AmbixMatrix K) :=
  let rows := file.channels
  let cols := UInt32.ofNat file.frames.length
  let size := (rows*cols).toNat
  if size < rows.toNat*cols.toNat then .error (.outside size size)
  else
    let data := (sfReadf (openRead file) fresh cols.toNat).2.1
    let mtx := (matrixFillData (matrixInit cols rows) data).1
    .ok ((matrixInit rows cols).fillLoop fun r c => mtx.data c r)

/-- `!strncmp(fmt, name, len)` with the length of `fmt`. -/
def isAbbreviation (fmt : List Char) (name : String) : Bool := fmt.isPrefixOf name.toList

/-- `ai_matrix_predefined`: `matrix_norm` and `matrix_rout`. -/
def aiMatrixPredefined (format : List Char) : Option (MatrixType × MatrixType) :=
  let fmt := (format.take 10).map Char.toLower
  if isAbbreviation fmt "fuma" then some (.fuma, .fuma)
  else if isAbbreviation fmt "n3d|sid" || isAbbreviation fmt "sid|n3d" then some (.n3d, .sid)
  else if isAbbreviation fmt "sid" || isAbbreviation fmt "sn3d|sid" ||
      isAbbreviation fmt "sid|sn3d" then some (.identity, .sid)
  else if isAbbreviation fmt "n3d" || isAbbreviation fmt "sn3d|acn" ||
      isAbbreviation fmt "acn|sn3d" then some (.n3d, .identity)
  else none

/-- What `-X` leaves in `matrix`, `matrix_norm` and `matrix_rout`. -/
def matrixOption (matrix : Option (MatrixArgument K)) :
    Checked (Option (Option (AmbixMatrix K) × MatrixType × MatrixType)) :=
  match matrix with
  | none => .ok (some (none, .invalid, .invalid))
  | some (.file file) => do
    let matrix ← aiMatrix fresh file
    .ok (some (some matrix, .invalid, .invalid))
  | some (.format format) =>
    .ok ((aiMatrixPredefined format).map fun types => (none, types))

/-- `channels` after `-O`; 0 means that they are counted. -/
def orderChannels (order : Option UInt32) : UInt32 := (order.map order2channels).getD 0

def aiCmdline (args : Arguments K) : Checked (Option (Ai K)) := do
  match ← matrixOption fresh args.matrix with
  | none => .ok none
  | some (matrix, norm, rout) =>
    let channels := orderChannels args.order
    let blocksize := args.blocksize.getD 0
    if args.infiles.isEmpty then .ok none
    else if channels > 0 ∧ matrix.any (fun m => channels ≠ m.rows) then .ok none
    else .ok <| some {
      info := ⟨.none, 0, 0⟩
      frames := 0
      infiles := args.infiles
      matrix := matrix
      matrixNorm := norm
      matrixRout := rout
      channels := channels
      blocksize := if blocksize > 0 then blocksize else defaultBlocksize }

end cmdline

section opening
variable {K : Type} [Field K] (P : Platform K)

def aiCalcMatrix (rowcols : UInt32) (typ : MatrixType) : Checked (Option (AmbixMatrix K)) :=
  matrixFill P.sqrt (matrixInit rowcols rowcols) typ

/-- The predefined matrix for `channels` channels. -/
def predefinedMatrix (norm rout : MatrixType) (channels : UInt32) :
    Checked (Option (AmbixMatrix K)) :=
  if rout = norm ∧ norm = .fuma then aiCalcMatrix P channels .fuma
  else do
    let route ← aiCalcMatrix P channels rout
    let norm ← aiCalcMatrix P channels norm
    .ok (route.bind fun route => norm.bind fun norm => matrixMultiply route norm matrixNull)

/-- The accumulated channels of the input files. -/
def inputChannels (infiles : List (SoundFile K)) : UInt32 :=
  infiles.foldl (fun channels file => channels+file.channels) 0

/-- `info.frames`: 0 counts as not yet set. -/
def inputFrames (infiles : List (SoundFile K)) : Nat :=
  infiles.foldl (fun frames file =>
    if frames = 0 ∨ frames > file.frames.length then file.frames.length else frames) 0

/-- The matrix behind the loop of `ai_open_input`, which decodes a single AMB file; such a file
takes no other matrix. -/
def ambMatrix (ai : Ai K) : Checked (Option (Option (AmbixMatrix K))) :=
  match ai.infiles with
  | [file] =>
    if file.container = .wavexAmbisonic then
      if ai.matrix.isSome ∨ ai.matrixRout ≠ .invalid ∨ ai.matrixNorm ≠ .invalid then .ok none
      else some <$> aiCalcMatrix P file.channels .fuma
    else .ok (some ai.matrix)
  | _ => .ok (some ai.matrix)

/-- The format of the output: the end of `ai_open_input`. -/
def chooseFormat (ai : Ai K) (channels : UInt32) : Option (Ai K) :=
  let chosen := match ai.matrix with
    | some matrix =>
      if channels < matrix.cols then none
      else some { ai with info := ⟨.extended, channels-matrix.cols, matrix.cols⟩ }
    | none =>
      if ai.channels > 0 then
        if ai.channels < channels then some { ai with
          info := ⟨.extended, channels-ai.channels, ai.channels⟩
          matrix := some (fillIdentity (matrixInit ai.channels ai.channels)) }
        else if ai.channels = channels then some { ai with info := ⟨.basic, 0, channels⟩ }
        else none
      else if isFullset channels then some { ai with info := ⟨.basic, 0, channels⟩ }
      else none
  chosen.bind fun ai =>
    if ai.info.ambichannels < 1 ∧ ai.info.extrachannels < 1 then none else some ai

def aiOpenInput (ai : Ai K) : Checked (Option (Ai K)) := do
  let channels := inputChannels ai.infiles
  let ai := { ai with frames := inputFrames ai.infiles }
  match ← ambMatrix P ai with
  | none => .ok none
  | some matrix =>
    if ai.matrixRout ≠ .invalid ∨ ai.matrixNorm ≠ .invalid then
      match ← predefinedMatrix P ai.matrixNorm ai.matrixRout channels with
      | none => .ok none
      | some matrix => .ok (chooseFormat { ai with matrix := some matrix } channels)
    else .ok (chooseFormat { ai with matrix := matrix } channels)

variable [LinearOrder K]

/-- `ai_open_output`. A file that cannot be opened is not noticed: its `NULL` handle is used. -/
def aiOpenOutput (disk : Disk K) (ai : Ai K) : Checked (Option (Handle K)) := do
  match ← ambixOpen P disk .write ai.info with
  | none => .error (.outside 0 0)
  | some outhandle =>
    if ai.info.fileformat = .extended then
      let (err, outhandle) := outhandle.setAdaptormatrix (ai.matrix.getD matrixNull)
      .ok (if err = .success then some outhandle else none)
    else .ok (some outhandle)

/-- What comes before `ai_copy`: the settings and the output of an accepted command line. -/
def accepted (disk : Disk K) (fresh : Nat → K) (args : Arguments K) :
    Checked (Option (Ai K × Handle K)) := do
  match ← aiCmdline fresh args with
  | none => .ok none
  | some ai =>
    match ← aiOpenInput P ai with
    | none => .ok none
    | some ai =>
      let outhandle ← aiOpenOutput P disk ai
      .ok (outhandle.map fun outhandle => (ai, outhandle))

end opening

/-! Copying. -/

section copying
variable {K : Type}

def deinterleaver (dest : Cursor K) (source : Nat → K) (frames channels : Nat) : Cursor K :=
  loop (fun channel dest =>
    loop (fun frame (dest : Cursor K) => dest.put (source (frame*channels+channel))) frames dest)
    channels dest

def interleaver (dest : Cursor K) (source : Nat → K) (frames channels : Nat) : Cursor K :=
  loop (fun frame dest =>
    loop (fun channel (dest : Cursor K) => dest.put (source (channel*frames+frame))) channels dest)
    frames dest

/-- `sf_readf_float(in, data+offset, frames)`. -/
def readAt (sf : SndFile K) (data : Nat → K) (offset frames : Nat) :
    Nat × (Nat → K) × SndFile K :=
  let (readframes, stretch, sf) := sfReadf sf (fun i => data (offset+i)) frames
  (readframes, fun i => if i < offset then data i else stretch (i-offset), sf)

/-- What one input file has given: the frames it had, the two buffers and the file. -/
structure InputRead (K : Type) where
  readframes : Nat
  sourcedata : Option (Nat → K)
  deinterleavedata : Nat → K
  infile : SndFile K

/-- One pass of the first loop of `ai_copy_block`. -/
def readInput (frames offset : Nat) (infile : SndFile K) (sourcedata : Option (Nat → K))
    (deinterleavedata : Nat → K) : InputRead K :=
  let inchannels := infile.file.channels
  match if inchannels > 1 then sourcedata else none with
  | some source =>
    let (readframes, source, infile) := sfReadf infile source frames
    let deinterleavedata := if readframes ≠ 0 then
      (deinterleaver ⟨deinterleavedata, offset⟩ source frames inchannels.toNat).data
      else deinterleavedata
    ⟨readframes, some source, deinterleavedata, infile⟩
  | none =>
    let (readframes, deinterleavedata, infile) := readAt infile deinterleavedata offset frames
    ⟨readframes, sourcedata, deinterleavedata, infile⟩

/-- The first loop of `ai_copy_block` over the remaining input files, `channels` channels being
read. -/
def readInputs (frames : Nat) : List (SndFile K) → Nat → Option (Nat → K) → (Nat → K) →
    Option (List (SndFile K) × Option (Nat → K) × (Nat → K))
  | [], _, sourcedata, deinterleavedata => some ([], sourcedata, deinterleavedata)
  | infile :: rest, channels, sourcedata, deinterleavedata =>
    let r := readInput frames (channels*frames) infile sourcedata deinterleavedata
    if frames ≠ r.readframes then none
    else (readInputs frames rest (channels+infile.file.channels.toNat) r.sourcedata
      r.deinterleavedata).map fun (infiles, buffers) => (r.infile :: infiles, buffers)

variable [Field K]

/-- What `ai_copy` works on. A buffer that is not needed is `NULL`. -/
structure Copying (K : Type) [Zero K] where
  inhandles : List (SndFile K)
  outhandle : Handle K
  ambidata : Option (Nat → K)
  extradata : Option (Nat → K)
  source : Option (Nat → K)
  interleavebuffer : Nat → K

/-- The data behind a pointer; nothing is read through `NULL`. -/
def behind (buffer : Option (Nat → K)) : Nat → K := buffer.getD fun _ => 0

def aiCopyBlock (P : Platform K) (info : Info) (frames : Nat) (s : Copying K) :
    Checked (Option (Copying K)) :=
  match readInputs frames s.inhandles 0 s.source s.interleavebuffer with
  | none => .ok none
  | some (inhandles, source, deinterleavedata) => do
    let ambidata := s.ambidata.map fun dest =>
      (interleaver (.start dest) deinterleavedata frames info.ambichannels.toNat).data
    let extradata := s.extradata.map fun dest =>
      (interleaver (.start dest) (fun i => deinterleavedata (frames*info.ambichannels.toNat+i))
        frames info.extrachannels.toNat).data
    let (written, outhandle) ← s.outhandle.writef P .float32 (behind ambidata) (behind extradata)
      frames
    match written with
    | .error _ => .ok none
    | .ok n =>
      .ok (if frames ≠ n then none
        else some ⟨inhandles, outhandle, ambidata, extradata, source, deinterleavedata⟩)

def copySize (blocksize : UInt32) : {n : Nat // 0 < n} :=
  if h : 0 < blocksize.toNat then ⟨blocksize.toNat, h⟩ else ⟨defaultBlocksize.toNat, by decide⟩

def maxChannels (infiles : List (SoundFile K)) : Nat :=
  infiles.foldl (fun maxchannels file =>
    if file.channels.toNat > maxchannels then file.channels.toNat else maxchannels) 0

def aiCopy (P : Platform K) (fresh : Nat → K) (ai : Ai K) (outhandle : Handle K) :
    Checked (Option (Copying K)) :=
  inBlocks (aiCopyBlock P ai.info) (copySize ai.blocksize) ai.frames {
    inhandles := ai.infiles.map openRead
    outhandle := outhandle
    ambidata := if ai.info.ambichannels > 0 then some fresh else none
    extradata := if ai.info.extrachannels > 0 then some fresh else none
    source := if maxChannels ai.infiles > 1 then some fresh else none
    interleavebuffer := fresh }

/-- `ambix_interleave` on a command line: the file it leaves. -/
def ambixInterleave [LinearOrder K] (P : Platform K) (disk : Disk K) (fresh : Nat → K)
    (args : Arguments K) : Checked (Option (SoundFile K)) := do
  match ← accepted P disk fresh args with
  | none => .ok none
  | some (ai, outhandle) =>
    match ← aiCopy P fresh ai outhandle with
    | none => .ok none
    | some s =>
      let (_, file) ← s.outhandle.close P
      .ok (some file)

end copying
end Ambix.Interleave
