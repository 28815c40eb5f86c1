import Ambix.Adaptor
import Ambix.MatrixInvert
import Ambix.Sndfile

/-! libambix.c: handles and the calls on them. Samples are numbers of `K`; a call
answers with a result and the handle it leaves. -/
namespace Ambix
open Machine

/-- `use_matrix`: decode with no matrix (0), with `matrix` (1) or with `matrix2` (2). -/
inductive UseMatrix where
  | none | matrix | matrix2
deriving DecidableEq, Repr

inductive SampleType where
  | int16 | int32 | float32 | float64
deriving DecidableEq, Repr

def SampleType.size : SampleType → UInt16
  | .int16 => 2
  | .int32 | .float32 => 4
  | .float64 => 8

def defaultAdaptorbufferSize : UInt64 := 64

/-- The part of `ambix_t` that decides how frames are laid out. -/
structure Layout (K : Type) [Zero K] where
  filemode : FileMode
  info : Info
  realinfo : Info
  matrix : AmbixMatrix K
  matrix2 : AmbixMatrix K
  useMatrix : UseMatrix

/-- `ambix_t`, the open `SNDFILE` included. -/
structure Handle (K : Type) [Zero K] extends Layout K where
  isAmbix : Bool
  format : FileFormat
  byteswap : Bool
  channels : UInt32
  adaptorbuffer : Nat → K
  adaptorbuffersize : UInt64
  markers : List Marker
  regions : List Region
  startedReading : Bool
  startedWriting : Bool
  pendingHeaders : Bool
  sf : SndFile K

/-! Opening. -/

def checkWriteAmbixinfo (info : Info) : Err :=
  match info.fileformat with
  | .none => if 0 < info.ambichannels then .invalidFormat else .success
  | .basic =>
    if 0 < info.extrachannels then .invalidFormat
    else if isFullset info.ambichannels then .success
    else .invalidFormat
  | .extended => .success

/-- `realinfo` after `_ambix_info_set`. -/
def infoSet (format : FileFormat) (otherchannels ambichannels : UInt32) : Info :=
  match format with
  | .none => ⟨.none, otherchannels, 0⟩
  | .basic => ⟨.basic, 0, ambichannels⟩
  | .extended => ⟨.extended, otherchannels, ambichannels⟩

section opening
variable {K : Type} [Field K]

/-- `realinfo` of an ambix file opened for writing. -/
def writeRealinfo (ambixinfo : Info) (channels : UInt32) : Info :=
  match ambixinfo.fileformat with
  | .none => infoSet .none channels 0
  | .basic => infoSet .basic 0 channels
  | .extended => infoSet .extended ambixinfo.extrachannels ambixinfo.ambichannels

/-- `realinfo` of an ambix file opened for reading. -/
def readRealinfo (format : FileFormat) (matrix : AmbixMatrix K) (channels : UInt32) : Info :=
  if format = .extended then
    if matrix.cols ≤ channels ∧ isFullset matrix.rows then
      infoSet .extended (channels-matrix.cols) matrix.cols
    else infoSet .none channels 0
  else if isFullset channels then infoSet .basic 0 channels
  else infoSet .none channels 0

/-- `realinfo` as it is first set. -/
def openedRealinfo (mode : FileMode) (ambixinfo : Info) (o : Opened K) : Info :=
  let channels := o.sf.file.channels
  if o.isAmbix then
    if mode.canWrite then writeRealinfo ambixinfo channels
    else readRealinfo o.format o.matrix channels
  else infoSet .none channels 0

/-- The layout presented to the caller who wants `wantformat`. -/
def Layout.present (wantformat : FileFormat) (l : Layout K) : Layout K :=
  if wantformat = .basic ∧ l.realinfo.fileformat = .extended then
    { l with
      info := { l.info with fileformat := .basic, ambichannels := l.matrix.rows }
      useMatrix := .matrix }
  else if wantformat = .extended ∧ l.realinfo.fileformat = .basic then
    { l with
      matrix := fillIdentity (matrixInit l.realinfo.ambichannels l.realinfo.ambichannels)
      info := { l.info with fileformat := .extended }
      useMatrix := .none }
  else l

def Handle.present (wantformat : FileFormat) (h : Handle K) : Handle K :=
  { h with toLayout := h.toLayout.present wantformat }

/-- `_ambix_adaptorbuffer_resize` on a handle. -/
def Handle.resize (P : Platform K) (frames : UInt64) (itemsize : UInt16) (h : Handle K) :
    Err × Handle K :=
  let (err, size) := adaptorbufferResize P.grants h.info h.realinfo frames itemsize
    h.adaptorbuffersize
  (err, { h with adaptorbuffersize := size })

/-- The checks of `ambix_open` before anything is opened: the format written to disk and
the one presented. -/
def openFormats (mode : FileMode) (ambixinfo : Info) : Option (Info × FileFormat) :=
  if mode.canWrite then
    if mode.canRead then none
    else if checkWriteAmbixinfo ambixinfo = .success then some (ambixinfo, ambixinfo.fileformat)
    else if ambixinfo.fileformat = .basic then
      -- the user might try to write an EXTENDED file as BASIC
      let extended := { ambixinfo with fileformat := .extended }
      if checkWriteAmbixinfo extended = .success then some (extended, .basic) else none
    else none
  else some (ambixinfo, ambixinfo.fileformat)

def freshLayout (mode : FileMode) (ambixinfo : Info) (o : Opened K) : Layout K where
  filemode := mode
  info := openedRealinfo mode ambixinfo o
  realinfo := openedRealinfo mode ambixinfo o
  matrix := o.matrix
  matrix2 := matrixNull
  useMatrix := .none

def freshHandle (mode : FileMode) (ambixinfo : Info) (o : Opened K) (markers : List Marker)
    (regions : List Region) : Handle K where
  toLayout := freshLayout mode ambixinfo o
  isAmbix := o.isAmbix
  format := o.format
  byteswap := o.byteswap
  channels := o.sf.file.channels
  adaptorbuffer := fun _ => 0
  adaptorbuffersize := 0
  markers := markers
  regions := regions
  startedReading := false
  startedWriting := false
  -- every marker and region that is read sets it
  pendingHeaders := decide (markers ≠ [] ∨ regions ≠ [])
  sf := o.sf

/-- The call of `_ambix_read_markersregions`: only on ambix files. -/
def readAnnotations (P : Platform K) (o : Opened K) : Checked (List Marker × List Region) :=
  let chunks := o.sf.file.chunks
  if o.isAmbix then
    readMarkersregions P.host o.byteswap (chunksOf .strg chunks) (chunksOf .mark chunks)
      (chunksOf .regn chunks) (chunks.length+1)
  else .ok ([], [])

/-- `ambix_open`. The layout is handed back in `ambixinfo`, here as `info` of the handle. -/
def ambixOpen (P : Platform K) (disk : Disk K) (mode : FileMode) (ambixinfo : Info) :
    Checked (Option (Handle K)) :=
  match openFormats mode ambixinfo with
  | none => .ok none
  | some (ambixinfo, wantformat) => do
    match ← backendOpen P disk mode (ambixinfo.ambichannels+ambixinfo.extrachannels) with
    | none => .ok none
    | some o =>
      let (markers, regions) ← readAnnotations P o
      let h := freshHandle mode ambixinfo o markers regions
      let (err, h) := (h.present wantformat).resize P defaultAdaptorbufferSize 4
      .ok (if err = .success then some h else none)

end opening

/-! Calls. -/

section calls
variable {K : Type} [Field K] [LinearOrder K]

/-- The `switch` on `use_matrix` when reading. -/
def Layout.split (l : Layout K) (adaptorbuffer ambidata otherdata : Nat → K) (realframes : Nat) :
    Split K :=
  let sourcechannels := l.realinfo.ambichannels+l.realinfo.extrachannels
  match l.useMatrix with
  | .matrix => splitAdaptormatrix (.exact id id) adaptorbuffer sourcechannels l.matrix
      ambidata otherdata realframes
  | .matrix2 => splitAdaptormatrix (.exact id id) adaptorbuffer sourcechannels l.matrix2
      ambidata otherdata realframes
  | .none => splitAdaptor adaptorbuffer sourcechannels l.realinfo.ambichannels ambidata otherdata
      realframes

/-- The `switch` on `use_matrix` when writing. -/
def Layout.merge (l : Layout K) (ambidata otherdata adaptorbuffer : Nat → K) (frames : Nat) :
    Cursor K :=
  match l.useMatrix with
  | .matrix => mergeAdaptormatrix (.exact id id) ambidata l.matrix otherdata l.info.extrachannels
      adaptorbuffer frames
  | .matrix2 => mergeAdaptormatrix (.exact id id) ambidata l.matrix2 otherdata l.info.extrachannels
      adaptorbuffer frames
  | .none => mergeAdaptor ambidata l.info.ambichannels otherdata l.info.extrachannels
      adaptorbuffer frames

namespace Handle

/-- `ambix_add_marker`; `none` is a `NULL` marker. -/
def addMarker (h : Handle K) (marker : Option Marker) : Err × Handle K :=
  if h.startedWriting then (.unknown, h)
  else match marker with
    | none => (.unknown, h)
    | some marker => (.success, { h with markers := h.markers ++ [marker], pendingHeaders := true })

def addRegion (h : Handle K) (region : Option Region) : Err × Handle K :=
  if h.startedWriting then (.unknown, h)
  else match region with
    | none => (.unknown, h)
    | some region => (.success, { h with regions := h.regions ++ [region], pendingHeaders := true })

def deleteMarkers (h : Handle K) : Err × Handle K :=
  if h.markers = [] then (.unknown, h) else (.success, { h with markers := [] })

def deleteRegions (h : Handle K) : Err × Handle K :=
  if h.regions = [] then (.unknown, h) else (.success, { h with regions := [] })

def getAdaptormatrix (h : Handle K) : Option (AmbixMatrix K) :=
  if h.info.fileformat = .extended then some h.matrix else none

def setAdaptormatrix (h : Handle K) (matrix : AmbixMatrix K) : Err × Handle K :=
  if h.filemode.canRead ∧ h.info.fileformat = .basic then
    if h.realinfo.fileformat = .extended then
      match matrixMultiply matrix h.matrix h.matrix2 with
      | none => (.unknown, h)
      | some mtx => (.success, { h with matrix2 := mtx, useMatrix := .matrix2 })
    else if matrix.cols ≠ h.realinfo.ambichannels then (.invalidDimension, h)
    else
      -- no return here: control reaches the error at the end of the function
      (.unknown, { h with matrix2 := matrixCopy matrix h.matrix2, useMatrix := .matrix2 })
  else if h.filemode.canWrite then
    if h.info.fileformat ≠ .extended ∧ h.info.fileformat ≠ .basic then (.unknown, h)
    else if h.startedWriting then (.unknown, h)
    else if ¬ isFullset matrix.rows then (.invalidDimension, h)
    else if h.info.fileformat = .basic then
      if h.realinfo.ambichannels ≠ matrix.cols then (.invalidDimension, h)
      else
        match (matrixPinv matrix none).ret with
        | none => (.invalidMatrix, h)
        | some pinv => (.success, { h with
            matrix2 := matrixCopy pinv h.matrix2
            matrix := matrixCopy matrix h.matrix
            realinfo := { h.realinfo with fileformat := .extended }
            info := { h.info with ambichannels := matrix.rows }
            useMatrix := .matrix2
            pendingHeaders := true })
    else (.success, { h with matrix := matrixCopy matrix h.matrix, pendingHeaders := true })
  else (.unknown, h)

def writeHeader (P : Platform K) (h : Handle K) : Checked (Err × Handle K) :=
  if h.filemode.canWrite then do
    let (res, sf) ← writeMarkersregions P.host h.byteswap h.markers h.regions h.sf
    if h.realinfo.fileformat = .extended then
      let (datalen, _) ← matrixToUuid1 P.host P.word h.matrix none h.byteswap
      let usedlen := 1+datalen/4
      if datalen < 1 then .ok (.unknown, { h with sf := sf })
      else
        let (len, data) ← matrixToUuid1 P.host P.word h.matrix (some (zeros (usedlen.toNat*4)))
          h.byteswap
        if len ≠ datalen then .ok (.unknown, { h with sf := sf })
        else
          let (res, sf) ← writeChunk sf .uuid (data.getD []) datalen.toNat
          .ok (res, { h with
            sf := sf
            pendingHeaders := if res = .success then false else h.pendingHeaders })
    else .ok (res, { h with
      sf := sf
      pendingHeaders := if res = .success then false else h.pendingHeaders })
  else .ok (.invalidFile, h)

def writePending (P : Platform K) (h : Handle K) : Checked (Err × Handle K) :=
  if h.pendingHeaders then h.writeHeader P else .ok (.success, h)

def checkWrite (P : Platform K) (h : Handle K) : Checked (Err × Handle K) :=
  if h.realinfo.fileformat = .extended ∧ ¬ isFullset h.matrix.rows then .ok (.invalidDimension, h)
  else do
    let (res, h) ← h.writePending P
    if res ≠ .success then .ok (res, h)
    else .ok (.success, { h with startedWriting := true })

def checkRead (h : Handle K) : Err × Handle K := (.success, { h with startedReading := true })

/-- Access to the first `items` items of the adaptor buffer. -/
def touch (h : Handle K) (type : SampleType) (items : Nat) : Checked Unit :=
  if items*type.size.toNat ≤ h.adaptorbuffersize.toNat then .ok ()
  else .error (.outside h.adaptorbuffersize.toNat h.adaptorbuffersize.toNat)

/-- `ambix_readf_*`: the number of frames and the two destinations, or an error. `sf_readf_*`
may use all of the buffer it is asked to fill. -/
def readf (P : Platform K) (type : SampleType) (ambidata otherdata : Nat → K) (frames : Nat)
    (h : Handle K) : Checked (Except Err (Nat × Split K) × Handle K) :=
  let (err, h) := h.checkRead
  if err ≠ .success then .ok (.error err, h)
  else
    let (err, h) := h.resize P (UInt64.ofNat frames) type.size
    if err ≠ .success then .ok (.error err, h)
    else do
      h.touch type (frames*h.sf.file.channels.toNat)
      let (realframes, adaptorbuffer, sf) := sfReadf h.sf h.adaptorbuffer frames
      let split := h.split adaptorbuffer ambidata otherdata realframes
      .ok (.ok (realframes, split), { h with adaptorbuffer := adaptorbuffer, sf := sf })

/-- `ambix_writef_*`: the number of frames the backend took, or an error. -/
def writef (P : Platform K) (type : SampleType) (ambidata otherdata : Nat → K) (frames : Nat)
    (h : Handle K) : Checked (Except Err Nat × Handle K) := do
  let (err, h) ← h.checkWrite P
  if err ≠ .success then .ok (.error err, h)
  else
    let (err, h) := h.resize P (UInt64.ofNat frames) type.size
    if err ≠ .success then .ok (.error err, h)
    else do
      let merged := h.merge ambidata otherdata h.adaptorbuffer frames
      h.touch type merged.count
      h.touch type (frames*h.sf.file.channels.toNat)
      let (written, sf) := sfWritef h.sf merged.data frames
      .ok (.ok written, { h with adaptorbuffer := merged.data, sf := sf })

/-- `ambix_close`: its result and the file it leaves. -/
def close (P : Platform K) (h : Handle K) : Checked (Err × SoundFile K) := do
  if h.filemode.canWrite then
    let (_, h) ← h.writePending P
    .ok (.success, h.sf.file)
  else .ok (.success, h.sf.file)

end Handle

/-- A call on an open handle. `seek` carries the position libsndfile answers with. -/
inductive Call (K : Type) [Zero K] where
  | seek (answer : Option Nat)
  | addMarker (marker : Option Marker)
  | addRegion (region : Option Region)
  | deleteMarkers
  | deleteRegions
  | setAdaptormatrix (matrix : AmbixMatrix K)
  | readf (type : SampleType) (ambidata otherdata : Nat → K) (frames : Nat)
  | writef (type : SampleType) (ambidata otherdata : Nat → K) (frames : Nat)

inductive Answer (K : Type) where
  | position (answer : Option Nat)
  | err (err : Err)
  | read (result : Except Err (Nat × Split K))
  | written (result : Except Err Nat)

def Call.run (P : Platform K) (h : Handle K) : Call K → Checked (Answer K × Handle K)
  | .seek answer => .ok (.position answer,
      { h with sf := { h.sf with position := answer.getD h.sf.position } })
  | .addMarker marker =>
    let (err, h) := h.addMarker marker
    .ok (.err err, h)
  | .addRegion region =>
    let (err, h) := h.addRegion region
    .ok (.err err, h)
  | .deleteMarkers =>
    let (err, h) := h.deleteMarkers
    .ok (.err err, h)
  | .deleteRegions =>
    let (err, h) := h.deleteRegions
    .ok (.err err, h)
  | .setAdaptormatrix matrix =>
    let (err, h) := h.setAdaptormatrix matrix
    .ok (.err err, h)
  | .readf type ambidata otherdata frames => do
    let (result, h) ← h.readf P type ambidata otherdata frames
    .ok (.read result, h)
  | .writef type ambidata otherdata frames => do
    let (result, h) ← h.writef P type ambidata otherdata frames
    .ok (.written result, h)

end calls
end Ambix
