import Ambix.Adaptor
import Ambix.PdFifo

/-! ambix_read~.c. A step is what one thread does between two places where the other may
come in; a thread that waits for a condition tries again in its next step. -/
namespace Ambix
open Machine

section samples
variable {α : Type} [Zero α]

/-- One pass of `merge_samples`. -/
def mergeFrame (buf1 : Nat → α) (chan1 want1 : Nat) (buf2 : Nat → α) (chan2 want2 : Nat)
    (dest : Nat → α) (destsize offset f : Nat) : Nat → α :=
  let left1 := if want1 > chan1 then want1-chan1 else 0
  let left2 := if want2 > chan2 then want2-chan2 else 0
  let use1 := if chan1 < want1 then chan1 else want1
  let use2 := if chan2 < want2 then chan2 else want2
  let framesize := want1+want2
  let out : Cursor α := ⟨dest, ((offset+f)%destsize)*framesize⟩
  let out := loop (fun c out => out.put (buf1 (f*chan1+c))) use1 out
  let out := loop (fun _ out => out.put 0) left1 out
  let out := loop (fun c out => out.put (buf2 (f*chan2+c))) use2 out
  (loop (fun _ out => out.put 0) left2 out).data

omit [Zero α] in
/-- `deinterleave_samples`. The state is the vectors and how far `inbuf` has moved. -/
def deinterleaveSamples (inbuf : Nat → α) (channels : Nat) (outvecs : Nat → Nat → α)
    (frames : Nat) : Nat → Nat → α :=
  (loop (fun f s => loop (fun c (s : (Nat → Nat → α) × Nat) =>
    (Function.update s.1 c (Function.update (s.1 c) f (inbuf s.2)), s.2+1)) channels s)
    frames (outvecs, 0)).1

/-- The loops that zero out `n` samples of each vector from sample `from` on. -/
def zeroOut (noutlets : Nat) (outvecs : Nat → Nat → α) (start n : Nat) : Nat → Nat → α :=
  loop (fun i vecs => Function.update vecs i
    (loop (fun _ (fp : Cursor α) => fp.put 0) n ⟨vecs i, start⟩).data) noutlets outvecs

end samples

/-- How samples lie in memory: their size, and a sample whose first bytes are cleared. -/
structure SampleBytes (α : Type) where
  size : Nat
  clear : Nat → α → α

def SampleBytes.memset {α : Type} [Zero α] (B : SampleBytes α) (buf : Nat → α) (bytes : Nat) :
    Nat → α := fun i =>
  if (i+1)*B.size ≤ bytes then 0
  else if i*B.size < bytes then B.clear (bytes-i*B.size) (buf i)
  else buf i

/-- A file as it is played: the frames from the onset on. -/
structure PdSoundfile (α : Type) where
  ambichannels : Nat
  extrachannels : Nat
  hasMatrix : Bool
  frames : List (List α × List α)
  widths : ∀ fr ∈ frames, fr.1.length = ambichannels ∧ fr.2.length = extrachannels

inductive ReadChild (α : Type) where
  /-- Looks for a request. -/
  | request
  /-- In `ambix_open`, without the mutex. -/
  | opening (file : PdSoundfile α)
  /-- At the top of the loop that feeds the fifo. -/
  | feeding
  /-- In `ambix_readf_float32`, without the mutex. -/
  | reading (fifosize fifohead wantframes : Nat)
  /-- Before pass `f` of `merge_samples`, without the mutex. -/
  | merging (fifosize fifohead sysrtn f : Nat)
  /-- In `ambix_close`, without the mutex. -/
  | closing
  | ended

/-- `t_ambix_read` with the variables of its child thread. -/
structure AmbixRead (α : Type) where
  buf : Nat → α
  infoEof : Bool
  infoMatrix : Bool
  infoAmbix : Bool
  state : PdState
  requestcode : RequestCode
  filename : PdSoundfile α
  fifosize : Nat
  fifohead : Nat
  fifotail : Nat
  eof : Bool
  /-- A tick is waiting for the child. -/
  waiting : Bool
  child : ReadChild α
  handle : PdSoundfile α
  /-- Frames `handle` has delivered. -/
  position : Nat
  ambibuf : Nat → α
  xtrabuf : Nat → α

namespace AmbixRead
variable {α : Type} [Zero α] (B : SampleBytes α) (P : PdObject)

/-! The child thread. -/

omit [Zero α] in
/-- `wantframes`, unless the child has to wait. -/
def wantframes (fifosize fifohead fifotail : Nat) : Option Nat :=
  if fifohead ≥ fifotail then
    if fifotail ≠ 0 ∨ fifosize-fifohead > readFrames then
      some (if fifosize-fifohead > readFrames then readFrames else fifosize-fifohead)
    else none
  else if fifotail-fifohead-1 < readFrames then none
  else some readFrames

omit [Zero α] in
/-- From `lost:` on. -/
def lost (x : AmbixRead α) : AmbixRead α :=
  { x with
    requestcode := if x.requestcode = .requestBusy then .requestNothing else x.requestcode
    child := .closing }

/-- After `ambix_open`. -/
def opened (file : PdSoundfile α) (x : AmbixRead α) : AmbixRead α :=
  let x := { x with handle := file, position := 0, ambibuf := fun _ => 0, xtrabuf := fun _ => 0 }
  if x.requestcode ≠ .requestBusy then x.lost
  else { x with
    infoMatrix := file.hasMatrix || x.infoMatrix
    infoAmbix := true
    buf := B.memset x.buf (P.bufframes*P.channels)
    fifohead := 0
    fifosize := P.fifosize
    child := .feeding }

omit [Zero α] in
/-- The frames the library delivers when it is asked for `wantframes` and has `n` ready:
at least one, unless the file is at its end. -/
def delivery (n wantframes : Nat) (x : AmbixRead α) : List (List α × List α) :=
  (x.handle.frames.drop x.position).take (min (max n 1) wantframes)

omit [Zero α] in
def readf (frames : List (List α × List α)) (x : AmbixRead α) : AmbixRead α :=
  { x with
    position := x.position+frames.length
    ambibuf := ((Cursor.start x.ambibuf).putAll (frames.flatMap Prod.fst)).data
    xtrabuf := ((Cursor.start x.xtrabuf).putAll (frames.flatMap Prod.snd)).data }

/-- One step of the child thread. `answer` is what the library makes of a call in it:
`none` if it fails, else how many frames it has ready. -/
def childStep (answer : Option Nat) (x : AmbixRead α) : AmbixRead α :=
  match x.child with
  | .request =>
    match x.requestcode with
    | .requestOpen => { x with requestcode := .requestBusy, child := .opening x.filename }
    | .requestClose => { x with requestcode := .requestNothing }
    | .requestQuit => { x with requestcode := .requestNothing, child := .ended }
    | .requestNothing | .requestBusy => x
  | .opening file =>
    match answer with
    | none => { x with eof := true }.lost
    | some _ => x.opened B P file
  | .feeding =>
    if x.requestcode ≠ .requestBusy ∨ x.eof = true then x.lost
    else match wantframes x.fifosize x.fifohead x.fifotail with
      | none => x
      | some want => { x with child := .reading x.fifosize x.fifohead want }
  | .reading fifosize fifohead want =>
    match answer with
    | none => x.lost
    | some n =>
      let frames := x.delivery n want
      if frames.length > 0 then
        { x.readf frames with child := .merging fifosize fifohead frames.length 0 }
      else if x.requestcode ≠ .requestBusy then x.lost
      else { x with eof := true }.lost
  | .merging fifosize fifohead sysrtn f =>
    if f < sysrtn then
      { x with
        buf := mergeFrame x.ambibuf x.handle.ambichannels P.ambichannels x.xtrabuf
          x.handle.extrachannels P.xtrachannels x.buf P.bufframes fifohead f
        child := .merging fifosize fifohead sysrtn (f+1) }
    else if x.requestcode ≠ .requestBusy then x.lost
    else
      { x with
        fifohead := if x.fifohead+sysrtn = fifosize then 0 else x.fifohead+sysrtn
        child := .feeding }
  | .closing => { x with child := .request }
  | .ended => x

/-! The audio thread. -/

/-- What a call leaves in the vectors of the outlets. -/
inductive Output (α : Type) where
  /-- The call makes no sound, or the tick is still waiting. -/
  | none
  /-- A tick that does not reach the streaming branch. -/
  | silence (outvecs : Nat → Nat → α)
  /-- A tick of the streaming branch. -/
  | stream (outvecs : Nat → Nat → α)

omit [Zero α] in
def Streams (x : AmbixRead α) : Prop :=
  x.waiting = true ∨
    (x.infoMatrix = false ∧ x.infoAmbix = false ∧ x.state = .stateStream)

omit [Zero α] in
instance (x : AmbixRead α) : Decidable x.Streams := inferInstanceAs (Decidable (_ ∨ _))

omit [Zero α] in
/-- Both tests of the streaming branch, apart from `x_eof`. -/
def Hungry (x : AmbixRead α) : Prop :=
  x.fifohead ≥ x.fifotail ∧ x.fifohead < x.fifotail+P.vecsize-1

omit [Zero α] in
instance (x : AmbixRead α) : Decidable (x.Hungry P) := inferInstanceAs (Decidable (_ ∧ _))

def drain (outvecs : Nat → Nat → α) (x : AmbixRead α) : Output α × AmbixRead α :=
  let xfersize := x.fifohead-x.fifotail+1
  let outvecs := deinterleaveSamples (fun i => x.buf (x.fifotail*P.channels+i)) P.channels outvecs
    xfersize
  (.stream (zeroOut P.channels outvecs xfersize (P.vecsize-xfersize)),
    { x with infoEof := true, state := .stateIdle, waiting := false })

omit [Zero α] in
def play (outvecs : Nat → Nat → α) (x : AmbixRead α) : Output α × AmbixRead α :=
  (.stream (deinterleaveSamples (fun i => x.buf (x.fifotail*P.channels+i)) P.channels outvecs
      P.vecsize),
    { x with
      fifotail := if x.fifotail+P.vecsize ≥ x.fifosize then 0 else x.fifotail+P.vecsize
      waiting := false })

def perform (outvecs : Nat → Nat → α) (x : AmbixRead α) : Output α × AmbixRead α :=
  if ¬ x.Streams then (.silence (zeroOut P.channels outvecs 0 P.vecsize), x)
  else if x.eof = false ∧ x.Hungry P then (.none, { x with waiting := true })
  else if x.eof = true ∧ x.Hungry P then x.drain P outvecs
  else x.play P outvecs

omit [Zero α] in
/-- `ambix_read_open`. -/
def openFile (file : PdSoundfile α) (x : AmbixRead α) : AmbixRead α :=
  { x with
    requestcode := .requestOpen
    filename := file
    fifotail := 0
    fifohead := 0
    eof := false
    state := .stateStartup }

omit [Zero α] in
def start (x : AmbixRead α) : AmbixRead α :=
  if x.state = .stateStartup then { x with state := .stateStream } else x

omit [Zero α] in
def stop (x : AmbixRead α) : AmbixRead α :=
  { x with state := .stateIdle, requestcode := .requestClose }

omit [Zero α] in
/-- `ambix_read_tick`, the callback of the clock. -/
def tick (x : AmbixRead α) : AmbixRead α :=
  { x with infoEof := false, infoMatrix := false, infoAmbix := false }

inductive Call (α : Type) where
  | start
  | stop
  | tick
  | perform (outvecs : Nat → Nat → α)
  | child (answer : Option Nat)

/-- While a tick waits, its thread does nothing else. -/
def step (x : AmbixRead α) : Call α → Output α × AmbixRead α
  | .start => (.none, if x.waiting then x else x.start)
  | .stop => (.none, if x.waiting then x else x.stop)
  | .tick => (.none, if x.waiting then x else x.tick)
  | .perform outvecs => x.perform P outvecs
  | .child answer => (.none, x.childStep B P answer)

end AmbixRead
end Ambix
