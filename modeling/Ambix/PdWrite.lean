import Ambix.Adaptor
import Ambix.PdFifo

/-! ambix_write~.c, with the same steps as ambix_read~.c. -/
namespace Ambix
open Machine

section samples
variable {α : Type}

def interleaveSamples (invecs : Nat → Nat → α) (channels : Nat) (outbuf : Cursor α)
    (frames : Nat) : Cursor α :=
  loop (fun f out => loop (fun c out => out.put (invecs c f)) channels out) frames outbuf

/-- One pass of `split_samples`; `input` has moved over `f` frames. -/
def splitFrame (input : Nat → α) (chan1 chan2 f : Nat) (bufs : Split α) : Split α :=
  let (pos, buf1) := loop (fun _ => copyItem input) chan1 (f*(chan1+chan2), bufs.ambi)
  let (_, buf2) := loop (fun _ => copyItem input) chan2 (pos, bufs.other)
  ⟨buf1, buf2⟩

end samples

inductive WriteChild where
  /-- Looks for a request. -/
  | request
  /-- In `ambix_open`, without the mutex. -/
  | opening
  /-- At the top of the loop that empties the fifo. -/
  | emptying
  /-- Before pass `f` of `split_samples`, without the mutex. -/
  | splitting (fifosize fifotail writeframes f : Nat)
  /-- In `ambix_close`, without the mutex. -/
  | closing (quit : Bool)
  | ended

/-- `t_ambix_write` with the variables of its child thread. -/
structure AmbixWrite (α : Type) where
  buf : Nat → α
  state : PdState
  requestcode : RequestCode
  fifosize : Nat
  fifohead : Nat
  fifotail : Nat
  eof : Bool
  child : WriteChild
  /-- The child has a file open. -/
  handle : Bool
  /-- The frames written since the file was requested. -/
  file : List (List α × List α)
  bufs : Split α

namespace AmbixWrite
variable {α : Type} (P : PdObject)

/-! The child thread. -/

def Full (x : AmbixWrite α) : Prop :=
  x.fifohead < x.fifotail ∨ x.fifohead ≥ x.fifotail+writFrames ∨
    (x.requestcode = .requestClose ∧ x.fifohead ≠ x.fifotail)

instance (x : AmbixWrite α) : Decidable x.Full := inferInstanceAs (Decidable (_ ∨ _ ∨ _))

def writeframes (x : AmbixWrite α) : Nat :=
  let n := (if x.fifohead < x.fifotail then x.fifosize else x.fifohead)-x.fifotail
  if n > readFrames then readFrames else n

def writef (n : Nat) (x : AmbixWrite α) : AmbixWrite α :=
  let frames := (framesOf x.bufs.ambi.data P.ambichannels n).zip
    (framesOf x.bufs.other.data P.xtrachannels n)
  { x with file := x.file ++ frames }

/-- One step of the child thread. `succeeds` is what becomes of a call of the library
in it. -/
def childStep (succeeds : Bool) (x : AmbixWrite α) : AmbixWrite α :=
  match x.child with
  | .request =>
    match x.requestcode with
    | .requestOpen => { x with requestcode := .requestBusy, child := .opening }
    | .requestClose =>
      if x.handle then { x with child := .closing false }
      else { x with requestcode := .requestNothing }
    | .requestQuit =>
      if x.handle then { x with child := .closing true }
      else { x with requestcode := .requestNothing, child := .ended }
    | .requestNothing | .requestBusy => x
  | .opening =>
    if succeeds = false then
      { x with eof := true, requestcode := .requestNothing, child := .request, handle := false }
    else if x.requestcode ≠ .requestBusy then { x with child := .request, handle := true }
    else { x with fifotail := 0, child := .emptying, handle := true }
  | .emptying =>
    if x.requestcode = .requestBusy ∨
        (x.requestcode = .requestClose ∧ x.fifohead ≠ x.fifotail) then
      if x.Full then
        { x with
          child := .splitting x.fifosize x.fifotail x.writeframes 0
          bufs := ⟨.start x.bufs.ambi.data, .start x.bufs.other.data⟩ }
      else x
    else { x with child := .request }
  | .splitting fifosize fifotail writeframes f =>
    if f < writeframes then
      { x with
        child := .splitting fifosize fifotail writeframes (f+1)
        bufs := splitFrame (fun i => x.buf (fifotail*P.channels+i)) P.ambichannels P.xtrachannels f
          x.bufs }
    else if succeeds = false then { x with child := .request }
    else
      let x := x.writef P writeframes
      if x.requestcode ≠ .requestBusy ∧ x.requestcode ≠ .requestClose then
        { x with child := .request }
      else
        { x with
          fifotail := if x.fifotail+writeframes = fifosize then 0 else x.fifotail+writeframes
          child := .emptying }
  | .closing quit =>
    { x with
      handle := false
      requestcode := .requestNothing
      child := if quit then .ended else .request }
  | .ended => x

/-! The audio thread. -/

/-- The test of the loop in which a tick waits. -/
def Waits (x : AmbixWrite α) : Prop :=
  x.fifotail > x.fifohead ∧ x.fifotail < x.fifohead+P.vecsize+1

instance (x : AmbixWrite α) : Decidable (x.Waits P) := inferInstanceAs (Decidable (_ ∧ _))

/-- `ambix_write_perform`, with the frames it has captured. A tick that waits has not
captured any yet. -/
def perform (invecs : Nat → Nat → α) (x : AmbixWrite α) : List (List α) × AmbixWrite α :=
  if x.state ≠ .stateStream then ([], x)
  else if x.Waits P then ([], x)
  else (vectorFrames invecs P.channels P.vecsize,
    { x with
      buf := (interleaveSamples invecs P.channels ⟨x.buf, x.fifohead*P.channels⟩ P.vecsize).data
      fifohead := if x.fifohead+P.vecsize ≥ x.fifosize then 0 else x.fifohead+P.vecsize })

/-- `ambix_write_open` once it is idle. -/
def openFile (x : AmbixWrite α) : AmbixWrite α :=
  { x with
    requestcode := .requestOpen
    fifotail := 0
    fifohead := 0
    eof := false
    state := .stateStartup
    fifosize := P.fifosize
    file := [] }

def start (x : AmbixWrite α) : AmbixWrite α :=
  if x.state = .stateStartup then { x with state := .stateStream } else x

def stop (x : AmbixWrite α) : AmbixWrite α :=
  { x with state := .stateIdle, requestcode := .requestClose }

inductive Call (α : Type) where
  | start
  | stop
  | perform (invecs : Nat → Nat → α)
  | child (succeeds : Bool)

def step (x : AmbixWrite α) : Call α → List (List α) × AmbixWrite α
  | .start => ([], x.start)
  | .stop => ([], x.stop)
  | .perform invecs => x.perform P invecs
  | .child succeeds => ([], x.childStep P succeeds)

end AmbixWrite
end Ambix
