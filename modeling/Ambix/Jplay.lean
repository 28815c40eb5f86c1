import Ambix.FrameView
import Ambix.JackRingbuffer
import Ambix.Machine.Run
import Ambix.PlaysOnce

/-! ambix-jplay.c: a disk thread reads a file and JACK's callback plays it. What is loaded is
heard once and in order, however the two are interleaved. -/
namespace Ambix.Jplay
open Machine
open JackBuffers (bytes)

section samples
variable {K : Type}

def interleaveData (source1 : Nat → K) (source1channels : UInt32) (source2 : Nat → K)
    (source2channels : UInt32) (destination : Nat → K) (frames : Nat) : Nat → K :=
  (mergeAdaptor source1 source1channels source2 source2channels destination frames).data

/-- The loops that uninterleave `err` frames. -/
def uninterleave (jBuffer : Nat → K) (channels err : Nat) (out : Nat → Nat → K) : Nat → Nat → K :=
  loop (fun i out => loop (fun j out =>
    Function.update out j (Function.update (out j) i (jBuffer (i*channels+j)))) channels out)
    err out

/-- The loops that zero the frames from `err` on. -/
def zeroFrames [Zero K] (channels err nframes : Nat) (out : Nat → Nat → K) : Nat → Nat → K :=
  loopFrom err nframes (fun i out => loop (fun j out =>
    Function.update out j (Function.update (out j) i 0)) channels out) out

def signalSet (s : Nat → Nat → K) (n c : Nat) (z : K) : Nat → Nat → K :=
  loop (fun j s => loop (fun i s => Function.update s j (Function.update (s j) i z)) n s) c s

/-- `memset` of `n` samples. -/
def memset0 [Zero K] (p : Nat → K) (n : Nat) : Nat → K := fun i => if i < n then 0 else p i

end samples

/-- Why there is no next step: `FAILURE`, or a read after which nothing is modelled. -/
inductive Failure where
  | periodSize
  | endOfProcess
  /-- The library has failed to read. Its negative error goes on as a number of frames, and the
  ring buffer is filled with what lies in `d_buffer`. -/
  | readError
  /-- The library has run out of its adaptor buffer. -/
  | overflow
deriving DecidableEq

/-- Where `signal_proc` is. -/
inductive Callback where
  | idle
  /-- About to poke the disk thread. -/
  | poking
deriving DecidableEq

/-- Where `disk_proc` is. -/
inductive DiskThread where
  | top
  /-- Behind `ambix_seek`. -/
  | seeking
  /-- In `jack_ringbuffer_wait_for_write`, or just behind it. -/
  | waiting (w : Wait)
  /-- About to write `nframes` frames to the ring buffer. -/
  | storing (nframes : Nat)
  | ended
deriving DecidableEq

/-- `struct player`, with the places of its threads. -/
structure Player (K β R : Type) [Zero K] where
  ringBuffer : R
  /-- Bytes in the pipe. -/
  pipe : Nat
  aBuffer : Nat → K
  eBuffer : Nat → K
  dBuffer : Nat → K
  jBuffer : Nat → β
  soundFile : Handle K
  seekRequest : Int
  disk : DiskThread
  callback : Callback
  endOfProcess : Bool
  failure : Option Failure

inductive Action (K : Type) where
  /-- JACK calls `signal_proc`, while the transport is rolling or not. -/
  | process (nframes : Nat) (out : Nat → Nat → K) (rolling : Bool)
  | callback
  /-- JACK calls `sync_handler`. -/
  | sync (frame : Nat)
  | disk
  | signal

/-- What is seen of a step. -/
structure Output (K : Type) where
  /-- Frames that go to `d_buffer`. -/
  loaded : List (List K)
  /-- Frames that go to JACK, of which the first `err` come from the ring buffer. -/
  out : List (List K)
  err : Nat

def nothing (K : Type) : Output K := ⟨[], [], 0⟩

section model
variable {K β R : Type} [Field K] (P : Platform K) (B : JackRingbuffer R β) (F : BlockCode K β)
  (S : JackBuffers) (transportAware : Bool)

/-- `ambix_seek` with `SEEK_SET`; there is no frame behind the end. -/
def seekSet (frame : Int) (h : Handle K) : Handle K :=
  if 0 ≤ frame ∧ frame ≤ h.sf.file.frames.length then
    { h with sf := { h.sf with position := frame.toNat } }
  else h

/-- `err` frames are interleaved. -/
def load (x : Player K β R) (aBuffer eBuffer dBuffer : Nat → K) (err : Nat) :
    Output K × Player K β R :=
  let dBuffer := interleaveData aBuffer S.aChannels eBuffer S.eChannels dBuffer err
  (⟨framesOf dBuffer S.channels.toNat err, [], 0⟩,
    { x with aBuffer := aBuffer, eBuffer := eBuffer, dBuffer := dBuffer, disk := .storing err })

/-- What is made of the answer of `ambix_readf_float32` to a request for `nframes` frames. -/
def refill (nframes : Nat) (answer : Checked (Except Err (Nat × Split K) × Handle K))
    (x : Player K β R) : Output K × Player K β R :=
  match answer with
  | .error _ => (nothing K, { x with failure := some .overflow })
  | .ok (.error _, soundFile) =>
    (nothing K, { x with soundFile := soundFile, failure := some .readError })
  | .ok (.ok (err, split), soundFile) =>
    let x := { x with soundFile := soundFile }
    if err = 0 then
      if transportAware then
        load S x (memset0 split.ambi.data (nframes*S.aChannels.toNat))
          (memset0 split.other.data (nframes*S.eChannels.toNat))
          (memset0 x.dBuffer (nframes*S.channels.toNat)) nframes
      else (nothing K, { x with disk := .ended })
    else load S x split.ambi.data split.other.data x.dBuffer err

/-- One step of `disk_proc`. -/
def diskStep (x : Player K β R) : Output K × Player K β R :=
  match x.disk with
  | .top =>
    if x.endOfProcess then (nothing K, { x with disk := .ended })
    else if 0 ≤ x.seekRequest then
      (nothing K, { x with soundFile := seekSet x.seekRequest x.soundFile, disk := .seeking })
    else (nothing K, { x with disk := .waiting .measuring })
  | .seeking => (nothing K, { x with seekRequest := -1, disk := .waiting .measuring })
  | .waiting (.enough space) =>
    let nbytes := if space > S.bufferBytes F then S.bufferBytes F else space
    let nframes := S.nframes F nbytes
    refill S transportAware nframes (x.soundFile.readf P .float32 x.aBuffer x.eBuffer nframes) x
  | .waiting w =>
    let (w, pipe) := w.step (S.minimalBytes F) (B.writeSpace x.ringBuffer) x.pipe
    (nothing K, { x with disk := .waiting w, pipe := pipe })
  | .storing nframes =>
    let (_, ringBuffer) := B.write x.ringBuffer
      (F.pack (window x.dBuffer 0 (nframes*S.channels.toNat)))
    (nothing K, { x with ringBuffer := ringBuffer, disk := .top })
  | .ended => (nothing K, x)

/-- `signal_proc` up to the poke. -/
def signalProc (nframes : Nat) (out : Nat → Nat → K) (rolling : Bool) (x : Player K β R) :
    Output K × Player K β R :=
  let nbytes := nframes*S.channels.toNat*F.width
  if nbytes > S.bufferBytes F then (nothing K, { x with failure := some .periodSize })
  else if transportAware ∧ rolling = false then
    if x.endOfProcess then (nothing K, { x with failure := some .endOfProcess })
    else
      let out := signalSet out nframes S.channels.toNat 0
      (⟨[], vectorFrames out S.channels.toNat nframes, 0⟩, x)
  else
    let (data, ringBuffer) := B.read x.ringBuffer nbytes
    let jBuffer := ((Cursor.start x.jBuffer).putAll data).data
    let err := data.length/(F.width*S.channels.toNat)
    let out := uninterleave (F.view jBuffer) S.channels.toNat err out
    let out := if err < nframes then zeroFrames S.channels.toNat err nframes out else out
    (⟨[], vectorFrames out S.channels.toNat nframes, err⟩,
      { x with ringBuffer := ringBuffer, jBuffer := jBuffer, callback := .poking })

def callbackStep (x : Player K β R) : Player K β R :=
  match x.callback with
  | .idle => x
  | .poking => { x with pipe := x.pipe+1, callback := .idle }

/-- One step of the program. -/
def step (x : Player K β R) (a : Action K) : Output K × Player K β R :=
  if x.failure.isSome then (nothing K, x)
  else match a with
    | .process nframes out rolling =>
      if x.callback = .idle then signalProc B F S transportAware nframes out rolling x
      else (nothing K, x)
    | .callback => (nothing K, callbackStep x)
    | .sync frame =>
      (nothing K, if transportAware then { x with seekRequest := (frame : Int) } else x)
    | .disk => diskStep P B F S transportAware x
    | .signal => (nothing K, { x with endOfProcess := true })

/-- What `jackplay` sets up for an open file; the buffers hold anything. -/
def newPlayer (soundFile : Handle K) (seekRequest : Int) (aBuffer eBuffer dBuffer : Nat → K)
    (jBuffer : Nat → β) : Player K β R where
  ringBuffer := B.create (S.bufferBytes F)
  pipe := 0
  aBuffer := aBuffer
  eBuffer := eBuffer
  dBuffer := dBuffer
  jBuffer := jBuffer
  soundFile := soundFile
  seekRequest := seekRequest
  disk := .top
  callback := .idle
  endOfProcess := false
  failure := none

abbrev Runs (x : Player K β R) (events : List (Event (Player K β R) (Action K) (Output K)))
    (y : Player K β R) : Prop := Run (fun x a => .ok (step P B F S transportAware x a)) x events y

/-- All frames that the disk thread has loaded. -/
def loads (events : List (Event (Player K β R) (Action K) (Output K))) : List (List K) :=
  events.flatMap fun e => e.answer.loaded

/-- All frames that JACK has been given from the ring buffer. -/
def plays (events : List (Event (Player K β R) (Action K) (Output K))) : List (List K) :=
  events.flatMap fun e => e.answer.out.take e.answer.err

end model
/-! The loops over samples. -/

section samples
variable {K : Type}

theorem storeFrames_eq (g : Nat → Nat → K) (channels lo hi : Nat) (out : Nat → Nat → K) :
    loopFrom lo hi (fun i out => loop (fun j out =>
      Function.update out j (Function.update (out j) i (g i j))) channels out) out =
    fun c f => if c < channels ∧ lo ≤ f ∧ f < hi then g f c else out c f := by
  have hinner (i : Nat) (out : Nat → Nat → K) :
      loop (fun j out => Function.update out j (Function.update (out j) i (g i j))) channels out =
        fun c f => if c < channels ∧ f = i then g i c else out c f := by
    refine loop_eq (fun k => fun c f => if c < k ∧ f = i then g i c else out c f) (by simp)
      fun k hk => funext fun c => funext fun f => ?_
    by_cases hc : c = k
    · subst hc
      by_cases hf : f = i
      · subst hf
        simp
      · simp [hf]
    · have hlt : c < k+1 ↔ c < k := by omega
      simp [hc, hlt]
  refine (loop_eq (fun n => fun c f => if c < channels ∧ lo ≤ f ∧ f < lo+n then g f c else out c f)
    ?_ fun n hn => ?_).trans ?_
  · refine funext fun c => funext fun f => if_neg ?_
    omega
  · refine (hinner (lo+n) _).trans (funext fun c => funext fun f => ?_)
    by_cases hf : f = lo+n
    · subst hf
      simp
    · have hlt : f < lo+(n+1) ↔ f < lo+n := by omega
      simp [hf, hlt]
  · refine funext fun c => funext fun f => if_congr ?_ rfl rfl
    omega

theorem uninterleave_eq (jBuffer : Nat → K) (channels err : Nat) (out : Nat → Nat → K) :
    uninterleave jBuffer channels err out =
      fun c f => if c < channels ∧ f < err then jBuffer (f*channels+c) else out c f := by
  have h := storeFrames_eq (fun i j => jBuffer (i*channels+j)) channels 0 err out
  rw [loopFrom, Nat.sub_zero] at h
  simp only [Nat.zero_add, Nat.zero_le, true_and] at h
  exact h

theorem zeroFrames_eq [Zero K] (channels err nframes : Nat) (out : Nat → Nat → K) :
    zeroFrames channels err nframes out =
      fun c f => if c < channels ∧ err ≤ f ∧ f < nframes then 0 else out c f :=
  storeFrames_eq (fun _ _ => 0) channels err nframes out

theorem signalSet_eq (s : Nat → Nat → K) (n c : Nat) (z : K) :
    signalSet s n c z = fun j i => if j < c ∧ i < n then z else s j i := by
  have hinner (j : Nat) (s : Nat → Nat → K) :
      loop (fun i s => Function.update s j (Function.update (s j) i z)) n s =
        fun k i => if k = j ∧ i < n then z else s k i := by
    refine loop_eq (fun m => fun k i => if k = j ∧ i < m then z else s k i) (by simp)
      fun m hm => funext fun k => funext fun i => ?_
    by_cases hk : k = j
    · subst hk
      by_cases hi : i = m
      · subst hi
        simp
      · have hlt : i < m+1 ↔ i < m := by omega
        simp [hi, hlt]
    · simp [hk]
  refine loop_eq (fun m => fun j i => if j < m ∧ i < n then z else s j i) (by simp)
    fun m hm => ?_
  rw [hinner]
  refine funext fun j => funext fun i => ?_
  by_cases hj : j = m
  · subst hj
    by_cases hi : i < n <;> simp [hi]
  · have hlt : j < m+1 ↔ j < m := by omega
    simp [hj, hlt]

theorem vectorFrames_period [Zero K] (jBuffer : Nat → K) (channels : Nat) {err nframes : Nat}
    (hle : err ≤ nframes) (out : Nat → Nat → K) :
    vectorFrames (if err < nframes then
        zeroFrames channels err nframes (uninterleave jBuffer channels err out)
      else uninterleave jBuffer channels err out) channels nframes =
      framesOf jBuffer channels err ++
        List.replicate (nframes-err) (List.replicate channels 0) := by
  have hall : (if err < nframes then
      zeroFrames channels err nframes (uninterleave jBuffer channels err out)
      else uninterleave jBuffer channels err out) =
      zeroFrames channels err nframes (uninterleave jBuffer channels err out) := by
    split
    · rfl
    · rw [zeroFrames_eq]
      refine funext fun c => funext fun f => (if_neg ?_).symm
      omega
  obtain ⟨m, rfl⟩ := Nat.exists_eq_add_of_le hle
  rw [hall, zeroFrames_eq, uninterleave_eq, vectorFrames, List.range_add, List.map_append,
    List.map_map, Nat.add_sub_cancel_left]
  congr 1
  · refine List.map_congr_left fun f hf => List.map_congr_left fun c hc => ?_
    have hf := List.mem_range.mp hf
    rw [if_neg (by omega), Nat.mul_comm channels]
    exact if_pos ⟨List.mem_range.mp hc, hf⟩
  · refine List.eq_replicate_iff.mpr ⟨by simp, fun fr hfr => ?_⟩
    obtain ⟨f, hf, rfl⟩ := List.mem_map.mp hfr
    have hlt := List.mem_range.mp hf
    refine List.eq_replicate_iff.mpr ⟨by simp, fun s hs => ?_⟩
    obtain ⟨c, hc, rfl⟩ := List.mem_map.mp hs
    exact if_pos ⟨List.mem_range.mp hc, Nat.le_add_right err f, Nat.add_lt_add_left hlt err⟩

theorem vectorFrames_signalSet (s : Nat → Nat → K) (n c : Nat) (z : K) :
    vectorFrames (signalSet s n c z) c n = List.replicate n (List.replicate c z) := by
  rw [signalSet_eq]
  refine List.eq_replicate_iff.mpr ⟨by simp [vectorFrames], fun fr hfr => ?_⟩
  obtain ⟨f, hf, rfl⟩ := List.mem_map.mp hfr
  refine List.eq_replicate_iff.mpr ⟨by simp, fun v hv => ?_⟩
  obtain ⟨j, hj, rfl⟩ := List.mem_map.mp hv
  exact if_pos ⟨List.mem_range.mp hj, List.mem_range.mp hf⟩

end samples

end Ambix.Jplay
