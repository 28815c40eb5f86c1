import Ambix.JackRingbuffer
import Ambix.RecordsOnce

/-! ambix-jrecord.c: JACK's callback captures frames and a disk thread writes them. What is
captured gets to the file once and in order, however the two are interleaved. -/
namespace Ambix.Jrecord
open Machine
open JackBuffers (bytes)

section samples
variable {α : Type}

def signalInterleaveTo (dst : Nat → α) (src : Nat → Nat → α) (f c : Nat) : Cursor α :=
  interleaveSamples src c (.start dst) f

def interleaveSplit (source : Nat → α) (sourcechannels dst1channels : UInt32) (dst1 dst2 : Nat → α)
    (frames : Nat) : Split α := splitAdaptor source sourcechannels dst1channels dst1 dst2 frames

end samples

/-- Why the process has been ended by `FAILURE`. -/
inductive Failure where
  | periodSize
  | overflow
  | shortWrite
deriving DecidableEq

/-- Where `process` is. -/
inductive Callback where
  | idle
  /-- About to write `nframes` frames to the ring buffer. -/
  | writing (nframes : Nat)
  /-- About to poke the disk thread. -/
  | poking
deriving DecidableEq

/-- Where `disk_thread_procedure` is. -/
inductive DiskThread where
  | top
  /-- In `jack_ringbuffer_wait_for_read`, or just behind it. -/
  | waiting (w : Wait)
  /-- About to write `nframes` frames to the file. -/
  | writing (nframes : Nat)
  | ended
deriving DecidableEq

/-- `struct recorder`, with the places of its threads. -/
structure Recorder (α β R : Type) where
  ringBuffer : R
  /-- Bytes in the pipe. -/
  pipe : Nat
  jBuffer : Nat → α
  dBuffer : Nat → β
  /-- `a_buffer` and `e_buffer`. -/
  bufs : Split α
  /-- What `ambix_writef_float32` has been given. -/
  soundFile : List (Frame α)
  /-- An `int`. -/
  timerCounter : Int
  disk : DiskThread
  callback : Callback
  endOfProcess : Bool
  failure : Option Failure

inductive Action (α : Type) where
  /-- JACK calls `process`. -/
  | process (nframes : Nat) (input : Nat → Nat → α)
  | callback
  | disk
  | signal

section model
variable {α β R : Type} (B : JackRingbuffer R β) (F : BlockCode α β) (S : JackBuffers)
  (timerFrames : Int)

/-- `process` up to the write, with the frames it takes. -/
def process (nframes : Nat) (input : Nat → Nat → α) (x : Recorder α β R) :
    List (List α) × Recorder α β R :=
  let nbytes := nframes*S.channels.toNat*F.width
  if nbytes ≥ S.bufferBytes F then ([], { x with failure := some .periodSize })
  else if B.writeSpace x.ringBuffer < nbytes then ([], { x with failure := some .overflow })
  else (vectorFrames input S.channels.toNat nframes,
    { x with
      jBuffer := (signalInterleaveTo x.jBuffer input nframes S.channels.toNat).data
      callback := .writing nframes })

def callbackStep (x : Recorder α β R) : Recorder α β R :=
  match x.callback with
  | .idle => x
  | .writing nframes =>
    let nbytes := nframes*S.channels.toNat*F.width
    let (err, ringBuffer) := B.write x.ringBuffer
      (F.pack (window x.jBuffer 0 (nframes*S.channels.toNat)))
    if err ≠ nbytes then { x with ringBuffer := ringBuffer, failure := some .shortWrite }
    else { x with ringBuffer := ringBuffer, callback := .poking }
  | .poking => { x with pipe := x.pipe+1, callback := .idle }

/-- One step of `disk_thread_procedure`. -/
def diskStep (x : Recorder α β R) : Recorder α β R :=
  match x.disk with
  | .top => { x with disk := if x.endOfProcess then .ended else .waiting .measuring }
  | .waiting (.enough space) =>
    let nbytes := if space > S.bufferBytes F then S.bufferBytes F else space
    let (data, ringBuffer) := B.read x.ringBuffer nbytes
    let dBuffer := ((Cursor.start x.dBuffer).putAll data).data
    let nframes := S.nframes F nbytes
    { x with
      ringBuffer := ringBuffer
      dBuffer := dBuffer
      bufs := interleaveSplit (F.view dBuffer) S.channels S.aChannels x.bufs.ambi.data
        x.bufs.other.data nframes
      disk := .writing nframes }
  | .waiting w =>
    let (w, pipe) := w.step (S.minimalBytes F) (B.readSpace x.ringBuffer) x.pipe
    { x with disk := .waiting w, pipe := pipe }
  | .writing nframes =>
    let timerCounter := Int.bmod (x.timerCounter+nframes) (2^32)
    { x with
      soundFile := x.soundFile ++ x.bufs.frames S.aChannels.toNat S.eChannels.toNat nframes
      timerCounter := timerCounter
      disk := if 0 < timerFrames ∧ timerFrames ≤ timerCounter then .ended else .top }
  | .ended => x

/-- One step of the program, with the frames that have been captured in it. -/
def step (x : Recorder α β R) (a : Action α) : List (List α) × Recorder α β R :=
  if x.failure.isSome then ([], x)
  else match a with
    | .process nframes input =>
      if x.callback = .idle then process B F S nframes input x else ([], x)
    | .callback => ([], callbackStep B F S x)
    | .disk => ([], diskStep B F S timerFrames x)
    | .signal => ([], { x with endOfProcess := true })

/-- What `main` sets up; the buffers hold anything. -/
def newRecorder (jBuffer aBuffer eBuffer : Nat → α) (dBuffer : Nat → β) : Recorder α β R where
  ringBuffer := B.create (S.bufferBytes F)
  pipe := 0
  jBuffer := jBuffer
  dBuffer := dBuffer
  bufs := ⟨.start aBuffer, .start eBuffer⟩
  soundFile := []
  timerCounter := 0
  disk := .top
  callback := .idle
  endOfProcess := false
  failure := none

abbrev Runs (x : Recorder α β R) (events : List (Event (Recorder α β R) (Action α) (List (List α))))
    (y : Recorder α β R) : Prop := Run (fun x a => .ok (step B F S timerFrames x a)) x events y

/-- All frames that have been captured. -/
def captures (events : List (Event (Recorder α β R) (Action α) (List (List α)))) : List (List α) :=
  events.flatMap fun e => e.answer

end model

/-! What is captured. -/

section conveyed
variable {α β R : Type} {B : JackRingbuffer R β} {F : BlockCode α β} {S : JackBuffers}
  {T : Int} {x : Recorder α β R}

def fileFrame (S : JackBuffers) (fr : List α) : Frame α :=
  (fr.take S.aChannels.toNat, fr.drop S.aChannels.toNat)

/-- The captured frames, by how far they have come. -/
structure Stages (α : Type) where
  written : List (List α)
  /-- In the buffers of the disk thread. -/
  held : List (List α)
  queued : List (List α)
  /-- In the buffer of the callback. -/
  coming : List (List α)

namespace Stages

def all (s : Stages α) : List (List α) := s.written ++ s.held ++ s.queued ++ s.coming

def hold (s : Stages α) (n : Nat) : Stages α :=
  { s with held := s.queued.take n, queued := s.queued.drop n }

theorem all_hold {s : Stages α} (h : s.held = []) (n : Nat) : (s.hold n).all = s.all := by
  simp [all, hold, h]

theorem all_write (s : Stages α) :
    { s with written := s.written ++ s.held, held := [] : Stages α }.all = s.all := by
  simp [all]

theorem all_queue (s : Stages α) :
    { s with queued := s.queued ++ s.coming, coming := [] : Stages α }.all = s.all := by
  simp [all]

theorem all_come {s : Stages α} (h : s.coming = []) (new : List (List α)) :
    { s with coming := new : Stages α }.all = s.all ++ new := by
  simp [all, h]

theorem queued_width {s : Stages α} {w : Nat} (h : ∀ fr ∈ s.all, fr.length = w) :
    ∀ fr ∈ s.queued, fr.length = w := fun fr hfr => h fr (by simp [all, hfr])

theorem coming_width {s : Stages α} {w : Nat} (h : ∀ fr ∈ s.all, fr.length = w) :
    ∀ fr ∈ s.coming, fr.length = w := fun fr hfr => h fr (by simp [all, hfr])

end Stages

def Holds (F : BlockCode α β) (S : JackBuffers) (x : Recorder α β R) (s : Stages α) : Prop :=
  match x.disk with
  | .writing n => s.held.length = n ∧ n ≤ S.bufferFrames ∧
      x.bufs.frames S.aChannels.toNat S.eChannels.toNat n = s.held.map (fileFrame S)
  | .waiting (.enough space) => s.held = [] ∧ ∃ k ≤ s.queued.length, space = k*S.frameBytes F
  | .top | .waiting _ | .ended => s.held = []

def Comes (B : JackRingbuffer R β) (F : BlockCode α β) (S : JackBuffers) (x : Recorder α β R)
    (s : Stages α) : Prop :=
  match x.callback with
  | .writing n => s.coming.length = n ∧ n*S.frameBytes F ≤ B.writeSpace x.ringBuffer ∧
      window x.jBuffer 0 (n*S.channels.toNat) = s.coming.flatten
  | .idle | .poking => s.coming = []

structure Conveys (B : JackRingbuffer R β) (F : BlockCode α β) (S : JackBuffers)
    (x : Recorder α β R) (s : Stages α) : Prop where
  widths : ∀ fr ∈ s.all, fr.length = S.channels.toNat
  written : x.soundFile = s.written.map (fileFrame S)
  queued : B.queue x.ringBuffer = bytes F s.queued
  holds : Holds F S x s
  comes : Comes B F S x s
  whole : x.failure ≠ some .shortWrite

variable {s : Stages α}

theorem Conveys.readSpace (h : Conveys B F S x s) :
    B.readSpace x.ringBuffer = s.queued.length*S.frameBytes F := by
  rw [B.readSpace_eq, h.queued, JackBuffers.bytes_length (Stages.queued_width h.widths)]

theorem Conveys.held_le (h : Conveys B F S x s) : s.held.length ≤ S.bufferFrames := by
  have hholds := h.holds
  unfold Holds at hholds
  split at hholds
  · exact hholds.1 ▸ hholds.2.1
  · rw [hholds.1]
    exact Nat.zero_le _
  · rw [hholds]
    exact Nat.zero_le _
  · rw [hholds]
    exact Nat.zero_le _
  · rw [hholds]
    exact Nat.zero_le _

theorem Conveys.held_nil (h : Conveys B F S x s) (hdisk : ∀ n, x.disk ≠ .writing n) :
    s.held = [] := by
  have hholds := h.holds
  unfold Holds at hholds
  split at hholds
  · rename_i hwriting
    exact absurd hwriting (hdisk _)
  · exact hholds.1
  · exact hholds
  · exact hholds
  · exact hholds

theorem Conveys.coming_nil (h : Conveys B F S x s) (hcallback : ∀ n, x.callback ≠ .writing n) :
    s.coming = [] := by
  have hcomes := h.comes
  unfold Comes at hcomes
  split at hcomes
  · rename_i hwriting
    exact absurd hwriting (hcallback _)
  · exact hcomes
  · exact hcomes

theorem nbytes_eq (n : Nat) : n*S.channels.toNat*F.width = n*S.frameBytes F := Nat.mul_assoc _ _ _

theorem Conveys.process (h : Conveys B F S x s) (hidle : x.callback = .idle) (nframes : Nat)
    (input : Nat → Nat → α) : ∃ s', s'.all = s.all ++ (process B F S nframes input x).1 ∧
      Conveys B F S (process B F S nframes input x).2 s' := by
  have hcoming := h.comes
  rw [Comes, hidle] at hcoming
  rw [Jrecord.process]
  split
  · exact ⟨s, (List.append_nil _).symm, { h with whole := nofun }⟩
  · split
    · exact ⟨s, (List.append_nil _).symm, { h with whole := nofun }⟩
    · rename_i hspace
      let new := vectorFrames input S.channels.toNat nframes
      have hall := Stages.all_come hcoming new
      refine ⟨{ s with coming := new }, hall, { h with widths := ?_, comes := ⟨?_, ?_, ?_⟩ }⟩
      · rw [hall]
        exact List.forall_mem_append.mpr ⟨h.widths, vectorFrames_width⟩
      · exact vectorFrames_length _ _ _
      · rw [← nbytes_eq]
        exact Nat.not_lt.mp hspace
      · have hwindow := window_written x.jBuffer new.flatten le_rfl
        rw [List.take_length, flatten_length vectorFrames_width, vectorFrames_length] at hwindow
        rw [signalInterleaveTo, interleaveSamples_eq]
        exact hwindow

theorem Conveys.callbackStep (h : Conveys B F S x s) :
    ∃ s', s'.all = s.all ∧ Conveys B F S (callbackStep B F S x) s' := by
  have hcomes := h.comes
  rw [Jrecord.callbackStep]
  cases hcallback : x.callback with
  | idle => exact ⟨s, rfl, h⟩
  | poking =>
    rw [Comes, hcallback] at hcomes
    exact ⟨s, rfl, { h with comes := hcomes }⟩
  | writing n =>
    rw [Comes, hcallback] at hcomes
    obtain ⟨hlength, hfits, hwindow⟩ := hcomes
    have hwidth := Stages.coming_width h.widths
    have hbytes : F.pack (window x.jBuffer 0 (n*S.channels.toNat)) = bytes F s.coming := by
      rw [hwindow]
      rfl
    have hcount : (bytes F s.coming).length = n*S.frameBytes F := by
      rw [JackBuffers.bytes_length hwidth, hlength]
    obtain ⟨herr, hqueue⟩ := B.write_fits (r := x.ringBuffer) (hcount ▸ hfits)
    dsimp only
    rw [hbytes, if_neg (not_not_intro (by rw [herr, hcount, nbytes_eq]))]
    refine ⟨{ s with queued := s.queued ++ s.coming, coming := [] }, s.all_queue,
      { h with widths := ?_, queued := ?_, holds := ?_, comes := rfl }⟩
    · rw [s.all_queue]
      exact h.widths
    · dsimp only
      rw [hqueue, h.queued, JackBuffers.bytes_append]
    · have hholds := h.holds
      unfold Holds at hholds ⊢
      dsimp only at hholds ⊢
      cases hdisk : x.disk with
      | waiting w =>
        rw [hdisk] at hholds
        cases w with
        | enough space =>
          obtain ⟨hheld, k, hk, hspace⟩ := hholds
          refine ⟨hheld, k, ?_, hspace⟩
          rw [List.length_append]
          omega
        | measuring => exact hholds
        | sleeping => exact hholds
      | top => rwa [hdisk] at hholds
      | writing n => rwa [hdisk] at hholds
      | ended => rwa [hdisk] at hholds

theorem Conveys.take (h : Conveys B F S x s) {space : Nat}
    (hdisk : x.disk = .waiting (.enough space)) :
    ∃ s', s'.all = s.all ∧ Conveys B F S (diskStep B F S T x) s' := by
  have hholds := h.holds
  rw [Holds, hdisk] at hholds
  obtain ⟨hheld, k, hk, rfl⟩ := hholds
  -- the local buffers are whole frames long, too
  obtain ⟨n, hn, hle, hnbytes⟩ : ∃ n, n ≤ k ∧ n ≤ S.bufferFrames ∧
      (if k*S.frameBytes F > S.bufferBytes F then S.bufferBytes F else k*S.frameBytes F) =
        n*S.frameBytes F := by
    have hpos := S.frameBytes_pos F
    rw [S.bufferBytes_eq F]
    by_cases hmore : k*S.frameBytes F > S.bufferFrames*S.frameBytes F
    · refine ⟨S.bufferFrames, ?_, le_rfl, if_pos hmore⟩
      exact Nat.le_of_lt (Nat.lt_of_mul_lt_mul_right hmore)
    · refine ⟨k, le_rfl, ?_, if_neg hmore⟩
      exact Nat.le_of_mul_le_mul_right (Nat.not_lt.mp hmore) hpos
  have hwidth := Stages.queued_width h.widths
  have hread : (B.read x.ringBuffer (n*S.frameBytes F)).1 = bytes F (s.queued.take n) := by
    rw [B.read_bytes, h.queued, JackBuffers.bytes_take hwidth]
  have hlength : (s.queued.take n).length = n := by
    rw [List.length_take]
    omega
  have htaken : ∀ fr ∈ s.queued.take n, fr.length = S.channels.toNat :=
    fun fr hfr => hwidth fr (List.mem_of_mem_take hfr)
  have hframes := JackBuffers.framesOf_bytes (F := F) htaken x.dBuffer
  rw [hlength] at hframes
  rw [diskStep, hdisk]
  dsimp only
  rw [hnbytes, hread, JackBuffers.nframes_mul]
  refine ⟨s.hold n, Stages.all_hold hheld n, { h with
    widths := ?_, queued := ?_, holds := ⟨hlength, hle, ?_⟩, comes := ?_ }⟩
  · rw [Stages.all_hold hheld]
    exact h.widths
  · dsimp only
    rw [B.read_queue, h.queued, JackBuffers.bytes_drop hwidth]
    rfl
  · obtain ⟨hambi, hother⟩ := framesOf_split
      (F.view ((Cursor.start x.dBuffer).putAll (bytes F (s.queued.take n))).data)
      x.bufs.ambi.data x.bufs.other.data n S.aChannels_le
    have hextra : S.channels.toNat-S.aChannels.toNat = S.eChannels.toNat := by
      rw [S.channels_toNat, Nat.add_sub_cancel_left]
    rw [hframes] at hambi hother
    rw [hextra] at hother
    dsimp only [interleaveSplit]
    rw [Split.frames, hambi, hother, List.zip_map']
    rfl
  · have hcomes := h.comes
    have hspace := B.writeSpace_read x.ringBuffer (n*S.frameBytes F)
    unfold Comes at hcomes ⊢
    dsimp only at hcomes ⊢
    cases hcallback : x.callback with
    | writing m =>
      rw [hcallback] at hcomes
      exact ⟨hcomes.1, hcomes.2.1.trans hspace, hcomes.2.2⟩
    | idle => rwa [hcallback] at hcomes
    | poking => rwa [hcallback] at hcomes

theorem Conveys.diskStep (h : Conveys B F S x s) :
    ∃ s', s'.all = s.all ∧ Conveys B F S (diskStep B F S T x) s' := by
  have hholds := h.holds
  cases hdisk : x.disk with
  | top =>
    rw [Holds, hdisk] at hholds
    rw [Jrecord.diskStep, hdisk]
    refine ⟨s, rfl, { h with holds := ?_ }⟩
    rw [Holds]
    cases x.endOfProcess <;> exact hholds
  | ended =>
    rw [Jrecord.diskStep, hdisk]
    exact ⟨s, rfl, h⟩
  | writing n =>
    rw [Holds, hdisk] at hholds
    obtain ⟨-, -, hframes⟩ := hholds
    rw [Jrecord.diskStep, hdisk]
    refine ⟨{ s with written := s.written ++ s.held, held := [] }, s.all_write,
      { h with widths := ?_, written := ?_, holds := ?_ }⟩
    · rw [s.all_write]
      exact h.widths
    · dsimp only
      rw [hframes, h.written, List.map_append]
    · rw [Holds]
      dsimp only
      by_cases htimer : 0 < T ∧ T ≤ Int.bmod (x.timerCounter+n) (2^32)
      · rw [if_pos htimer]
      · rw [if_neg htimer]
  | waiting w =>
    cases w with
    | enough space => exact h.take hdisk
    | sleeping =>
      rw [Holds, hdisk] at hholds
      rw [Jrecord.diskStep, hdisk]
      refine ⟨s, rfl, { h with holds := ?_ }⟩
      rw [Holds]
      dsimp only [Wait.step]
      by_cases htokens : x.pipe = 0
      · rw [if_pos htokens]
        exact hholds
      · rw [if_neg htokens]
        exact hholds
    | measuring =>
      rw [Holds, hdisk] at hholds
      rw [Jrecord.diskStep, hdisk]
      refine ⟨s, rfl, { h with holds := ?_ }⟩
      rw [Holds]
      dsimp only [Wait.step]
      by_cases hspace : (B.readSpace x.ringBuffer : Int) < S.minimalBytes F
      · rw [if_pos hspace]
        exact hholds
      · rw [if_neg hspace]
        exact ⟨hholds, s.queued.length, le_rfl, h.readSpace⟩

theorem Conveys.step (h : Conveys B F S x s) (a : Action α) :
    ∃ s', s'.all = s.all ++ (step B F S T x a).1 ∧
      Conveys B F S (step B F S T x a).2 s' := by
  have hsame : s.all = s.all ++ [] := (List.append_nil _).symm
  by_cases hfailure : x.failure.isSome = true
  · unfold Jrecord.step
    rw [if_pos hfailure]
    exact ⟨s, hsame, h⟩
  · unfold Jrecord.step
    rw [if_neg hfailure]
    cases a with
    | process nframes input =>
      dsimp only
      split
      · rename_i hidle
        exact h.process hidle nframes input
      · exact ⟨s, hsame, h⟩
    | callback =>
      obtain ⟨s', hall, hnext⟩ := h.callbackStep
      exact ⟨s', hall.trans hsame, hnext⟩
    | disk =>
      obtain ⟨s', hall, hnext⟩ := h.diskStep (T := T)
      exact ⟨s', hall.trans hsame, hnext⟩
    | signal => exact ⟨s, hsame, { h with }⟩

theorem Conveys.start (jBuffer aBuffer eBuffer : Nat → α) (dBuffer : Nat → β) :
    Conveys B F S (newRecorder B F S jBuffer aBuffer eBuffer dBuffer) ⟨[], [], [], []⟩ where
  widths := nofun
  written := rfl
  queued := B.create_queue _
  holds := rfl
  comes := rfl
  whole := nofun

theorem Conveys.run {jBuffer aBuffer eBuffer : Nat → α} {dBuffer : Nat → β}
    {events : List (Event (Recorder α β R) (Action α) (List (List α)))} {y : Recorder α β R}
    (hrun : Runs B F S T (newRecorder B F S jBuffer aBuffer eBuffer dBuffer) events y) :
    ∃ s, s.all = captures events ∧ Conveys B F S y s := by
  refine hrun.invariant
    (fun events y => ∃ s : Stages α, s.all = captures events ∧ Conveys B F S y s)
    ⟨_, rfl, Conveys.start _ _ _ _⟩ ?_
  intro events y a answer z hcall h
  obtain ⟨s, hall, h⟩ := h
  have hstep : Jrecord.step B F S T y a = (answer, z) := Except.ok.inj hcall
  obtain ⟨s', hall', hnext⟩ := h.step (T := T) a
  rw [hstep, hall] at hall'
  rw [hstep] at hnext
  refine ⟨s', ?_, hnext⟩
  rw [captures, List.flatMap_append, List.flatMap_singleton]
  exact hall'

/-- Nothing of what has been captured is lost or doubled or comes in another order. -/
theorem conveyed {jBuffer aBuffer eBuffer : Nat → α} {dBuffer : Nat → β}
    {events : List (Event (Recorder α β R) (Action α) (List (List α)))} {y : Recorder α β R}
    (hrun : Runs B F S T (newRecorder B F S jBuffer aBuffer eBuffer dBuffer) events y) :
    ∃ s : Stages α, s.all = captures events ∧ y.soundFile = s.written.map (fileFrame S) ∧
      B.queue y.ringBuffer = bytes F s.queued ∧ s.held.length ≤ S.bufferFrames ∧
      ((∀ n, y.disk ≠ .writing n) → s.held = []) ∧
      ((∀ n, y.callback ≠ .writing n) → s.coming = []) ∧ y.failure ≠ some .shortWrite := by
  obtain ⟨s, hall, h⟩ := Conveys.run hrun
  exact ⟨s, hall, h.written, h.queued, h.held_le, h.held_nil, h.coming_nil, h.whole⟩

end conveyed

def fourRecorder : Recorder UInt32 UInt8 (List UInt8 × Nat) :=
  newRecorder byteRing floatBits fourFrames (fun _ => 0) (fun _ => 0) (fun _ => 0) fun _ => 0

def fourRun (timerFrames : Int) (actions : List (Action UInt32)) :
    List (Event (Recorder UInt32 UInt8 (List UInt8 × Nat)) (Action UInt32) (List (List UInt32))) :=
  trace (step byteRing floatBits fourFrames timerFrames) fourRecorder actions

def fourEnd (timerFrames : Int) (actions : List (Action UInt32)) :
    Recorder UInt32 UInt8 (List UInt8 × Nat) :=
  leadsTo (step byteRing floatBits fourFrames timerFrames) fourRecorder actions

def threeFrames : List (Action UInt32) :=
  [.process 2 fun _ f => f.toUInt32+7, .disk, .callback, .callback, .disk, .process 1 fun _ _ => 9,
    .disk, .disk]

theorem conveyed_three : ∃ s : Stages UInt32, s.all = captures (fourRun (-1) threeFrames) ∧
    (fourEnd (-1) threeFrames).soundFile = s.written.map (fileFrame fourFrames) ∧
    byteRing.queue (fourEnd (-1) threeFrames).ringBuffer = bytes floatBits s.queued ∧
    s.held.length ≤ fourFrames.bufferFrames ∧
    ((∀ n, (fourEnd (-1) threeFrames).disk ≠ .writing n) → s.held = []) ∧
    ((∀ n, (fourEnd (-1) threeFrames).callback ≠ .writing n) → s.coming = []) ∧
    (fourEnd (-1) threeFrames).failure ≠ some .shortWrite :=
  conveyed (Run.of_calls _ _ _)

example : (fourEnd (-1) threeFrames).soundFile = [([7], []), ([8], [])] := by decide

end Ambix.Jrecord
