import Ambix.Jplay
import Ambix.Views

/-! What ambix-jplay loads and what is heard of it. -/
namespace Ambix.Jplay
open Machine
open JackBuffers (bytes)

section heard
variable {K β R : Type} [Field K] {P : Platform K} {B : JackRingbuffer R β} {F : BlockCode K β}
  {S : JackBuffers} {t : Bool} {x : Player K β R}

/-- The loaded frames, by how far they have come. -/
structure Stages (K : Type) where
  played : List (List K)
  queued : List (List K)
  /-- In `d_buffer`. -/
  held : List (List K)

namespace Stages

def all (s : Stages K) : List (List K) := s.played ++ s.queued ++ s.held

def play (s : Stages K) (n : Nat) : Stages K :=
  { s with played := s.played ++ s.queued.take n, queued := s.queued.drop n }

omit [Field K] in
theorem all_play (s : Stages K) (n : Nat) : (s.play n).all = s.all := by
  simp [all, play]

omit [Field K] in
theorem all_store (s : Stages K) :
    { s with queued := s.queued ++ s.held, held := [] : Stages K }.all = s.all := by
  simp [all]

omit [Field K] in
theorem all_load {s : Stages K} (h : s.held = []) (new : List (List K)) :
    { s with held := new : Stages K }.all = s.all ++ new := by
  simp [all, h]

omit [Field K] in
theorem queued_width {s : Stages K} {w : Nat} (h : ∀ fr ∈ s.all, fr.length = w) :
    ∀ fr ∈ s.queued, fr.length = w := fun fr hfr => h fr (by simp [all, hfr])

omit [Field K] in
theorem held_width {s : Stages K} {w : Nat} (h : ∀ fr ∈ s.all, fr.length = w) :
    ∀ fr ∈ s.held, fr.length = w := fun fr hfr => h fr (by simp [all, hfr])

end Stages

def Holds (B : JackRingbuffer R β) (F : BlockCode K β) (S : JackBuffers) (x : Player K β R)
    (s : Stages K) : Prop :=
  match x.disk with
  | .storing n => s.held.length = n ∧ n*S.frameBytes F ≤ B.writeSpace x.ringBuffer ∧
      window x.dBuffer 0 (n*S.channels.toNat) = s.held.flatten
  | .waiting (.enough space) => s.held = [] ∧ space ≤ B.writeSpace x.ringBuffer
  | .top | .seeking | .waiting _ | .ended => s.held = []

structure Conveys (B : JackRingbuffer R β) (F : BlockCode K β) (S : JackBuffers)
    (x : Player K β R) (s : Stages K) : Prop where
  widths : ∀ fr ∈ s.all, fr.length = S.channels.toNat
  queued : B.queue x.ringBuffer = bytes F s.queued
  holds : Holds B F S x s

/-- What comes after the frames of the ring buffer is silence. -/
def Hushed (S : JackBuffers) (o : Output K) : Prop :=
  ∀ fr ∈ o.out.drop o.err, fr = List.replicate S.channels.toNat 0

theorem hushed_nothing : Hushed S (nothing K) := nofun

variable {s : Stages K}

theorem Conveys.of_same (h : Conveys B F S x s) {y : Player K β R}
    (hring : y.ringBuffer = x.ringBuffer) (hdisk : y.disk = x.disk) (hd : y.dBuffer = x.dBuffer) :
    Conveys B F S y s where
  widths := h.widths
  queued := by rw [hring, h.queued]
  holds := by
    have hholds := h.holds
    unfold Holds at hholds ⊢
    rw [hdisk, hring, hd]
    exact hholds

theorem Conveys.move (h : Conveys B F S x s) (hheld : s.held = []) {y : Player K β R}
    (hring : y.ringBuffer = x.ringBuffer)
    (hdisk : (∀ n, y.disk ≠ .storing n) ∧
      ∀ n, y.disk = .waiting (.enough n) → n ≤ B.writeSpace x.ringBuffer) :
    Conveys B F S y s where
  widths := h.widths
  queued := by rw [hring, h.queued]
  holds := by
    unfold Holds
    split
    · rename_i n hstoring
      exact absurd hstoring (hdisk.1 n)
    · rename_i n henough
      rw [hring]
      exact ⟨hheld, hdisk.2 n henough⟩
    · exact hheld
    · exact hheld
    · exact hheld
    · exact hheld

/-! The callback. -/

theorem Conveys.signalProc (h : Conveys B F S x s) (nframes : Nat) (out : Nat → Nat → K)
    (rolling : Bool) :
    let r := signalProc B F S t nframes out rolling x
    Hushed S r.1 ∧ r.1.loaded = [] ∧ ∃ s', s'.played = s.played ++ r.1.out.take r.1.err ∧
      s'.all = s.all ∧ Conveys B F S r.2 s' := by
  have hnone : s.played = s.played ++ (nothing K).out.take (nothing K).err :=
    (List.append_nil _).symm
  dsimp only
  unfold Jplay.signalProc
  dsimp only
  split
  · exact ⟨hushed_nothing, rfl, s, hnone, rfl, h.of_same rfl rfl rfl⟩
  · split
    · split
      · exact ⟨hushed_nothing, rfl, s, hnone, rfl, h.of_same rfl rfl rfl⟩
      · refine ⟨fun fr hfr => ?_, rfl, s, (List.append_nil _).symm, rfl, h⟩
        dsimp only at hfr
        rw [vectorFrames_signalSet] at hfr
        exact List.eq_of_mem_replicate (List.mem_of_mem_drop hfr)
    · have hwidth := Stages.queued_width h.widths
      have htaken : ∀ fr ∈ s.queued.take nframes, fr.length = S.channels.toNat :=
        fun fr hfr => hwidth fr (List.mem_of_mem_take hfr)
      have hdata : (B.read x.ringBuffer (nframes*S.channels.toNat*F.width)).1 =
          bytes F (s.queued.take nframes) := by
        rw [B.read_bytes, h.queued, Nat.mul_assoc]
        exact JackBuffers.bytes_take hwidth nframes
      have herr : (bytes F (s.queued.take nframes)).length/(F.width*S.channels.toNat) =
          (s.queued.take nframes).length := by
        rw [JackBuffers.bytes_length htaken, Nat.mul_comm F.width]
        exact Nat.mul_div_cancel _ (S.frameBytes_pos F)
      have hframes := JackBuffers.framesOf_bytes htaken x.jBuffer (F := F)
      have hperiod := vectorFrames_period
        (F.view ((Cursor.start x.jBuffer).putAll (bytes F (s.queued.take nframes))).data)
        S.channels.toNat (List.length_take_le nframes s.queued) out
      rw [hdata, herr, hperiod, hframes]
      refine ⟨fun fr hfr => ?_, rfl, s.play nframes, ?_, s.all_play nframes, ?_⟩
      · dsimp only at hfr
        rw [List.drop_left] at hfr
        exact List.eq_of_mem_replicate hfr
      · rw [List.take_left]
        rfl
      · refine ⟨?_, ?_, ?_⟩
        · rw [s.all_play]
          exact h.widths
        · dsimp only
          rw [B.read_queue, h.queued, Nat.mul_assoc]
          exact JackBuffers.bytes_drop hwidth nframes
        · have hholds := h.holds
          have hspace := B.writeSpace_read x.ringBuffer (nframes*S.channels.toNat*F.width)
          unfold Holds at hholds ⊢
          dsimp only at hholds ⊢
          cases hdisk : x.disk with
          | storing n =>
            rw [hdisk] at hholds
            exact ⟨hholds.1, hholds.2.1.trans hspace, hholds.2.2⟩
          | waiting w =>
            rw [hdisk] at hholds
            cases w with
            | enough space => exact ⟨hholds.1, hholds.2.trans hspace⟩
            | measuring => exact hholds
            | sleeping => exact hholds
          | top => rwa [hdisk] at hholds
          | seeking => rwa [hdisk] at hholds
          | ended => rwa [hdisk] at hholds

/-! The disk thread. -/

theorem readf_count {h h' : Handle K} {type : SampleType} {ambidata otherdata : Nat → K}
    {n got : Nat} {split : Split K}
    (hr : h.readf P type ambidata otherdata n = .ok (.ok (got, split), h')) : got ≤ n := by
  obtain ⟨size, -, rfl, -⟩ := readf_ok hr
  unfold sfReadf
  split
  · exact List.length_take_le _ _
  · exact Nat.zero_le _

theorem Conveys.load (h : Conveys B F S x s) (hheld : s.held = []) {n : Nat}
    (hspace : n*S.frameBytes F ≤ B.writeSpace x.ringBuffer) (aBuffer eBuffer dBuffer : Nat → K)
    {y : Player K β R} (hring : y.ringBuffer = x.ringBuffer) :
    let r := load S y aBuffer eBuffer dBuffer n
    Hushed S r.1 ∧ r.1.out.take r.1.err = [] ∧ ∃ s', s'.played = s.played ∧
      s'.all = s.all ++ r.1.loaded ∧ Conveys B F S r.2 s' := by
  let new := framesOf
    (interleaveData aBuffer S.aChannels eBuffer S.eChannels dBuffer n) S.channels.toNat n
  have hall := Stages.all_load hheld new
  refine ⟨nofun, rfl, { s with held := new }, rfl, hall, ?_, ?_, ?_⟩
  · rw [hall]
    exact List.forall_mem_append.mpr ⟨h.widths, framesOf_width⟩
  · exact (congrArg B.queue hring).trans h.queued
  · refine ⟨framesOf_length _ _ _, ?_, ?_⟩
    · exact hring ▸ hspace
    · rw [Nat.mul_comm]
      exact (framesOf_flatten _ _ _).symm

omit [Field K] in
theorem nframes_fits {nbytes space : Nat} (h : nbytes ≤ space) :
    S.nframes F nbytes*S.frameBytes F ≤ space := by
  rw [JackBuffers.nframes, Nat.div_div_eq_div_mul, Nat.mul_comm F.width]
  exact (Nat.div_mul_le_self _ _).trans h

/-- What one step of the disk thread does to the frames. -/
structure Steps (B : JackRingbuffer R β) (F : BlockCode K β) (S : JackBuffers) (s : Stages K)
    (r : Output K × Player K β R) : Prop where
  hushed : Hushed S r.1
  unheard : r.1.out.take r.1.err = []
  next : ∃ s', s'.played = s.played ∧ s'.all = s.all ++ r.1.loaded ∧ Conveys B F S r.2 s'

theorem Steps.of_nothing {y : Player K β R} (h : Conveys B F S y s) :
    Steps B F S s (nothing K, y) :=
  ⟨hushed_nothing, rfl, s, rfl, (List.append_nil _).symm, h⟩

theorem Conveys.take (h : Conveys B F S x s) {space : Nat}
    (hdisk : x.disk = .waiting (.enough space)) :
    Steps B F S s (diskStep P B F S t x) := by
  have hholds := h.holds
  rw [Holds, hdisk] at hholds
  obtain ⟨hheld, hspace⟩ := hholds
  have hnbytes : (if space > S.bufferBytes F then S.bufferBytes F else space) ≤
      B.writeSpace x.ringBuffer := by
    split <;> omega
  rw [diskStep, hdisk]
  dsimp only
  generalize (if space > S.bufferBytes F then S.bufferBytes F else space) = nbytes at hnbytes ⊢
  have hfits := nframes_fits (F := F) (S := S) hnbytes
  generalize hread : x.soundFile.readf P .float32 x.aBuffer x.eBuffer (S.nframes F nbytes) = r
  match r, hread with
  | .error fault, hread => exact .of_nothing (h.move hheld rfl (by simp [hdisk, hspace]))
  | .ok (.error err, soundFile), hread =>
    exact .of_nothing (h.move hheld rfl (by simp [hdisk, hspace]))
  | .ok (.ok (got, split), soundFile), hread =>
    rw [refill]
    dsimp only
    by_cases hgot : got = 0
    · rw [if_pos hgot]
      cases t with
      | true =>
        obtain ⟨hhushed, hunheard, hnext⟩ := h.load hheld hfits
          (memset0 split.ambi.data (S.nframes F nbytes*S.aChannels.toNat))
          (memset0 split.other.data (S.nframes F nbytes*S.eChannels.toNat))
          (memset0 x.dBuffer (S.nframes F nbytes*S.channels.toNat))
          (y := { x with soundFile := soundFile }) rfl
        exact ⟨hhushed, hunheard, hnext⟩
      | false => exact .of_nothing (h.move hheld rfl (by simp))
    · rw [if_neg hgot]
      have hless := Nat.mul_le_mul_right (S.frameBytes F) (readf_count hread)
      obtain ⟨hhushed, hunheard, hnext⟩ := h.load hheld (hless.trans hfits) split.ambi.data
        split.other.data x.dBuffer (y := { x with soundFile := soundFile }) rfl
      exact ⟨hhushed, hunheard, hnext⟩

theorem Conveys.store (h : Conveys B F S x s) {n : Nat} (hdisk : x.disk = .storing n) :
    Steps B F S s (diskStep P B F S t x) := by
  have hholds := h.holds
  rw [Holds, hdisk] at hholds
  obtain ⟨hlength, hspace, hwindow⟩ := hholds
  have hbytes : F.pack (window x.dBuffer 0 (n*S.channels.toNat)) = bytes F s.held := by
    rw [hwindow]
    rfl
  have hcount : (bytes F s.held).length = n*S.frameBytes F := by
    rw [JackBuffers.bytes_length (Stages.held_width h.widths), hlength]
  obtain ⟨-, hqueue⟩ := B.write_fits (r := x.ringBuffer) (hcount ▸ hspace)
  rw [diskStep, hdisk]
  dsimp only
  rw [hbytes]
  refine ⟨hushed_nothing, rfl, { s with queued := s.queued ++ s.held, held := [] }, rfl, ?_, ?_, ?_,
    rfl⟩
  · rw [s.all_store]
    exact (List.append_nil _).symm
  · rw [s.all_store]
    exact h.widths
  · dsimp only
    rw [hqueue, h.queued, JackBuffers.bytes_append]

theorem Conveys.diskStep (h : Conveys B F S x s) :
    Steps B F S s (diskStep P B F S t x) := by
  have hholds := h.holds
  cases hdisk : x.disk with
  | top =>
    rw [Holds, hdisk] at hholds
    rw [Jplay.diskStep, hdisk]
    dsimp only
    split
    · exact .of_nothing (h.move hholds rfl (by simp))
    · split
      · exact .of_nothing (h.move hholds rfl (by simp))
      · exact .of_nothing (h.move hholds rfl (by simp))
  | seeking =>
    rw [Holds, hdisk] at hholds
    rw [Jplay.diskStep, hdisk]
    exact .of_nothing (h.move hholds rfl (by simp))
  | ended =>
    rw [Jplay.diskStep, hdisk]
    exact .of_nothing h
  | storing n => exact h.store hdisk
  | waiting w =>
    cases w with
    | enough space => exact h.take hdisk
    | measuring =>
      rw [Holds, hdisk] at hholds
      rw [Jplay.diskStep, hdisk]
      dsimp only [Wait.step]
      by_cases hspace : (B.writeSpace x.ringBuffer : Int) < S.minimalBytes F
      · rw [if_pos hspace]
        exact .of_nothing (h.move hholds rfl (by simp))
      · rw [if_neg hspace]
        exact .of_nothing (h.move hholds rfl (by simp))
    | sleeping =>
      rw [Holds, hdisk] at hholds
      rw [Jplay.diskStep, hdisk]
      dsimp only [Wait.step]
      by_cases htokens : x.pipe = 0
      · rw [if_pos htokens]
        exact .of_nothing (h.move hholds rfl (by simp))
      · rw [if_neg htokens]
        exact .of_nothing (h.move hholds rfl (by simp))

/-! A whole run. -/

theorem Conveys.step (h : Conveys B F S x s) (a : Action K) :
    let r := step P B F S t x a
    Hushed S r.1 ∧ ∃ s', s'.played = s.played ++ r.1.out.take r.1.err ∧
      s'.all = s.all ++ r.1.loaded ∧ Conveys B F S r.2 s' := by
  have hsame {y : Player K β R} (hy : Conveys B F S y s) :
      Hushed S (nothing K) ∧ ∃ s', s'.played = s.played ++ [] ∧ s'.all = s.all ++ [] ∧
        Conveys B F S y s' :=
    ⟨hushed_nothing, s, (List.append_nil _).symm, (List.append_nil _).symm, hy⟩
  dsimp only
  unfold Jplay.step
  by_cases hfailure : x.failure.isSome = true
  · rw [if_pos hfailure]
    exact hsame h
  · rw [if_neg hfailure]
    cases a with
    | process nframes out rolling =>
      dsimp only
      by_cases hidle : x.callback = .idle
      · rw [if_pos hidle]
        obtain ⟨hhushed, hloaded, s', hplayed, hall, hnext⟩ := h.signalProc nframes out rolling
          (t := t)
        refine ⟨hhushed, s', hplayed, ?_, hnext⟩
        rw [hall, hloaded, List.append_nil]
      · rw [if_neg hidle]
        exact hsame h
    | callback =>
      refine hsame ?_
      rw [callbackStep]
      cases x.callback with
      | idle => exact h
      | poking => exact h.of_same rfl rfl rfl
    | sync frame =>
      dsimp only
      cases t with
      | true => exact hsame (h.of_same rfl rfl rfl)
      | false => exact hsame h
    | disk =>
      obtain ⟨hhushed, hunheard, s', hplayed, hall, hnext⟩ :=
        h.diskStep (P := P) (t := t)
      refine ⟨hhushed, s', ?_, hall, hnext⟩
      dsimp only
      rw [hunheard, hplayed, List.append_nil]
    | signal => exact hsame (h.of_same rfl rfl rfl)

/-- What the events of a run have to do with the state it ends in. -/
structure Follows (B : JackRingbuffer R β) (F : BlockCode K β) (S : JackBuffers)
    (events : List (Event (Player K β R) (Action K) (Output K))) (y : Player K β R) : Prop where
  hushed : ∀ e ∈ events, Hushed S e.answer
  stages : ∃ s : Stages K, s.played = plays events ∧ s.all = loads events ∧ Conveys B F S y s

theorem Follows.call {events : List (Event (Player K β R) (Action K) (Output K))}
    {y z : Player K β R} {a : Action K} {answer : Output K} (h : Follows B F S events y)
    (hstep : Jplay.step P B F S t y a = (answer, z)) :
    Follows B F S (events ++ [⟨y, a, answer⟩]) z := by
  obtain ⟨s, hplayed, hall, hconveys⟩ := h.stages
  obtain ⟨hhushed, s', hplayed', hall', hnext⟩ := hconveys.step (P := P) (t := t) a
  rw [hstep] at hhushed hplayed' hall' hnext
  refine ⟨?_, s', ?_, ?_, hnext⟩
  · exact List.forall_mem_append.mpr ⟨h.hushed, List.forall_mem_singleton.mpr hhushed⟩
  · rw [hplayed', hplayed, plays, plays, List.flatMap_append, List.flatMap_singleton]
  · rw [hall', hall, loads, loads, List.flatMap_append, List.flatMap_singleton]

theorem Follows.run {soundFile : Handle K} {seekRequest : Int} {aBuffer eBuffer dBuffer : Nat → K}
    {jBuffer : Nat → β} {events : List (Event (Player K β R) (Action K) (Output K))}
    {y : Player K β R}
    (hrun : Runs P B F S t
      (newPlayer B F S soundFile seekRequest aBuffer eBuffer dBuffer jBuffer) events y) :
    Follows B F S events y := by
  refine hrun.invariant (Follows B F S) ?_ fun events y a answer z hcall h =>
    h.call (Except.ok.inj hcall)
  exact ⟨by simp, ⟨[], [], []⟩, rfl, rfl, by simp [Stages.all], B.create_queue _, rfl⟩

/-- Nothing of what has been loaded is lost or doubled or comes in another order, and the rest of
every period is silence. -/
theorem loaded_heard {soundFile : Handle K} {seekRequest : Int}
    {aBuffer eBuffer dBuffer : Nat → K} {jBuffer : Nat → β}
    {events : List (Event (Player K β R) (Action K) (Output K))} {y : Player K β R}
    (hrun : Runs P B F S t
      (newPlayer B F S soundFile seekRequest aBuffer eBuffer dBuffer jBuffer) events y) :
    (∀ e ∈ events, Hushed S e.answer) ∧ ∃ queued held,
      loads events = plays events ++ queued ++ held ∧ B.queue y.ringBuffer = bytes F queued ∧
      ((∀ n, y.disk ≠ .storing n) → held = []) := by
  have h := Follows.run hrun
  obtain ⟨s, hplayed, hall, hconveys⟩ := h.stages
  refine ⟨h.hushed, s.queued, s.held, ?_, hconveys.queued, fun hdisk => ?_⟩
  · rw [← hall, Stages.all, hplayed]
  · have hholds := hconveys.holds
    unfold Holds at hholds
    split at hholds
    · rename_i hstoring
      exact absurd hstoring (hdisk _)
    · exact hholds.1
    · exact hholds
    · exact hholds
    · exact hholds
    · exact hholds

end heard

def stereoBuffers : JackBuffers := ⟨1, 1, 4, 1, by decide, by decide⟩

def fragmentRing : JackRingbuffer (List (ℚ × Fin 4) × Nat) (ℚ × Fin 4) := listRing _

def stereoPlayer (soundFile : Handle ℚ) : Player ℚ (ℚ × Fin 4) (List (ℚ × Fin 4) × Nat) :=
  newPlayer fragmentRing (fragments ℚ) stereoBuffers soundFile (-1) (fun _ => 0) (fun _ => 0)
    (fun _ => 0) fun _ => 0

def stereoStep (t : Bool) (x : Player ℚ (ℚ × Fin 4) (List (ℚ × Fin 4) × Nat)) (a : Action ℚ) :
    Output ℚ × Player ℚ (ℚ × Fin 4) (List (ℚ × Fin 4) × Nat) :=
  step unitPlatform fragmentRing (fragments ℚ) stereoBuffers t x a

def onePeriod : List (Action ℚ) :=
  [.disk, .disk, .disk, .disk, .disk, .process 1 (fun _ _ => 0) true, .disk, .callback, .disk]

theorem loaded_heard_stereo : ∃ h : Handle ℚ,
    ambixOpen unitPlatform (unitDisk (some stereoFile)) .read ⟨.basic, 0, 0⟩ = .ok (some h) ∧
    (∀ e ∈ trace (stereoStep true) (stereoPlayer h) onePeriod, Hushed stereoBuffers e.answer) ∧
    ∃ queued held, loads (trace (stereoStep true) (stereoPlayer h) onePeriod) =
        plays (trace (stereoStep true) (stereoPlayer h) onePeriod) ++ queued ++ held ∧
      fragmentRing.queue (leadsTo (stereoStep true) (stereoPlayer h) onePeriod).ringBuffer =
        bytes (fragments ℚ) queued ∧
      ((∀ n, (leadsTo (stereoStep true) (stereoPlayer h) onePeriod).disk ≠ .storing n) →
        held = []) :=
  ⟨_, rfl, loaded_heard (Run.of_calls _ _ _)⟩

end Ambix.Jplay
