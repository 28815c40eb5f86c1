import Ambix.JplayFile

/-! The wait of ambix-jplay's disk thread for space in the ring buffer. -/
namespace Ambix.Jplay
open Machine
open JackBuffers (bytes)

section wakeup
variable {K β R : Type} [Field K] {P : Platform K} {B : JackRingbuffer R β} {F : BlockCode K β}
  {S : JackBuffers} {t : Bool} {x : Player K β R}

/-- The disk thread does not sleep while there is enough space. -/
def Alert (B : JackRingbuffer R β) (F : BlockCode K β) (S : JackBuffers) (x : Player K β R) :
    Prop :=
  ∀ w, x.disk = .waiting w →
    w.Sound (S.minimalBytes F) (B.writeSpace x.ringBuffer) x.pipe (decide (x.callback = .poking))

theorem Alert.of_same (h : Alert B F S x) {y : Player K β R} (hring : y.ringBuffer = x.ringBuffer)
    (hpipe : y.pipe = x.pipe) (hdisk : y.disk = x.disk) (hcallback : y.callback = x.callback) :
    Alert B F S y := by
  intro w hw
  rw [hring, hpipe, hcallback]
  exact h w (hdisk ▸ hw)

theorem Alert.signalProc (h : Alert B F S x) (nframes : Nat) (out : Nat → Nat → K)
    (rolling : Bool) : Alert B F S (signalProc B F S t nframes out rolling x).2 := by
  unfold Jplay.signalProc
  dsimp only
  split
  · exact h.of_same rfl rfl rfl rfl
  · split
    · split
      · exact h.of_same rfl rfl rfl rfl
      · exact h
    · intro w hw
      exact (h w hw).grow (B.writeSpace_read _ _)

theorem alert_of_ne (h : ∀ w, x.disk ≠ .waiting w) : Alert B F S x :=
  fun w hw => absurd hw (h w)

theorem load_disk (aBuffer eBuffer dBuffer : Nat → K) (n : Nat) :
    (load S x aBuffer eBuffer dBuffer n).2.disk = .storing n := rfl

theorem refill_disk (n : Nat) (answer : Checked (Except Err (Nat × Split K) × Handle K)) :
    (∀ w, (refill S t n answer x).2.disk ≠ .waiting w) ∨ ∃ soundFile failure,
      (refill S t n answer x).2 = { x with soundFile := soundFile, failure := some failure } := by
  match answer with
  | .error fault => exact Or.inr ⟨x.soundFile, _, rfl⟩
  | .ok (.error err, soundFile) => exact Or.inr ⟨soundFile, _, rfl⟩
  | .ok (.ok (err, split), soundFile) =>
    refine Or.inl fun w => ?_
    rw [refill]
    dsimp only
    split
    · split
      · rw [load_disk]
        simp
      · simp
    · rw [load_disk]
      simp

theorem refill_ringBuffer (n : Nat) (answer : Checked (Except Err (Nat × Split K) × Handle K)) :
    (refill S t n answer x).2.ringBuffer = x.ringBuffer := by
  match answer with
  | .error fault => rfl
  | .ok (.error err, soundFile) => rfl
  | .ok (.ok (err, split), soundFile) =>
    rw [refill]
    dsimp only
    split
    · split <;> rfl
    · rfl

theorem Alert.diskStep (h : Alert B F S x) : Alert B F S (diskStep P B F S t x).2 := by
  rw [Jplay.diskStep]
  cases hdisk : x.disk with
  | top =>
    intro w hw
    dsimp only at hw
    split at hw
    · cases hw
    · split at hw
      · cases hw
      · rw [← DiskThread.waiting.inj hw]
        exact Wait.sound_measuring
  | seeking =>
    intro w hw
    rw [← DiskThread.waiting.inj hw]
    exact Wait.sound_measuring
  | ended => exact h
  | storing n => exact alert_of_ne (by simp)
  | waiting w =>
    cases w with
    | enough space =>
      dsimp only
      cases refill_disk (S := S) (t := t) (x := x) _ _ with
      | inl hleft => exact alert_of_ne hleft
      | inr hfailed =>
        obtain ⟨soundFile, failure, hsame⟩ := hfailed
        rw [hsame]
        exact h.of_same rfl rfl rfl rfl
    | measuring =>
      intro w hw
      rw [← DiskThread.waiting.inj hw]
      exact (h _ hdisk).step
    | sleeping =>
      intro w hw
      rw [← DiskThread.waiting.inj hw]
      exact (h _ hdisk).step

theorem Alert.step (h : Alert B F S x) (a : Action K) : Alert B F S (step P B F S t x a).2 := by
  unfold Jplay.step
  split
  · exact h
  · cases a with
    | process nframes out rolling =>
      dsimp only
      split
      · exact h.signalProc nframes out rolling
      · exact h
    | callback =>
      dsimp only
      rw [callbackStep]
      cases x.callback with
      | idle => exact h
      | poking => exact fun w hw => (h w hw).wake
    | sync frame =>
      dsimp only
      split
      · exact h.of_same rfl rfl rfl rfl
      · exact h
    | disk => exact h.diskStep
    | signal => exact h.of_same rfl rfl rfl rfl

theorem Alert.run {soundFile : Handle K} {seekRequest : Int} {aBuffer eBuffer dBuffer : Nat → K}
    {jBuffer : Nat → β} {events : List (Event (Player K β R) (Action K) (Output K))}
    {y : Player K β R}
    (hrun : Runs P B F S t
      (newPlayer B F S soundFile seekRequest aBuffer eBuffer dBuffer jBuffer) events y) :
    Alert B F S y := by
  refine hrun.preserves (Alert B F S) (alert_of_ne (by simp [newPlayer]))
    fun z a answer u hcall h => ?_
  rw [← answered_state hcall]
  exact h.step a

theorem limit_run {y : Player K β R} {events : List (Event (Player K β R) (Action K) (Output K))}
    (hrun : Runs P B F S t x events y) : B.limit y.ringBuffer = B.limit x.ringBuffer := by
  refine hrun.preserves (fun y => B.limit y.ringBuffer = B.limit x.ringBuffer) rfl
    fun z a answer u hcall h => ?_
  rw [← answered_state hcall, ← h]
  unfold Jplay.step
  split
  · rfl
  · cases a with
    | process nframes out rolling =>
      dsimp only
      split
      · unfold signalProc
        dsimp only
        split
        · rfl
        · split
          · split <;> rfl
          · exact B.read_limit_eq _ _
      · rfl
    | callback =>
      dsimp only
      rw [callbackStep]
      cases z.callback <;> rfl
    | sync frame =>
      dsimp only
      split <;> rfl
    | disk =>
      dsimp only
      rw [Jplay.diskStep]
      cases z.disk with
      | top =>
        dsimp only
        split
        · rfl
        · split <;> rfl
      | seeking => rfl
      | ended => rfl
      | storing n => exact B.write_limit_eq _ _
      | waiting w =>
        cases w with
        | measuring => rfl
        | sleeping => rfl
        | enough space =>
          dsimp only
          rw [refill_ringBuffer]
    | signal => rfl

theorem diskStep_wait {w : Wait} (hdisk : x.disk = .waiting w) (hw : ∀ n, w ≠ .enough n) :
    (Jplay.diskStep P B F S t x).2 = { x with
      disk := .waiting (w.step (S.minimalBytes F) (B.writeSpace x.ringBuffer) x.pipe).1
      pipe := (w.step (S.minimalBytes F) (B.writeSpace x.ringBuffer) x.pipe).2 } := by
  rw [Jplay.diskStep, hdisk]
  cases w with
  | enough n => exact absurd rfl (hw n)
  | measuring => rfl
  | sleeping => rfl

/-- With enough space the disk thread goes on to read the file. -/
theorem Alert.proceeds (h : Alert B F S x) (hidle : x.callback ≠ .poking) {w : Wait}
    (hdisk : x.disk = .waiting w) (henough : S.minimalBytes F ≤ B.writeSpace x.ringBuffer) :
    ∃ n ≤ 2, ∃ space : Nat, S.minimalBytes F ≤ space ∧
      ((fun x => (Jplay.diskStep P B F S t x).2)^[n] x).disk = .waiting (.enough space) := by
  have hwait := h w hdisk
  rw [decide_eq_false hidle] at hwait
  have hmeasure : ¬ (B.writeSpace x.ringBuffer : Int) < S.minimalBytes F := not_lt.mpr henough
  cases w with
  | enough n => exact ⟨0, by decide, n, (hwait.found n rfl).1, hdisk⟩
  | measuring =>
    refine ⟨1, by decide, _, henough, ?_⟩
    rw [Function.iterate_one, diskStep_wait hdisk (by simp), Wait.step, if_neg hmeasure]
  | sleeping =>
    have htokens : x.pipe ≠ 0 := by
      have hawake := hwait.awake rfl henough
      simp at hawake
      omega
    have hstep : (Jplay.diskStep P B F S t x).2 =
        { x with disk := .waiting .measuring, pipe := x.pipe-1 } := by
      rw [diskStep_wait hdisk (by simp), Wait.step, if_neg htokens]
    refine ⟨2, le_rfl, _, henough, ?_⟩
    rw [Function.iterate_succ_apply, Function.iterate_one, hstep, diskStep_wait rfl (by simp),
      Wait.step, if_neg hmeasure]

/-- The disk thread never sleeps through space, and no period runs dry while it sleeps. -/
theorem player_wakes {soundFile : Handle K} {seekRequest : Int} {aBuffer eBuffer dBuffer : Nat → K}
    {jBuffer : Nat → β} {events : List (Event (Player K β R) (Action K) (Output K))}
    {y : Player K β R}
    (hrun : Runs P B F S t
      (newPlayer B F S soundFile seekRequest aBuffer eBuffer dBuffer jBuffer) events y)
    (hidle : y.callback = .idle) {w : Wait} (hdisk : y.disk = .waiting w) :
    (S.minimalBytes F ≤ B.writeSpace y.ringBuffer →
      ∃ n ≤ 2, ∃ space : Nat, S.minimalBytes F ≤ space ∧
        ((fun x => (diskStep P B F S t x).2)^[n] y).disk = .waiting (.enough space)) ∧
    (w = .sleeping → y.pipe = 0 → ∀ nframes out rolling, (t = true → rolling = true) →
      nframes*S.frameBytes F ≤ S.bufferBytes F →
      S.minimalBytes F+(nframes*S.frameBytes F : Nat) ≤ B.limit (B.create (S.bufferBytes F))+1 →
      (signalProc B F S t nframes out rolling y).1.err = nframes) := by
  have halert := Alert.run hrun
  have hpoking : y.callback ≠ .poking := by simp [hidle]
  refine ⟨halert.proceeds hpoking hdisk, ?_⟩
  rintro rfl hpipe nframes out rolling hrolling hperiod hroom
  have hwait := halert _ hdisk
  rw [decide_eq_false hpoking, hpipe] at hwait
  have hfull : ¬ S.minimalBytes F ≤ B.writeSpace y.ringBuffer := fun hle => by
    have hawake := hwait.awake rfl hle
    simp at hawake
  have hlimit : B.limit y.ringBuffer = B.limit (B.create (S.bufferBytes F)) := limit_run hrun
  rw [JackRingbuffer.limit] at hlimit
  have hrolls : ¬ (t = true ∧ rolling = false) := fun hno => by
    rw [hrolling hno.1] at hno
    cases hno.2
  have hqueue : nframes*S.frameBytes F ≤ (B.queue y.ringBuffer).length := by omega
  unfold signalProc
  dsimp only
  rw [Nat.mul_assoc]
  change (if nframes*S.frameBytes F > S.bufferBytes F then _ else _ :
    Output K × Player K β R).1.err = _
  rw [if_neg (not_lt.mpr hperiod), if_neg hrolls]
  dsimp only
  rw [B.read_bytes, List.length_take, Nat.mul_comm F.width]
  change min (nframes*S.frameBytes F) _/S.frameBytes F = nframes
  rw [Nat.min_eq_left hqueue]
  exact Nat.mul_div_cancel nframes (S.frameBytes_pos F)

end wakeup

/-- The disk thread measures before anything has been played. -/
theorem player_wakes_stereo : ∃ h : Handle ℚ,
    ambixOpen unitPlatform (unitDisk (some stereoFile)) .read ⟨.basic, 0, 0⟩ = .ok (some h) ∧
    let y := leadsTo (stereoStep true) (stereoPlayer h) [.disk]
    (stereoBuffers.minimalBytes (fragments ℚ) ≤ fragmentRing.writeSpace y.ringBuffer →
      ∃ n ≤ 2, ∃ space : Nat, stereoBuffers.minimalBytes (fragments ℚ) ≤ space ∧
        ((fun x => (diskStep unitPlatform fragmentRing (fragments ℚ) stereoBuffers true x).2)^[n]
          y).disk = .waiting (.enough space)) ∧
    (Wait.measuring = .sleeping → y.pipe = 0 → ∀ nframes out rolling,
      (true = true → rolling = true) →
      nframes*stereoBuffers.frameBytes (fragments ℚ) ≤ stereoBuffers.bufferBytes (fragments ℚ) →
      stereoBuffers.minimalBytes (fragments ℚ)+
          (nframes*stereoBuffers.frameBytes (fragments ℚ) : Nat) ≤
        fragmentRing.limit (fragmentRing.create (stereoBuffers.bufferBytes (fragments ℚ)))+1 →
      (signalProc fragmentRing (fragments ℚ) stereoBuffers true nframes out rolling y).1.err =
        nframes) :=
  ⟨_, rfl, player_wakes (Run.of_calls _ _ [.disk]) rfl rfl⟩

/-! A transfer that the ring buffer cannot hold. -/

section starving
variable {K β R : Type} [Field K] {P : Platform K} {B : JackRingbuffer R β} {F : BlockCode K β}
  {S : JackBuffers} {t : Bool} {x : Player K β R}

/-- The disk thread has not got through its wait. -/
structure Starved (x : Player K β R) : Prop where
  unread : ∀ n, x.disk ≠ .waiting (.enough n)
  unstored : ∀ n, x.disk ≠ .storing n
  ended : x.disk = .ended → x.endOfProcess = true

theorem Starved.diskStep (h : Starved x) (hless : (B.limit x.ringBuffer : Int) < S.minimalBytes F) :
    Starved (Jplay.diskStep P B F S t x).2 ∧ (Jplay.diskStep P B F S t x).1.loaded = [] := by
  rw [Jplay.diskStep]
  cases hdisk : x.disk with
  | top =>
    dsimp only
    split
    · rename_i hend
      exact ⟨⟨by simp, by simp, fun _ => hend⟩, rfl⟩
    · split <;> exact ⟨⟨by simp, by simp, by simp⟩, rfl⟩
  | seeking => exact ⟨⟨by simp, by simp, by simp⟩, rfl⟩
  | ended => exact ⟨h, rfl⟩
  | storing n => exact absurd hdisk (h.unstored n)
  | waiting w =>
    cases w with
    | enough n => exact absurd hdisk (h.unread n)
    | measuring =>
      have hspace : (B.writeSpace x.ringBuffer : Int) < S.minimalBytes F := by
        rw [JackRingbuffer.limit] at hless
        omega
      dsimp only [Wait.step]
      rw [if_pos hspace]
      exact ⟨⟨by simp, by simp, by simp⟩, rfl⟩
    | sleeping =>
      dsimp only [Wait.step]
      by_cases htokens : x.pipe = 0
      · rw [if_pos htokens]
        exact ⟨⟨by simp, by simp, by simp⟩, rfl⟩
      · rw [if_neg htokens]
        exact ⟨⟨by simp, by simp, by simp⟩, rfl⟩

theorem Starved.step (h : Starved x) (hless : (B.limit x.ringBuffer : Int) < S.minimalBytes F)
    (a : Action K) : Starved (step P B F S t x a).2 ∧ (step P B F S t x a).1.loaded = [] := by
  unfold Jplay.step
  split
  · exact ⟨h, rfl⟩
  · cases a with
    | process nframes out rolling =>
      dsimp only
      split
      · unfold Jplay.signalProc
        dsimp only
        split
        · exact ⟨⟨h.unread, h.unstored, h.ended⟩, rfl⟩
        · split
          · split
            · exact ⟨⟨h.unread, h.unstored, h.ended⟩, rfl⟩
            · exact ⟨h, rfl⟩
          · exact ⟨⟨h.unread, h.unstored, h.ended⟩, rfl⟩
      · exact ⟨h, rfl⟩
    | callback =>
      dsimp only
      rw [callbackStep]
      cases x.callback with
      | idle => exact ⟨h, rfl⟩
      | poking => exact ⟨⟨h.unread, h.unstored, h.ended⟩, rfl⟩
    | sync frame =>
      dsimp only
      split
      · exact ⟨⟨h.unread, h.unstored, h.ended⟩, rfl⟩
      · exact ⟨h, rfl⟩
    | disk => exact h.diskStep hless
    | signal => exact ⟨⟨h.unread, h.unstored, fun _ => rfl⟩, rfl⟩

/-- If the minimal transfer is larger than the ring buffer, nothing of any file is ever heard, and
only a signal ends the disk thread. -/
theorem starves (hless : (B.limit (B.create (S.bufferBytes F)) : Int) < S.minimalBytes F)
    {soundFile : Handle K} {seekRequest : Int} {aBuffer eBuffer dBuffer : Nat → K}
    {jBuffer : Nat → β} {events : List (Event (Player K β R) (Action K) (Output K))}
    {y : Player K β R}
    (hrun : Runs P B F S t
      (newPlayer B F S soundFile seekRequest aBuffer eBuffer dBuffer jBuffer) events y) :
    loads events = [] ∧ plays events = [] ∧ (y.disk = .ended → y.endOfProcess = true) := by
  have h : Starved y ∧ loads events = [] ∧
      (B.limit y.ringBuffer : Int) < S.minimalBytes F := by
    refine hrun.invariant (fun events y => Starved y ∧ loads events = [] ∧
      (B.limit y.ringBuffer : Int) < S.minimalBytes F)
      ⟨⟨by simp [newPlayer], by simp [newPlayer], by simp [newPlayer]⟩, rfl, hless⟩ ?_
    intro events z a answer u hcall h
    obtain ⟨hstarved, hloads, hlimit⟩ := h
    have hsame := limit_run (.call .start hcall)
    have hstep : Jplay.step P B F S t z a = (answer, u) := Except.ok.inj hcall
    have hnext := hstarved.step (P := P) (t := t) hlimit a
    rw [hstep] at hnext
    refine ⟨hnext.1, ?_, hsame ▸ hlimit⟩
    rw [loads, List.flatMap_append, List.flatMap_singleton, hnext.2, List.append_nil]
    exact hloads
  obtain ⟨s, hplayed, hall, -⟩ := (Follows.run hrun).stages
  refine ⟨h.2.1, ?_, h.1.ended⟩
  rw [h.2.1, Stages.all, List.append_eq_nil_iff, List.append_eq_nil_iff] at hall
  rw [← hplayed, hall.1.1]

end starving

def wholeBuffers : JackBuffers := { stereoBuffers with bufferFrames := 2, minimalFrames := 2 }

theorem starves_stereo : ∃ h : Handle ℚ,
    ambixOpen unitPlatform (unitDisk (some stereoFile)) .read ⟨.basic, 0, 0⟩ = .ok (some h) ∧
    let f := step unitPlatform fragmentRing (fragments ℚ)
      wholeBuffers false
    let x := newPlayer fragmentRing (fragments ℚ) wholeBuffers h (-1) (fun _ => 0) (fun _ => 0)
      (fun _ => 0) fun _ => (0, 0)
    loads (trace f x onePeriod) = [] ∧ plays (trace f x onePeriod) = [] ∧
      ((leadsTo f x onePeriod).disk = .ended → (leadsTo f x onePeriod).endOfProcess = true) :=
  ⟨_, rfl, starves (by decide) (Run.of_calls _ _ _)⟩

end Ambix.Jplay
