import Ambix.Jrecord

/-! The two loops of ambix-jrecord in time: the disk thread does not sleep through data, and it
ends when the timer says so. -/
namespace Ambix.Jrecord
open Machine
open JackBuffers (bytes)

/-! The wait for data. -/

section wakeup
variable {α β R : Type} {B : JackRingbuffer R β} {F : BlockCode α β} {S : JackBuffers}
  {T : Int} {x : Recorder α β R} {s : Stages α}

/-- The disk thread does not sleep while there is enough to read. -/
def Alert (B : JackRingbuffer R β) (F : BlockCode α β) (S : JackBuffers) (x : Recorder α β R) :
    Prop :=
  x.failure = none → ∀ w, x.disk = .waiting w →
    w.Sound (S.minimalBytes F) (B.readSpace x.ringBuffer) x.pipe (decide (x.callback = .poking))

theorem Alert.process (h : Alert B F S x) (hidle : x.callback = .idle) (nframes : Nat)
    (input : Nat → Nat → α) : Alert B F S (process B F S nframes input x).2 := by
  rw [Jrecord.process]
  split
  · exact fun hfailure => by cases hfailure
  · split
    · exact fun hfailure => by cases hfailure
    · intro hfailure w hdisk
      have hwait := h hfailure w hdisk
      rw [hidle] at hwait
      exact hwait

theorem Alert.callbackStep (h : Alert B F S x) : Alert B F S (callbackStep B F S x) := by
  rw [Jrecord.callbackStep]
  cases hcallback : x.callback with
  | idle => exact h
  | poking => exact fun hfailure w hdisk => (h hfailure w hdisk).wake
  | writing n =>
    dsimp only
    split
    · exact fun hfailure => by cases hfailure
    · intro hfailure w hdisk
      refine (h hfailure w hdisk).grow ?_
      dsimp only
      rw [B.readSpace_eq, B.readSpace_eq, B.write_queue, List.length_append]
      exact Nat.le_add_right _ _

theorem Alert.diskStep (h : Alert B F S x) : Alert B F S (diskStep B F S T x) := by
  rw [Jrecord.diskStep]
  cases hdisk : x.disk with
  | top =>
    intro _ w hw
    dsimp only at hw
    split at hw
    · cases hw
    · rw [← DiskThread.waiting.inj hw]
      exact Wait.sound_measuring
  | ended => exact h
  | writing n =>
    intro _ w hw
    dsimp only at hw
    split at hw <;> cases hw
  | waiting w =>
    cases w with
    | enough space =>
      intro _ w hw
      cases hw
    | measuring =>
      intro hfailure w hw
      rw [← DiskThread.waiting.inj hw]
      exact (h hfailure _ hdisk).step
    | sleeping =>
      intro hfailure w hw
      rw [← DiskThread.waiting.inj hw]
      exact (h hfailure _ hdisk).step

theorem Alert.step (h : Alert B F S x) (a : Action α) :
    Alert B F S (step B F S T x a).2 := by
  unfold Jrecord.step
  split
  · exact h
  · cases a with
    | process nframes input =>
      dsimp only
      split
      · rename_i hidle
        exact h.process hidle nframes input
      · exact h
    | callback => exact h.callbackStep
    | disk => exact h.diskStep
    | signal => exact h

theorem Alert.run {jBuffer aBuffer eBuffer : Nat → α} {dBuffer : Nat → β}
    {events : List (Event (Recorder α β R) (Action α) (List (List α)))} {y : Recorder α β R}
    (hrun : Runs B F S T (newRecorder B F S jBuffer aBuffer eBuffer dBuffer) events y) :
    Alert B F S y := by
  refine hrun.preserves (Alert B F S) (fun _ w hw => by cases hw) fun z a answer u hcall h => ?_
  rw [← answered_state hcall]
  exact h.step a

/-! What becomes of data that are there. -/

theorem frames_length (split : Split α) (ambi extra n : Nat) :
    (split.frames ambi extra n).length = n := by
  rw [Split.frames, List.length_zip, framesOf_length, framesOf_length, Nat.min_self]

theorem diskStep_writing {n : Nat} (hdisk : x.disk = .writing n) :
    (diskStep B F S T x).soundFile.length = x.soundFile.length+n := by
  rw [diskStep, hdisk]
  dsimp only
  rw [List.length_append, frames_length]

theorem Conveys.takes (h : Conveys B F S x s) {space : Nat}
    (hdisk : x.disk = .waiting (.enough space)) (hspace : 0 < space)
    (hbuffer : 0 < S.bufferFrames) :
    ∃ n, 0 < n ∧ (Jrecord.diskStep B F S T x).disk = .writing n ∧
      (Jrecord.diskStep B F S T x).soundFile = x.soundFile := by
  have hholds := h.holds
  rw [Holds, hdisk] at hholds
  obtain ⟨-, k, -, rfl⟩ := hholds
  have hk : 0 < k := Nat.pos_of_mul_pos_right hspace
  rw [Jrecord.diskStep, hdisk]
  refine ⟨_, ?_, rfl, rfl⟩
  rw [S.bufferBytes_eq F]
  split
  · rw [JackBuffers.nframes_mul]
    exact hbuffer
  · rw [JackBuffers.nframes_mul]
    exact hk

theorem Conveys.stores (h : Conveys B F S x s) {space : Nat}
    (hdisk : x.disk = .waiting (.enough space)) (hspace : 0 < space)
    (hbuffer : 0 < S.bufferFrames) :
    x.soundFile.length < ((Jrecord.diskStep B F S T)^[2] x).soundFile.length := by
  obtain ⟨n, hn, hwriting, hsame⟩ := h.takes (T := T) hdisk hspace hbuffer
  have hlonger := diskStep_writing (B := B) (F := F) (S := S) (T := T) hwriting
  rw [hsame] at hlonger
  change x.soundFile.length < (Jrecord.diskStep B F S T _).soundFile.length
  omega

theorem diskStep_wait {w : Wait} (hdisk : x.disk = .waiting w) (hw : ∀ n, w ≠ .enough n) :
    Jrecord.diskStep B F S T x = { x with
      disk := .waiting (w.step (S.minimalBytes F) (B.readSpace x.ringBuffer) x.pipe).1
      pipe := (w.step (S.minimalBytes F) (B.readSpace x.ringBuffer) x.pipe).2 } := by
  rw [diskStep, hdisk]
  cases w with
  | enough n => exact absurd rfl (hw n)
  | measuring => rfl
  | sleeping => rfl

theorem diskStep_measuring (hdisk : x.disk = .waiting .measuring)
    (henough : S.minimalBytes F ≤ B.readSpace x.ringBuffer) :
    Jrecord.diskStep B F S T x =
      { x with disk := .waiting (.enough (B.readSpace x.ringBuffer)) } := by
  rw [diskStep_wait hdisk (by simp), Wait.step, if_neg (not_lt.mpr henough)]

/-- With enough data in the ring buffer the disk thread writes some of it. -/
theorem Conveys.proceeds (h : Conveys B F S x s) (halert : Alert B F S x)
    (hgoing : x.failure = none) (hidle : x.callback ≠ .poking) {w : Wait}
    (hdisk : x.disk = .waiting w) (hpos : 0 < S.minimalBytes F) (hbuffer : 0 < S.bufferFrames)
    (henough : S.minimalBytes F ≤ B.readSpace x.ringBuffer) :
    ∃ n ≤ 4, x.soundFile.length < ((Jrecord.diskStep B F S T)^[n] x).soundFile.length := by
  have hwait := halert hgoing w hdisk
  rw [decide_eq_false hidle] at hwait
  -- from a measurement on
  have hmeasured {y : Recorder α β R} {s : Stages α} (h : Conveys B F S y s)
      (hdisk : y.disk = .waiting .measuring)
      (henough : S.minimalBytes F ≤ B.readSpace y.ringBuffer) :
      y.soundFile.length < ((Jrecord.diskStep B F S T)^[3] y).soundFile.length := by
    obtain ⟨s', -, hnext⟩ := h.diskStep (T := T)
    rw [diskStep_measuring hdisk henough] at hnext
    have hstores := hnext.stores (T := T) rfl (by omega) hbuffer
    rwa [Function.iterate_succ_apply, diskStep_measuring hdisk henough]
  cases w with
  | enough n =>
    have hfound := hwait.found n rfl
    exact ⟨2, by decide, h.stores hdisk (by omega) hbuffer⟩
  | measuring => exact ⟨3, by decide, hmeasured h hdisk henough⟩
  | sleeping =>
    have htokens : x.pipe ≠ 0 := by
      have hawake := hwait.awake rfl henough
      simp at hawake
      omega
    obtain ⟨s', -, hnext⟩ := h.diskStep (T := T)
    have hstep : Jrecord.diskStep B F S T x =
        { x with disk := .waiting .measuring, pipe := x.pipe-1 } := by
      rw [diskStep_wait hdisk (by simp), Wait.step, if_neg htokens]
    rw [hstep] at hnext
    refine ⟨4, le_rfl, ?_⟩
    rw [Function.iterate_succ_apply, hstep]
    exact hmeasured hnext rfl henough

theorem limit_run {y : Recorder α β R}
    {events : List (Event (Recorder α β R) (Action α) (List (List α)))}
    (hrun : Runs B F S T x events y) :
    B.limit y.ringBuffer = B.limit x.ringBuffer := by
  refine hrun.preserves (fun y => B.limit y.ringBuffer = B.limit x.ringBuffer) rfl
    fun z a answer u hcall h => ?_
  rw [← answered_state hcall, ← h]
  unfold Jrecord.step
  split
  · rfl
  · cases a with
    | process nframes input =>
      dsimp only
      split
      · rw [Jrecord.process]
        split
        · rfl
        · split <;> rfl
      · rfl
    | callback =>
      dsimp only
      rw [Jrecord.callbackStep]
      cases z.callback with
      | idle => rfl
      | poking => rfl
      | writing n =>
        dsimp only
        split <;> exact B.write_limit_eq _ _
    | disk =>
      dsimp only
      rw [Jrecord.diskStep]
      cases z.disk with
      | top => rfl
      | ended => rfl
      | writing n => rfl
      | waiting w =>
        cases w with
        | enough n => exact B.read_limit_eq _ _
        | measuring => rfl
        | sleeping => rfl
    | signal => rfl

/-- The disk thread never sleeps through data, and no period is refused while it sleeps. -/
theorem recorder_wakes {jBuffer aBuffer eBuffer : Nat → α} {dBuffer : Nat → β}
    {events : List (Event (Recorder α β R) (Action α) (List (List α)))} {y : Recorder α β R}
    (hrun : Runs B F S T (newRecorder B F S jBuffer aBuffer eBuffer dBuffer) events y)
    (hgoing : y.failure = none) (hidle : y.callback = .idle) {w : Wait}
    (hdisk : y.disk = .waiting w) (hpos : 0 < S.minimalBytes F) (hbuffer : 0 < S.bufferFrames) :
    (S.minimalBytes F ≤ B.readSpace y.ringBuffer →
      ∃ n ≤ 4, y.soundFile.length <
        ((diskStep B F S T)^[n] y).soundFile.length) ∧
    (w = .sleeping → y.pipe = 0 → ∀ nframes input, nframes*S.frameBytes F < S.bufferBytes F →
      S.minimalBytes F+(nframes*S.frameBytes F : Nat) ≤ B.limit (B.create (S.bufferBytes F))+1 →
      (process B F S nframes input y).2.failure = none) := by
  obtain ⟨s, -, h⟩ := Conveys.run hrun
  have halert := Alert.run hrun
  have hpoking : y.callback ≠ .poking := by simp [hidle]
  refine ⟨h.proceeds halert hgoing hpoking hdisk hpos hbuffer, ?_⟩
  rintro rfl hpipe nframes input hperiod hroom
  have hwait := halert hgoing _ hdisk
  rw [decide_eq_false hpoking, hpipe] at hwait
  have hshort : ¬ S.minimalBytes F ≤ B.readSpace y.ringBuffer := fun hle => by
    have hawake := hwait.awake rfl hle
    simp at hawake
  have hlimit : B.limit y.ringBuffer = B.limit (B.create (S.bufferBytes F)) := limit_run hrun
  rw [JackRingbuffer.limit, ← B.readSpace_eq] at hlimit
  rw [Jrecord.process, nbytes_eq, if_neg (not_le.mpr hperiod), if_neg (by omega)]
  exact hgoing

end wakeup

def asleep : List (Action UInt32) :=
  [.disk, .disk, .process 1 fun _ _ => 7, .callback, .callback]

theorem recorder_wakes_single :
    ((fourFrames.minimalBytes floatBits ≤ byteRing.readSpace (fourEnd (-1) asleep).ringBuffer →
      ∃ n ≤ 4, (fourEnd (-1) asleep).soundFile.length <
        ((diskStep byteRing floatBits fourFrames (-1))^[n]
          (fourEnd (-1) asleep)).soundFile.length) ∧
    (Wait.sleeping = .sleeping → (fourEnd (-1) asleep).pipe = 0 → ∀ nframes input,
      nframes*fourFrames.frameBytes floatBits < fourFrames.bufferBytes floatBits →
      fourFrames.minimalBytes floatBits+(nframes*fourFrames.frameBytes floatBits : Nat) ≤
        byteRing.limit (byteRing.create (fourFrames.bufferBytes floatBits))+1 →
      (process byteRing floatBits fourFrames nframes input (fourEnd (-1) asleep)).2.failure =
        none)) ∧
    fourFrames.minimalBytes floatBits ≤ byteRing.readSpace (fourEnd (-1) asleep).ringBuffer :=
  ⟨recorder_wakes (Run.of_calls _ _ asleep) rfl rfl rfl (by decide) (by decide), by decide⟩

/-! The timer. -/

section timer
variable {α β R : Type} {B : JackRingbuffer R β} {F : BlockCode α β} {S : JackBuffers}
  {T : Int} {x : Recorder α β R} {s : Stages α}

structure Timed (S : JackBuffers) (T : Int) (x : Recorder α β R) : Prop where
  counted : x.timerCounter = Int.bmod x.soundFile.length (2^32)
  going : 0 < T → x.disk ≠ .ended → (x.soundFile.length : Int) < T
  bounded : 0 < T → (x.soundFile.length : Int) < T+S.bufferFrames
  ended : x.disk = .ended →
    x.endOfProcess = true ∨ (0 < T ∧ T ≤ x.soundFile.length)

theorem Timed.of_same (h : Timed S T x) {y : Recorder α β R} (hfile : y.soundFile = x.soundFile)
    (hcounter : y.timerCounter = x.timerCounter) (hdisk : y.disk = x.disk)
    (hend : x.endOfProcess = true → y.endOfProcess = true) : Timed S T y where
  counted := by rw [hcounter, hfile, h.counted]
  going := by
    rw [hfile, hdisk]
    exact h.going
  bounded := by
    rw [hfile]
    exact h.bounded
  ended := by
    rw [hfile, hdisk]
    exact fun hended => (h.ended hended).imp_left hend

theorem Timed.move (h : Timed S T x) (hdisk : x.disk ≠ .ended) {y : Recorder α β R}
    (hfile : y.soundFile = x.soundFile) (hcounter : y.timerCounter = x.timerCounter)
    (hnext : y.disk = .ended → y.endOfProcess = true) : Timed S T y where
  counted := by rw [hcounter, hfile, h.counted]
  going htimer _ := by
    rw [hfile]
    exact h.going htimer hdisk
  bounded := by
    rw [hfile]
    exact h.bounded
  ended hended := Or.inl (hnext hended)

theorem Timed.diskStep (h : Timed S T x) (hconveys : Conveys B F S x s)
    (hint : T+S.bufferFrames ≤ 2^31) : Timed S T (diskStep B F S T x) := by
  cases hdisk : x.disk with
  | top =>
    have hgoing : x.disk ≠ .ended := by simp [hdisk]
    rw [Jrecord.diskStep, hdisk]
    refine h.move hgoing rfl rfl fun hended => ?_
    dsimp only at hended ⊢
    split at hended
    · assumption
    · cases hended
  | ended =>
    rw [Jrecord.diskStep, hdisk]
    exact h
  | waiting w =>
    have hgoing : x.disk ≠ .ended := by simp [hdisk]
    rw [Jrecord.diskStep, hdisk]
    cases w with
    | enough n => exact h.move hgoing rfl rfl fun hended => by cases hended
    | measuring => exact h.move hgoing rfl rfl fun hended => by cases hended
    | sleeping => exact h.move hgoing rfl rfl fun hended => by cases hended
  | writing n =>
    have hholds := hconveys.holds
    rw [Holds, hdisk] at hholds
    have hlength := diskStep_writing (B := B) (F := F) (S := S) (T := T) hdisk
    have hbefore := fun htimer => h.going htimer (by simp [hdisk])
    have hcounter : Int.bmod (x.timerCounter+n) (2^32) =
        Int.bmod (x.soundFile.length+n : Nat) (2^32) := by
      rw [h.counted, Int.bmod_add_bmod, Nat.cast_add]
    have hcounted : (Jrecord.diskStep B F S T x).timerCounter =
        Int.bmod (Jrecord.diskStep B F S T x).soundFile.length (2^32) := by
      rw [hlength, ← hcounter, Jrecord.diskStep, hdisk]
    -- while the timer is set the count cannot have wrapped
    have hexact : 0 < T →
        Int.bmod (x.soundFile.length+n : Nat) (2^32) = (x.soundFile.length+n : Nat) := by
      intro htimer
      have hbelow := hbefore htimer
      exact Int.bmod_eq_of_le (by omega) (by omega)
    have hplace : (Jrecord.diskStep B F S T x).disk = if 0 < T ∧
        T ≤ Int.bmod (x.soundFile.length+n : Nat) (2^32) then .ended else .top := by
      rw [← hcounter, Jrecord.diskStep, hdisk]
    refine ⟨hcounted, fun htimer hended => ?_, fun htimer => ?_, fun hended => Or.inr ?_⟩
    · rw [hplace, hexact htimer] at hended
      split at hended
      · exact absurd rfl hended
      · rw [hlength]
        omega
    · have hbelow := hbefore htimer
      rw [hlength]
      omega
    · rw [hplace] at hended
      split at hended
      · rename_i hreached
        rw [hexact hreached.1] at hreached
        rw [hlength]
        exact hreached
      · cases hended

theorem Timed.step (h : Timed S T x) (hconveys : Conveys B F S x s)
    (hint : T+S.bufferFrames ≤ 2^31) (a : Action α) : Timed S T (step B F S T x a).2 := by
  unfold Jrecord.step
  split
  · exact h
  · cases a with
    | process nframes input =>
      dsimp only
      split
      · rw [Jrecord.process]
        split
        · exact h.of_same rfl rfl rfl id
        · split <;> exact h.of_same rfl rfl rfl id
      · exact h
    | callback =>
      dsimp only
      rw [Jrecord.callbackStep]
      cases x.callback with
      | idle => exact h
      | poking => exact h.of_same rfl rfl rfl id
      | writing n =>
        dsimp only
        split <;> exact h.of_same rfl rfl rfl id
    | disk => exact h.diskStep hconveys hint
    | signal => exact h.of_same rfl rfl rfl fun _ => rfl

/-- A recording that nobody breaks off is as long as the timer says, and less than a buffer
longer, if an `int` holds as many frames. -/
theorem timer_ends (hint : T+S.bufferFrames ≤ 2^31) {jBuffer aBuffer eBuffer : Nat → α}
    {dBuffer : Nat → β}
    {events : List (Event (Recorder α β R) (Action α) (List (List α)))} {y : Recorder α β R}
    (hrun : Runs B F S T (newRecorder B F S jBuffer aBuffer eBuffer dBuffer) events y) :
    (y.disk = .ended → y.endOfProcess = false →
      T ≤ y.soundFile.length ∧
        (y.soundFile.length : Int) < T+S.bufferFrames) ∧
    (0 < T → y.disk ≠ .ended → (y.soundFile.length : Int) < T) := by
  have h : Timed S T y ∧ ∃ s, Conveys B F S y s := by
    refine hrun.preserves (fun y => Timed S T y ∧ ∃ s, Conveys B F S y s)
      ⟨⟨Int.zero_bmod.symm, fun htimer _ => htimer, fun htimer => ?_,
        fun hended => by cases hended⟩, _, Conveys.start _ _ _ _⟩ fun z a answer u hcall h => ?_
    · change (0 : Int) < T+S.bufferFrames
      omega
    · obtain ⟨htimed, s, hconveys⟩ := h
      obtain ⟨s', -, hnext⟩ := hconveys.step (T := T) a
      rw [← answered_state hcall]
      exact ⟨htimed.step hconveys hint a, s', hnext⟩
  refine ⟨fun hended hsignal => ?_, h.1.going⟩
  obtain ⟨htimer, hreached⟩ := (h.1.ended hended).resolve_left (by simp [hsignal])
  exact ⟨hreached, h.1.bounded htimer⟩

end timer

theorem timer_ends_two :
    (2 : Int) ≤ (fourEnd 2 threeFrames).soundFile.length ∧
      ((fourEnd 2 threeFrames).soundFile.length : Int) < 2+fourFrames.bufferFrames :=
  (timer_ends (by decide) (Run.of_calls _ _ _)).1 (by decide) (by decide)

end Ambix.Jrecord
