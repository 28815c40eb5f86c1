import Ambix.JplayHeard

/-! The disk thread of ambix-jplay: what it loads from the file, and when it sleeps. -/
namespace Ambix.Jplay
open Machine
open JackBuffers (bytes)

section file
variable {K β R : Type} [Field K] {P : Platform K} {B : JackRingbuffer R β} {F : BlockCode K β}
  {S : JackBuffers} {V : FrameView K} {x : Player K β R} {source loaded : List (List K)}

def merged (V : FrameView K) (fr : List K) : List K := (V.decode fr).1 ++ (V.decode fr).2

omit [Field K] in
theorem framesOf_interleaveData (split : Split K) (a e channels : UInt32) (dBuffer : Nat → K)
    (n : Nat) (hchannels : channels.toNat = a.toNat+e.toNat) :
    framesOf (interleaveData split.ambi.data a split.other.data e dBuffer n) channels.toNat n =
      (split.frames a.toNat e.toNat n).map fun f => f.1 ++ f.2 := by
  have hzip : (split.frames a.toNat e.toNat n).map (fun f => f.1 ++ f.2) =
      List.zipWith (· ++ ·) (framesOf split.ambi.data a.toNat n)
        (framesOf split.other.data e.toNat n) := List.map_uncurry_zip_eq_zipWith
  have hwidth : ∀ l ∈ (split.frames a.toNat e.toNat n).map (fun f => f.1 ++ f.2),
      l.length = channels.toNat := by
    intro l hl
    obtain ⟨⟨l1, l2⟩, hmem, rfl⟩ := List.mem_map.mp hl
    obtain ⟨h1, h2⟩ := List.of_mem_zip hmem
    rw [List.length_append, framesOf_width l1 h1, framesOf_width l2 h2, hchannels]
  have hframes := framesOf_putAll dBuffer hwidth
  rw [List.length_map, Split.frames, List.length_zip, framesOf_length, framesOf_length,
    Nat.min_self] at hframes
  rw [interleaveData, mergeAdaptor_eq, ← hzip]
  exact hframes

/-! The handle. -/

theorem seekSet_presents {h : Handle K} (hp : Presents h V) (frame : Int) :
    Presents (seekSet frame h) V := by
  unfold seekSet
  split
  · exact ⟨hp.reads, hp.channels, hp.split⟩
  · exact hp

/-! What has been read. -/

/-- What is still in front of the disk thread. -/
def upcoming (x : Player K β R) : List (List K) :=
  (if x.disk = .top then seekSet x.seekRequest x.soundFile else x.soundFile).remaining

/-- The frames of `source` that are not loaded yet are still to come. -/
structure Reads (F : BlockCode K β) (S : JackBuffers) (V : FrameView K) (source : List (List K))
    (x : Player K β R) (loaded : List (List K)) : Prop where
  presents : Presents x.soundFile V
  rest : x.disk ≠ .ended → loaded ++ (upcoming x).map (merged V) = source.map (merged V)
  inOrder : loaded <+: source.map (merged V)
  sought : x.disk = .top ∨ x.disk = .seeking ∨ x.disk = .ended ∨ x.seekRequest < 0
  found : ∀ n, x.disk = .waiting (.enough n) → S.minimalBytes F ≤ n
  ended : x.disk = .ended → x.endOfProcess = true ∨ loaded = source.map (merged V)

theorem Reads.of_same (h : Reads F S V source x loaded) {y : Player K β R}
    (hfile : y.soundFile = x.soundFile) (hdisk : y.disk = x.disk)
    (hseek : y.seekRequest = x.seekRequest) (hend : x.endOfProcess = true → y.endOfProcess = true) :
    Reads F S V source y loaded where
  presents := hfile ▸ h.presents
  rest := by
    rw [upcoming, hdisk, hfile, hseek]
    exact h.rest
  inOrder := h.inOrder
  sought := by
    rw [hdisk, hseek]
    exact h.sought
  found := by
    rw [hdisk]
    exact h.found
  ended := by
    rw [hdisk]
    exact fun hended => (h.ended hended).imp_left hend

theorem Reads.move (h : Reads F S V source x loaded) (hgoing : x.disk ≠ .ended) {y : Player K β R}
    (hpresents : Presents y.soundFile V) (hrest : upcoming y = upcoming x)
    (hsought : y.disk = .seeking ∨ y.disk = .ended ∨ y.seekRequest < 0)
    (hfound : ∀ n, y.disk = .waiting (.enough n) → S.minimalBytes F ≤ n) (hlast : y.disk ≠ .ended) :
    Reads F S V source y loaded where
  presents := hpresents
  rest _ := hrest ▸ h.rest hgoing
  inOrder := h.inOrder
  sought := Or.inr hsought
  found := hfound
  ended hended := absurd hended hlast

theorem upcoming_of_ne (h : x.disk ≠ .top) : upcoming x = x.soundFile.remaining := by
  rw [upcoming, if_neg h]

omit [Field K] in
theorem nframes_pos (hmin : (S.frameBytes F : Int) ≤ S.minimalBytes F)
    (hbuffer : 0 < S.bufferFrames)
    {space : Nat} (hspace : S.minimalBytes F ≤ space) :
    0 < S.nframes F (if space > S.bufferBytes F then S.bufferBytes F else space) := by
  have hpos := S.frameBytes_pos F
  have hbytes : S.frameBytes F ≤ S.bufferBytes F := by
    rw [S.bufferBytes_eq F]
    exact Nat.le_mul_of_pos_left _ hbuffer
  rw [JackBuffers.nframes, Nat.div_div_eq_div_mul, Nat.mul_comm F.width]
  refine Nat.div_pos ?_ hpos
  change S.frameBytes F ≤ _
  split <;> omega

theorem Reads.read (h : Reads F S V source x loaded) (hambi : S.aChannels.toNat = V.ambi)
    (hextra : S.eChannels.toNat = V.extra) (hmin : (S.frameBytes F : Int) ≤ S.minimalBytes F)
    (hbuffer : 0 < S.bufferFrames) {space : Nat} (hdisk : x.disk = .waiting (.enough space)) :
    Reads F S V source (diskStep P B F S false x).2
      (loaded ++ (diskStep P B F S false x).1.loaded) := by
  have hpos := nframes_pos hmin hbuffer (h.found space hdisk)
  have hgoing : x.disk ≠ .ended := by simp [hdisk]
  have hseek : x.seekRequest < 0 := by
    have hsought := h.sought
    simpa [hdisk] using hsought
  have hrest := h.rest hgoing
  rw [upcoming_of_ne (by simp [hdisk])] at hrest
  rw [diskStep, hdisk]
  dsimp only
  generalize S.nframes F (if space > S.bufferBytes F then S.bufferBytes F else space) = n at hpos ⊢
  generalize hread : x.soundFile.readf P .float32 x.aBuffer x.eBuffer n = r
  obtain fault | ⟨err | ⟨got, split⟩, soundFile⟩ := r
  · rw [refill, nothing, List.append_nil]
    refine h.move hgoing h.presents ?_ (Or.inr (Or.inr hseek)) (fun n hn => h.found n hn) hgoing
    simp only [upcoming, hdisk]
  · obtain ⟨size, rfl⟩ := readf_error hread
    rw [refill, nothing, List.append_nil]
    refine h.move hgoing ⟨h.presents.reads, h.presents.channels, h.presents.split⟩ ?_
      (Or.inr (Or.inr hseek))
      (fun n hn => h.found n hn) hgoing
    simp only [upcoming, hdisk]
    rfl
  · obtain ⟨hframes, hpresents, -, hdropped⟩ := readf_presents h.presents hread
    rw [refill]
    dsimp only
    by_cases hgot : got = 0
    · rw [if_pos hgot]
      have hlength := congrArg List.length hframes
      rw [hgot, Split.frames, List.length_zip, framesOf_length, framesOf_length, List.length_map,
        List.length_take] at hlength
      have hnone : x.soundFile.remaining = [] := List.length_eq_zero_iff.mp (by omega)
      rw [hnone, List.map_nil, List.append_nil] at hrest
      change Reads F S V source _ (loaded ++ [])
      rw [List.append_nil]
      exact ⟨hpresents, fun hlast => absurd rfl hlast, h.inOrder, Or.inr (Or.inr (Or.inl rfl)),
        by simp, fun _ => Or.inr hrest⟩
    · rw [if_neg hgot]
      have hnew : framesOf (interleaveData split.ambi.data S.aChannels split.other.data S.eChannels
          x.dBuffer got) S.channels.toNat got = (x.soundFile.remaining.take n).map (merged V) := by
        rw [framesOf_interleaveData _ _ _ _ _ _ S.channels_toNat, hambi, hextra, hframes,
          List.map_map]
        rfl
      have hsource : (loaded ++ (x.soundFile.remaining.take n).map (merged V)) ++
          (x.soundFile.remaining.drop n).map (merged V) = source.map (merged V) := by
        rw [List.append_assoc, ← List.map_append, List.take_append_drop, hrest]
      rw [load]
      dsimp only
      rw [hnew]
      refine ⟨hpresents, fun _ => ?_, ⟨_, hsource⟩, Or.inr (Or.inr (Or.inr hseek)), by simp,
        by simp⟩
      rw [upcoming_of_ne (by simp), hdropped]
      exact hsource

theorem Reads.diskStep (h : Reads F S V source x loaded) (hambi : S.aChannels.toNat = V.ambi)
    (hextra : S.eChannels.toNat = V.extra) (hmin : (S.frameBytes F : Int) ≤ S.minimalBytes F)
    (hbuffer : 0 < S.bufferFrames) :
    Reads F S V source (diskStep P B F S false x).2
      (loaded ++ (diskStep P B F S false x).1.loaded) := by
  have hsought := h.sought
  cases hdisk : x.disk with
  | top =>
    have hgoing : x.disk ≠ .ended := by simp [hdisk]
    rw [Jplay.diskStep, hdisk]
    dsimp only
    by_cases hend : x.endOfProcess = true
    · rw [if_pos hend, nothing, List.append_nil]
      exact ⟨h.presents, fun hlast => absurd rfl hlast, h.inOrder, Or.inr (Or.inr (Or.inl rfl)),
        by simp, fun _ => Or.inl hend⟩
    · rw [if_neg hend]
      by_cases hseek : 0 ≤ x.seekRequest
      · rw [if_pos hseek, nothing, List.append_nil]
        refine h.move hgoing (seekSet_presents h.presents _) ?_ (Or.inl rfl) (by simp) (by simp)
        simp only [upcoming, hdisk, if_true]
        rfl
      · rw [if_neg hseek, nothing, List.append_nil]
        refine h.move hgoing h.presents ?_ (Or.inr (Or.inr (by simpa using hseek))) (by simp)
          (by simp)
        have hnowhere : seekSet x.seekRequest x.soundFile = x.soundFile :=
          if_neg fun hle => hseek hle.1
        simp only [upcoming, hdisk, if_true, hnowhere]
        rfl
  | seeking =>
    have hgoing : x.disk ≠ .ended := by simp [hdisk]
    rw [Jplay.diskStep, hdisk, nothing, List.append_nil]
    refine h.move hgoing h.presents ?_ (Or.inr (Or.inr (show (-1 : Int) < 0 by decide)))
      (by simp) (by simp)
    simp only [upcoming, hdisk]
    rfl
  | ended =>
    rw [Jplay.diskStep, hdisk, nothing, List.append_nil]
    exact h
  | storing n =>
    have hgoing : x.disk ≠ .ended := by simp [hdisk]
    have hseek : x.seekRequest < 0 := by simpa [hdisk] using hsought
    rw [Jplay.diskStep, hdisk, nothing, List.append_nil]
    refine h.move hgoing h.presents ?_ (Or.inr (Or.inr hseek)) (by simp) (by simp)
    have hnowhere : seekSet x.seekRequest x.soundFile = x.soundFile :=
      if_neg fun hle => absurd hle.1 (not_le.mpr hseek)
    simp only [upcoming, hdisk, if_true, hnowhere]
    rfl
  | waiting w =>
    have hgoing : x.disk ≠ .ended := by simp [hdisk]
    have hseek : x.seekRequest < 0 := by simpa [hdisk] using hsought
    cases w with
    | enough space => exact h.read hambi hextra hmin hbuffer hdisk
    | measuring =>
      rw [Jplay.diskStep, hdisk, nothing, List.append_nil]
      refine h.move hgoing h.presents ?_ (Or.inr (Or.inr hseek)) (fun n hn => ?_) (by simp)
      · simp only [upcoming, hdisk]
        rfl
      · dsimp only [Wait.step] at hn
        split at hn
        · cases hn
        · cases hn
          omega
    | sleeping =>
      rw [Jplay.diskStep, hdisk, nothing, List.append_nil]
      refine h.move hgoing h.presents ?_ (Or.inr (Or.inr hseek)) (fun n hn => ?_) (by simp)
      · simp only [upcoming, hdisk]
        rfl
      · by_cases htokens : x.pipe = 0 <;> simp [Wait.step, htokens] at hn

theorem Reads.step (h : Reads F S V source x loaded) (hambi : S.aChannels.toNat = V.ambi)
    (hextra : S.eChannels.toNat = V.extra) (hmin : (S.frameBytes F : Int) ≤ S.minimalBytes F)
    (hbuffer : 0 < S.bufferFrames) (a : Action K) :
    Reads F S V source (step P B F S false x a).2
      (loaded ++ (step P B F S false x a).1.loaded) := by
  have hsame {y : Player K β R} (hy : Reads F S V source y loaded) :
      Reads F S V source y (loaded ++ (nothing K).loaded) := by
    rwa [nothing, List.append_nil]
  unfold Jplay.step
  by_cases hfailure : x.failure.isSome = true
  · rw [if_pos hfailure]
    exact hsame h
  · rw [if_neg hfailure]
    cases a with
    | process nframes out rolling =>
      dsimp only
      by_cases hidle : x.callback = .idle
      · rw [if_pos hidle]
        unfold signalProc
        dsimp only
        split
        · exact hsame (h.of_same rfl rfl rfl id)
        · rw [if_neg (by simp)]
          exact hsame (h.of_same rfl rfl rfl id)
      · rw [if_neg hidle]
        exact hsame h
    | callback =>
      refine hsame ?_
      rw [callbackStep]
      cases x.callback with
      | idle => exact h
      | poking => exact h.of_same rfl rfl rfl id
    | sync frame => exact hsame h
    | disk => exact h.diskStep hambi hextra hmin hbuffer
    | signal => exact hsame (h.of_same rfl rfl rfl fun _ => rfl)

theorem Reads.run {soundFile : Handle K} (hpresents : Presents soundFile V)
    (hambi : S.aChannels.toNat = V.ambi) (hextra : S.eChannels.toNat = V.extra)
    (hmin : (S.frameBytes F : Int) ≤ S.minimalBytes F) (hbuffer : 0 < S.bufferFrames)
    {seekRequest : Int} {aBuffer eBuffer dBuffer : Nat → K} {jBuffer : Nat → β}
    {events : List (Event (Player K β R) (Action K) (Output K))} {y : Player K β R}
    (hrun : Runs P B F S false
      (newPlayer B F S soundFile seekRequest aBuffer eBuffer dBuffer jBuffer) events y) :
    Reads F S V (seekSet seekRequest soundFile).remaining y (loads events) := by
  refine hrun.invariant (fun events y =>
    Reads F S V (seekSet seekRequest soundFile).remaining y (loads events)) ?_ ?_
  · exact ⟨hpresents, fun _ => rfl, List.nil_prefix, Or.inl rfl, by simp [newPlayer],
      by simp [newPlayer]⟩
  · intro events y a answer z hcall h
    have hstep : Jplay.step P B F S false y a = (answer, z) := Except.ok.inj hcall
    have hnext := h.step (P := P) (B := B) hambi hextra hmin hbuffer a
    rw [hstep] at hnext
    rw [loads, List.flatMap_append, List.flatMap_singleton]
    exact hnext

/-! Reads that are answered. -/

/-- No read has failed, and none will. -/
structure Readable (S : JackBuffers) (x : Player K β R) : Prop where
  reads : x.soundFile.sf.mode.canRead = true
  counted : Counted x.soundFile
  fits : x.soundFile.bytes S.bufferFrames SampleType.float32.size < 2^64
  answered : x.failure ≠ some .readError ∧ x.failure ≠ some .overflow

theorem Readable.of_same (h : Readable S x) {y : Player K β R}
    (hlayout : y.soundFile.toLayout = x.soundFile.toLayout)
    (hsame : SameFile x.soundFile y.soundFile)
    (hanswered : y.failure ≠ some .readError ∧ y.failure ≠ some .overflow) : Readable S y where
  reads := hsame.mode ▸ h.reads
  counted := h.counted.of_same hlayout hsame
  fits := hlayout ▸ h.fits
  answered := hanswered

theorem seekSet_same (frame : Int) (h : Handle K) : SameFile h (seekSet frame h) ∧
    (seekSet frame h).toLayout = h.toLayout := by
  unfold seekSet
  split <;> exact ⟨⟨rfl, rfl, rfl, rfl, rfl, rfl, rfl⟩, rfl⟩

theorem Readable.diskStep (h : Readable S x) (hgrants : ∀ size, P.grants size = true) (t : Bool) :
    Readable S (diskStep P B F S t x).2 := by
  have hstays {y : Player K β R} (hfile : y.soundFile = x.soundFile)
      (hfailure : y.failure = x.failure) : Readable S y :=
    h.of_same (congrArg Handle.toLayout hfile) (hfile ▸ SameFile.refl _) (hfailure ▸ h.answered)
  rw [Jplay.diskStep]
  cases hdisk : x.disk with
  | top =>
    dsimp only
    obtain ⟨hsame, hlayout⟩ := seekSet_same x.seekRequest x.soundFile
    split
    · exact hstays rfl rfl
    · split
      · exact h.of_same hlayout hsame h.answered
      · exact hstays rfl rfl
  | seeking => exact hstays rfl rfl
  | ended => exact h
  | storing n => exact hstays rfl rfl
  | waiting w =>
    cases w with
    | measuring => exact hstays rfl rfl
    | sleeping => exact hstays rfl rfl
    | enough space =>
      have hle : S.nframes F (if space > S.bufferBytes F then S.bufferBytes F else space) ≤
          S.bufferFrames := by
        refine JackBuffers.nframes_le ?_
        split <;> omega
      dsimp only
      generalize S.nframes F (if space > S.bufferBytes F then S.bufferBytes F else space) = n
        at hle ⊢
      obtain ⟨split, soundFile, hread⟩ := readf_left hgrants h.counted h.reads
        .float32 (lt_of_le_of_lt (bytes_mono hle _) h.fits) x.aBuffer x.eBuffer
      have hlayout := readf_layout hread
      have hsame := readf_sameFile hread
      rw [hread]
      unfold refill
      dsimp only
      split
      · split
        · exact h.of_same hlayout hsame h.answered
        · exact h.of_same hlayout hsame h.answered
      · exact h.of_same hlayout hsame h.answered

theorem Readable.step (h : Readable S x) (hgrants : ∀ size, P.grants size = true) (t : Bool)
    (a : Action K) : Readable S (step P B F S t x a).2 := by
  have hstays {y : Player K β R} (hfile : y.soundFile = x.soundFile)
      (hfailure : y.failure ≠ some .readError ∧ y.failure ≠ some .overflow) : Readable S y :=
    h.of_same (congrArg Handle.toLayout hfile) (hfile ▸ SameFile.refl _) hfailure
  unfold Jplay.step
  split
  · exact h
  · cases a with
    | process nframes out rolling =>
      dsimp only
      split
      · unfold signalProc
        dsimp only
        split
        · exact hstays rfl (by simp)
        · split
          · split
            · exact hstays rfl (by simp)
            · exact h
          · exact hstays rfl h.answered
      · exact h
    | callback =>
      dsimp only
      rw [callbackStep]
      cases x.callback with
      | idle => exact h
      | poking => exact hstays rfl h.answered
    | sync frame =>
      dsimp only
      split
      · exact hstays rfl h.answered
      · exact h
    | disk => exact h.diskStep hgrants t
    | signal => exact hstays rfl h.answered

/-- What is heard of a file is a beginning of it, from the place of the initial seek on; when
the disk thread ends by itself, the rest of it is in the ring buffer. -/
theorem plays_file {soundFile : Handle K} (hshows : Shows soundFile V)
    (hambi : S.aChannels = soundFile.info.ambichannels)
    (hextra : S.eChannels = soundFile.info.extrachannels)
    (hmin : (S.frameBytes F : Int) ≤ S.minimalBytes F) (hbuffer : 0 < S.bufferFrames)
    {seekRequest : Int} {aBuffer eBuffer dBuffer : Nat → K} {jBuffer : Nat → β}
    {events : List (Event (Player K β R) (Action K) (Output K))} {y : Player K β R}
    (hrun : Runs P B F S false
      (newPlayer B F S soundFile seekRequest aBuffer eBuffer dBuffer jBuffer) events y) :
    (∀ e ∈ events, Hushed S e.answer) ∧
    (∃ queued held, B.queue y.ringBuffer = bytes F queued ∧
      plays events ++ queued ++ held <+:
        (seekSet seekRequest soundFile).remaining.map (merged V) ∧
      (y.disk = .ended → held = [] ∧ (y.endOfProcess = false →
        plays events ++ queued = (seekSet seekRequest soundFile).remaining.map (merged V)))) ∧
    ((∀ size, P.grants size = true) → Counted soundFile →
      soundFile.bytes S.bufferFrames SampleType.float32.size < 2^64 →
      y.failure ≠ some .readError ∧ y.failure ≠ some .overflow) := by
  have hfollows := Follows.run hrun
  have hreads := Reads.run hshows.presents (by rw [hambi, hshows.ambi])
    (by rw [hextra, hshows.extra])
    hmin hbuffer hrun
  obtain ⟨s, hplayed, hall, hconveys⟩ := hfollows.stages
  rw [← hall, Stages.all, hplayed] at hreads
  refine ⟨hfollows.hushed, ⟨s.queued, s.held, hconveys.queued, hreads.inOrder, fun hended => ?_⟩,
    fun hgrants hcounted hfits => ?_⟩
  · have hholds := hconveys.holds
    rw [Holds, hended] at hholds
    refine ⟨hholds, fun hgoing => ?_⟩
    have hrest := (hreads.ended hended).resolve_left (by simp [hgoing])
    rwa [hholds, List.append_nil] at hrest
  · refine (hrun.preserves (Readable S) ⟨hshows.reads, hcounted, hfits, by simp [newPlayer]⟩
      fun z a answer u hcall h => ?_).answered
    rw [← answered_state hcall]
    exact h.step hgrants false a

end file

theorem plays_file_stereo : ∃ h : Handle ℚ,
    ambixOpen unitPlatform (unitDisk (some stereoFile)) .read ⟨.basic, 0, 0⟩ = .ok (some h) ∧
    ∃ V : FrameView ℚ, (∀ e ∈ trace (stereoStep false) (stereoPlayer h) onePeriod,
      Hushed stereoBuffers e.answer) ∧
    (∃ queued held, fragmentRing.queue
        (leadsTo (stereoStep false) (stereoPlayer h) onePeriod).ringBuffer =
          bytes (fragments ℚ) queued ∧
      plays (trace (stereoStep false) (stereoPlayer h) onePeriod) ++ queued ++ held <+:
        (seekSet (-1) h).remaining.map (merged V) ∧
      ((leadsTo (stereoStep false) (stereoPlayer h) onePeriod).disk = .ended → held = [] ∧
        ((leadsTo (stereoStep false) (stereoPlayer h) onePeriod).endOfProcess = false →
          plays (trace (stereoStep false) (stereoPlayer h) onePeriod) ++ queued =
            (seekSet (-1) h).remaining.map (merged V)))) ∧
    (leadsTo (stereoStep false) (stereoPlayer h) onePeriod).failure ≠ some .readError := by
  obtain ⟨h, hopen, hreads, hlayout, hcols, hambi, hextra, hchannels, hroom⟩ : ∃ h : Handle ℚ,
      ambixOpen unitPlatform (unitDisk (some stereoFile)) .read ⟨.basic, 0, 0⟩ = .ok (some h) ∧
      h.sf.mode.canRead = true ∧ h.toLayout = decodedLayout h.matrix h.sf.file.channels ∧
      h.matrix.cols ≤ h.sf.file.channels ∧ stereoBuffers.aChannels = h.info.ambichannels ∧
      stereoBuffers.eChannels = h.info.extrachannels ∧ h.sf.file.channels = 2 ∧
      h.bufferChannels = 2 :=
    ⟨_, rfl, rfl, rfl, by decide, rfl, rfl, rfl, rfl⟩
  have hplays := plays_file (shows_decodedLayout hreads hlayout hcols) hambi hextra (by decide)
    (by decide) (Run.of_calls (stereoStep false) (stereoPlayer h) onePeriod)
  have hcounted : Counted h := ⟨by rw [hchannels, hroom]; decide, by rw [hroom]; decide⟩
  exact ⟨h, hopen, _, hplays.1, hplays.2.1,
    (hplays.2.2 (fun _ => rfl) hcounted (by rw [Layout.bytes, hroom]; decide)).1⟩

end Ambix.Jplay
