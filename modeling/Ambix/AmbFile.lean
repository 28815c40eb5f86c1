import Ambix.FurseMalham
import Ambix.KeptFrames

/-! B-format files. They are EXTENDED files whose matrix comes from adaptor_fuma.c, and the
conversion to Furse-Malham as adaptor gives back their channels. -/
namespace Ambix
open Machine

/-! What a BASIC view of an EXTENDED file shows through the adaptors set on it. -/

section adapted
variable {K : Type} [Field K]

/-- A frame by the matrix of the file, and then by the last adaptor. -/
def seenThrough (A : AmbixMatrix K) (adaptor : Option (AmbixMatrix K)) (fr : List K) : Frame K :=
  (adaptor.elim (mix id id A fr) fun M => mix id id M (mix id id A fr), fr.drop A.cols.toNat)

/-- The view of an EXTENDED file as BASIC, after `adaptor` has been accepted. -/
structure SeenThrough (A : AmbixMatrix K) (adaptor : Option (AmbixMatrix K))
    (l : Layout K) : Prop where
  filemode : l.filemode = .read
  info : l.info.fileformat = .basic
  realinfo : l.realinfo.fileformat = .extended
  matrix : l.matrix = A
  decode : l.decode = seenThrough A adaptor

variable {P : Platform K} {A M : AmbixMatrix K} {h h' h0 : Handle K}
  {call : Call K} {answer : Answer K} {events : List (Event (Handle K) (Call K) (Answer K))}

theorem notSet_unaccepted (hno : ∀ M, call ≠ .setAdaptormatrix M) :
    acceptedMatrix call answer = none := by
  cases call with
  | setAdaptormatrix M => exact absurd rfl (hno M)
  | _ => rfl

variable [LinearOrder K]

theorem SeenThrough.set (hs : SeenThrough A (lastAccepted events) h.toLayout)
    (hcall : (Call.setAdaptormatrix M).run P h = .ok (answer, h')) :
    SeenThrough A (lastAccepted (events ++ [⟨h, .setAdaptormatrix M, answer⟩]))
      h'.toLayout := by
  obtain ⟨hstate, hanswer⟩ := run_set hcall
  have hout := setAdaptormatrix_outcome h M
  generalize h.setAdaptormatrix M = r at hout hstate hanswer
  subst hstate hanswer
  cases hout with
  | @refused err herr =>
    rwa [lastAccepted_keep]
    cases err with
    | success => exact absurd rfl herr
    | _ => rfl
  | multiplied _ _ _ hmtx =>
    refine ⟨hs.filemode, hs.info, hs.realinfo, hs.matrix, ?_⟩
    rw [hs.matrix] at hmtx
    rw [lastAccepted_set rfl]
    funext fr
    refine Prod.ext (mix_product hmtx fr) ?_
    exact congrArg (fun c : UInt32 => fr.drop c.toNat) (matrixMultiply_size hmtx).2
  | fellThrough _ _ hreal => exact absurd hs.realinfo hreal
  | encoded hread =>
    have hmode := hs.filemode
    rw [show h.filemode = .read from hmode] at hread
    cases hread
  | stored _ hinfo => exact absurd (hs.info.symm.trans hinfo) (by decide)

theorem SeenThrough.run (hs : SeenThrough A (lastAccepted events) h.toLayout)
    (hcall : call.run P h = .ok (answer, h')) :
    SeenThrough A (lastAccepted (events ++ [⟨h, call, answer⟩])) h'.toLayout := by
  by_cases hset : ∃ M, call = .setAdaptormatrix M
  · obtain ⟨M, rfl⟩ := hset
    exact hs.set hcall
  · have hno (M) (hM : call = .setAdaptormatrix M) := hset ⟨M, hM⟩
    rwa [lastAccepted_keep (notSet_unaccepted hno), run_layout hcall hno]

theorem session_seenThrough (h0s : SeenThrough A none h0.toLayout)
    (hrun : Session P h0 events h) : SeenThrough A (lastAccepted events) h.toLayout := by
  refine hrun.invariant (fun events h => SeenThrough A (lastAccepted events) h.toLayout)
    h0s ?_
  intro events t call answer u hcall hs
  exact hs.run hcall

theorem session_unadapted (hmode : h0.filemode = .read) (hinfo : h0.info.fileformat ≠ .basic)
    (hrun : Session P h0 events h) : h.toLayout = h0.toLayout := by
  refine hrun.invariant (fun _ h => h.toLayout = h0.toLayout) rfl ?_
  intro events t call answer u hcall hl
  by_cases hset : ∃ M, call = .setAdaptormatrix M
  swap
  · rw [run_layout hcall fun M hM => hset ⟨M, hM⟩, hl]
  obtain ⟨M, rfl⟩ := hset
  have hread : t.filemode = .read := (congrArg Layout.filemode hl).trans hmode
  have hother : t.info.fileformat ≠ .basic := by
    rw [show t.info = h0.info from congrArg Layout.info hl]
    exact hinfo
  rw [← answered_state hcall]
  have hout := setAdaptormatrix_outcome t M
  change (t.setAdaptormatrix M).2.toLayout = h0.toLayout
  generalize t.setAdaptormatrix M = r at hout
  cases hout with
  | refused => exact hl
  | multiplied _ hbasic => exact absurd hbasic hother
  | fellThrough _ hbasic => exact absurd hbasic hother
  | encoded _ hwrite =>
    rw [hread] at hwrite
    cases hwrite
  | stored hwrite =>
    rw [hread] at hwrite
    cases hwrite

end adapted

/-! Opening. -/

section opening
variable {K : Type} [Field K] {P : Platform K} {disk : Disk K} {info : Info} {g0 : Handle K}
  {file : SoundFile K} {A : AmbixMatrix K}

/-- The numbers of channels the backend prepares a matrix for. -/
def ambCounts : List Nat := [3, 4, 5, 6, 7, 8, 9, 11, 16]

theorem fumaMatrix_cols {channels : UInt32} (hcount : channels.toNat ∈ ambCounts) :
    (fumaMatrix channels : AmbixMatrix K).cols = channels := by
  unfold fumaMatrix
  split
  all_goals try rfl
  simp only [ambCounts, List.mem_cons, List.not_mem_nil, or_false] at hcount
  grind

theorem fumaMatrix_null {channels : UInt32} (hcount : channels.toNat ∉ ambCounts) :
    (fumaMatrix channels : AmbixMatrix K) = matrixNull := by
  simp only [ambCounts, List.mem_cons, List.not_mem_nil, or_false] at hcount
  unfold fumaMatrix
  split
  all_goals first | rfl | omega

theorem backendOpen_amb (hfile : disk.existing = some file)
    (hamb : file.container = .wavexAmbisonic)
    (hfill : matrixFill P.sqrt (fumaMatrix file.channels) .fuma = .ok (some A))
    (channels : UInt32) :
    backendOpen P disk .read channels = .ok (some ⟨⟨file, .read, 0, disk.chunkOk, 0⟩, true,
      .extended, decide (P.host ≠ file.order), A⟩) := by
  simp only [backendOpen, sfOpen, hfile, Option.map_some, hamb, hfill, ok_bind]

theorem backendOpen_noAmb (hfile : disk.existing = some file)
    (hamb : file.container = .wavexAmbisonic)
    (hfill : matrixFill P.sqrt (fumaMatrix file.channels) .fuma = .ok none) (channels : UInt32) :
    backendOpen P disk .read channels = .ok (some ⟨⟨file, .read, 0, disk.chunkOk, 0⟩, false,
      .none, decide (P.host ≠ file.order), fumaMatrix file.channels⟩) := by
  simp only [backendOpen, sfOpen, hfile, Option.map_some, hamb, hfill, ok_bind]

theorem ambixOpen_amb (hfile : disk.existing = some file)
    (hamb : file.container = .wavexAmbisonic)
    (hfill : matrixFill P.sqrt (fumaMatrix file.channels) .fuma = .ok (some A))
    (hcols : A.cols = file.channels) (hfull : isFullset A.rows = true)
    (hopen : ambixOpen P disk .read info = .ok (some g0)) :
    g0.toLayout = (extendedLayout A file.channels).present info.fileformat := by
  refine ambixOpen_extended hfile hopen (backendOpen_amb hfile hamb hfill 0) ?_ hfull
  rw [hcols]
  exact UInt32.le_refl _

theorem ambixOpen_noAmb (hfile : disk.existing = some file)
    (hamb : file.container = .wavexAmbisonic)
    (hfill : matrixFill P.sqrt (fumaMatrix file.channels) .fuma = .ok none)
    (hopen : ambixOpen P disk .read info = .ok (some g0)) :
    g0.filemode = .read ∧ g0.info.fileformat = .none ∧ g0.decode = fun fr => ([], fr) := by
  obtain ⟨o, hback', -, hl⟩ := ambixOpen_read_layout hfile hopen
  obtain rfl := Option.some.inj (Except.ok.inj
    (hback'.symm.trans (backendOpen_noAmb hfile hamb hfill 0)))
  change g0.toLayout = Layout.present info.fileformat ⟨.read, ⟨.none, file.channels, 0⟩,
    ⟨.none, file.channels, 0⟩, fumaMatrix file.channels, matrixNull, .none⟩ at hl
  rw [Layout.present, if_neg (by simp), if_neg (by simp)] at hl
  rw [hl]
  exact ⟨rfl, rfl, rfl⟩

end opening

/-! Reading. -/

section reading
variable {K : Type} [Field K] [LinearOrder K] {P : Platform K} {disk : Disk K} {info : Info}
  {g0 g : Handle K} {file : SoundFile K} {A : AmbixMatrix K}

/-- Whatever is read from a file, in any order, in any format and with any adaptors set, is what
`view` tells of its frames, by the format and the last adaptor that was accepted. -/
def ShowsAs (P : Platform K) (file : SoundFile K)
    (view : FileFormat → Option (AmbixMatrix K) → List K → Frame K) : Prop :=
  ∀ (disk : Disk K) (info : Info) (g0 g : Handle K)
    (before after : List (Event (Handle K) (Call K) (Answer K)))
    (e : Event (Handle K) (Call K) (Answer K)) (type : SampleType) (ambidata otherdata : Nat → K)
    (n got : Nat) (split : Split K),
    disk.existing = some file → ambixOpen P disk .read info = .ok (some g0) →
    Session P g0 (before ++ e :: after) g → e.call = .readf type ambidata otherdata n →
    e.answer = .read (.ok (got, split)) →
    split.frames e.state.stride.toNat e.state.info.extrachannels.toNat got =
      ((Tape.run (before.map tapeOp) ⟨file.frames, 0⟩).step (.read n)).1.map
        (view info.fileformat (lastAccepted before))

theorem showsAs_of {view : FileFormat → Option (AmbixMatrix K) → List K → Frame K}
    (hview : ∀ (disk : Disk K) (info : Info) (g0 g : Handle K)
      (events : List (Event (Handle K) (Call K) (Answer K))), disk.existing = some file →
      ambixOpen P disk .read info = .ok (some g0) → Session P g0 events g →
      ∀ fr ∈ file.frames, g.decode fr = view info.fileformat (lastAccepted events) fr) :
    ShowsAs P file view := by
  intro disk info g0 g before after e type ambidata otherdata n got split hfile hopen hrun hcall
    hanswer
  obtain ⟨htape, hitems⟩ := session_readTape hfile hopen hrun.before
  obtain ⟨u, hstep⟩ := hrun.event (List.mem_append_right _ List.mem_cons_self)
  rw [hcall, hanswer] at hstep
  rw [(session_readHandle hopen hrun.before).delivers_step hstep, ← htape]
  refine List.map_congr_left fun fr hfr => hview _ _ _ _ _ hfile hopen hrun.before fr ?_
  rw [← hitems]
  exact List.mem_of_mem_drop (List.mem_of_mem_take hfr)

theorem ambixOpen_shows (hfile : disk.existing = some file)
    (hamb : file.container = .wavexAmbisonic)
    (hfill : matrixFill P.sqrt (fumaMatrix file.channels) .fuma = .ok (some A))
    (hcols : A.cols = file.channels) (hfull : isFullset A.rows = true)
    (hopen : ambixOpen P disk .read info = .ok (some g0))
    {events : List (Event (Handle K) (Call K) (Answer K))} (hrun : Session P g0 events g)
    {fr : List K} (hfr : fr ∈ file.frames) : g.decode fr =
      if info.fileformat = .basic then seenThrough A (lastAccepted events) fr else (fr, []) := by
  have hl := ambixOpen_amb hfile hamb hfill hcols hfull hopen
  split
  · rename_i hbasic
    rw [hbasic] at hl
    have h0s : SeenThrough A none g0.toLayout := by
      rw [hl]
      refine ⟨rfl, rfl, rfl, rfl, funext fun fr => ?_⟩
      rw [extendedLayout_decode, if_pos rfl]
      rfl
    rw [(session_seenThrough h0s hrun).decode]
  · rename_i hother
    have hmode : g0.filemode = .read := (session_readHandle hopen .start).filemode
    have hlength : fr.length = A.cols.toNat := by rw [file.width fr hfr, hcols]
    have hinfo : g0.info.fileformat ≠ .basic := by
      rw [hl, Layout.present, if_neg fun h => hother h.1, if_neg fun h => by cases h.2]
      exact fun h => by cases h
    rw [session_unadapted hmode hinfo hrun, hl, extendedLayout_decode, if_neg hother, ← hlength,
      List.take_length, List.drop_length]

end reading

theorem Converts.seenThrough {count : UInt32} {s : FumaSet count.toNat} {A F : AmbixMatrix ℝ}
    (h : Converts s A F) (hcount : count.toNat ≤ 16) {fr : List ℝ}
    (hfr : fr.length = count.toNat) : seenThrough A (some F) fr = (fr, []) := by
  have hone := mix_product (h.undoes hcount matrixNull) fr
  rw [mix_identity (by omega) hfr] at hone
  refine Prod.ext hone.symm ?_
  change fr.drop A.cols.toNat = []
  rw [h.cols, ← hfr, List.drop_length]

/-- A B-format file of a number of channels in the table is read as the ambiX channels of its
matrix, through the last adaptor set, and as its own channels when that is the conversion to
Furse-Malham or the file is opened in another format. Of any other B-format file all channels
are extra channels. -/
theorem amb_shown (P : Platform ℝ) (hsqrt : P.sqrt = Real.sqrt) (file : SoundFile ℝ)
    (hamb : file.container = .wavexAmbisonic) :
    (file.channels.toNat ∈ ambCounts →
      ∃ (s : FumaSet file.channels.toNat) (A F : AmbixMatrix ℝ), Converts s A F ∧
        matrixFill P.sqrt (matrixInit file.channels A.rows) .toFuma = .ok (some F) ∧
        (∀ fr ∈ file.frames, seenThrough A (some F) fr = (fr, [])) ∧
        ShowsAs P file fun format adaptor fr =>
          if format = .basic then seenThrough A adaptor fr else (fr, [])) ∧
    (file.channels.toNat ∉ ambCounts → ShowsAs P file fun _ _ fr => ([], fr)) := by
  rw [hsqrt]
  constructor
  · intro hcount
    have htable : ∀ c ∈ ambCounts, c ∈ fumaCounts ∧ c ≤ 16 := by decide
    obtain ⟨hfuma, hle⟩ := htable _ hcount
    obtain ⟨s, A, F, hconv, hA, hF⟩ := converts_exists (fumaMatrix_cols hcount)
      (matrixInit_rows file.channels (fumaFullset file.channels.toNat)) hfuma
    refine ⟨s, A, F, hconv, hconv.rows ▸ hF, fun fr hfr => ?_, showsAs_of ?_⟩
    · exact hconv.seenThrough hle (file.width fr hfr)
    · intro disk info g0 g events hfile hopen hrun fr hfr
      have hfull : isFullset A.rows = true := hconv.rows ▸ fumaFullset_isFullset _
      exact ambixOpen_shows hfile hamb (hsqrt ▸ hA) hconv.cols hfull hopen hrun hfr
  · intro hcount
    have hfill : matrixFill P.sqrt (fumaMatrix file.channels) .fuma = .ok none := by
      rw [fumaMatrix_null hcount]
      exact matrixFill_fuma (fuma_none P.sqrt (by decide)).1
    refine showsAs_of fun disk info g0 g events hfile hopen hrun fr _ => ?_
    obtain ⟨hmode, hnone, hdecode⟩ := ambixOpen_noAmb hfile hamb hfill hopen
    rw [session_unadapted hmode (by rw [hnone]; decide) hrun, hdecode]

theorem ambixOpen_noChunks {P : Platform ℝ} {disk : Disk ℝ} {file : SoundFile ℝ}
    {A : AmbixMatrix ℝ} (hgrants : ∀ size, P.grants size = true)
    (hfile : disk.existing = some file) (hamb : file.container = .wavexAmbisonic)
    (hfill : matrixFill P.sqrt (fumaMatrix file.channels) .fuma = .ok (some A))
    (hchunks : file.chunks = []) (info : Info) :
    ∃ g0, ambixOpen P disk .read info = .ok (some g0) := by
  have hback := backendOpen_amb hfile hamb hfill (info.ambichannels+info.extrachannels)
  refine ⟨_, ambixOpen_eq_some.mpr ⟨info, info.fileformat, _, [], [], rfl, hback, ?_,
    Prod.ext ?_ rfl⟩⟩
  · simp only [readAnnotations, hchunks]
    rfl
  · exact adaptorbufferResize_granted hgrants _ _ defaultAdaptorbufferSize 4 0 (by decide)
      (by decide) (by decide)

/-- A frame of three channels, read as EXTENDED. -/
theorem amb_shown_three : ∃ (P : Platform ℝ) (file : SoundFile ℝ) (h0 h : Handle ℝ)
      (split : Split ℝ), file.container = .wavexAmbisonic ∧ file.frames = [[1, 2, 3]] ∧
    ambixOpen P (.holding file) .read ⟨.extended, 0, 0⟩ = .ok (some h0) ∧
    (Call.readf .float32 (fun _ => 0) (fun _ => 0) 1).run P h0 =
      .ok (.read (.ok (1, split)), h) ∧
    split.frames h0.stride.toNat h0.info.extrachannels.toNat 1 = [([1, 2, 3], [])] := by
  obtain ⟨P, hsqrt, hgrants⟩ : ∃ P : Platform ℝ, P.sqrt = Real.sqrt ∧
      ∀ size, P.grants size = true :=
    ⟨⟨.little, fun _ => 0, fun _ => 0, Real.sqrt, fun _ => true, fun _ => 0⟩, rfl, fun _ => rfl⟩
  obtain ⟨file, hamb, hthree, hchunks, hframes⟩ : ∃ file : SoundFile ℝ,
      file.container = .wavexAmbisonic ∧ file.channels = 3 ∧ file.chunks = [] ∧
      file.frames = [[1, 2, 3]] :=
    ⟨⟨.wavexAmbisonic, .little, 3, [], [[1, 2, 3]], by decide, by decide, by simp⟩, rfl, rfl, rfl,
      rfl⟩
  have hfile : (Disk.holding file).existing = some file := rfl
  have hcount : file.channels.toNat ∈ ambCounts := by
    rw [hthree]
    decide
  obtain ⟨s, A, F, hconv, hA, -⟩ := converts_exists (fumaMatrix_cols hcount)
    (matrixInit_rows file.channels 0) (by rw [hthree]; decide)
  rw [← hsqrt] at hA
  have hfull : isFullset A.rows = true := by
    rw [hconv.rows]
    exact fumaFullset_isFullset _
  obtain ⟨h0, hopen⟩ := ambixOpen_noChunks hgrants hfile hamb hA hchunks ⟨.extended, 0, 0⟩
  have hl := ambixOpen_amb hfile hamb hA hconv.cols hfull hopen
  rw [Layout.present, if_neg fun h => (by cases h.1), if_neg fun h => (by cases h.2)] at hl
  obtain ⟨o, -, hsf, -⟩ := ambixOpen_read_layout hfile hopen
  have hroom : h0.bufferChannels = 3 := by
    rw [hl, Layout.bufferChannels, extendedLayout, hconv.cols, hthree]
    rfl
  have hchannels : h0.sf.file.channels = 3 := by rw [hsf, hthree]
  obtain ⟨split, h, hread⟩ := readf_left hgrants
    ⟨by rw [hchannels, hroom]; decide, by rw [hroom]; decide⟩ (by rw [hsf]; rfl)
    .float32 (n := 1) (by rw [Layout.bytes, hroom]; decide) (fun _ => 0) (fun _ => 0)
  have hone : (h0.remaining.take 1).length = 1 := by
    rw [Handle.remaining, hsf, hframes]
    rfl
  rw [hone] at hread
  have hcall : (Call.readf .float32 (fun _ => 0) (fun _ => 0) 1).run P h0 =
      .ok (.read (.ok (1, split)), h) := by
    rw [Call.run, hread, ok_bind]
  obtain ⟨_, _, _, _, _, _, hshows⟩ := (amb_shown P hsqrt file hamb).1 hcount
  have hrun : Session P h0 ([] ++ ⟨h0, .readf .float32 (fun _ => 0) (fun _ => 0) 1,
      .read (.ok (1, split))⟩ :: []) h := .call .start hcall
  have hshown := hshows _ _ _ _ _ _ _ _ _ _ _ _ _ hfile hopen hrun rfl rfl
  rw [hframes] at hshown
  exact ⟨P, file, h0, h, split, hamb, hframes, hopen, hcall, hshown⟩

end Ambix
