import Ambix.BlockSize
import Ambix.ReadAdaptor
import Ambix.Machine.Tape

/-! The frames of an open file are a tape: seeks move on it, answered transfers read from it
and write to it, and no other call touches it. -/
namespace Ambix
open Machine
variable {K : Type} [Field K] {P : Platform K} {disk : Disk K} {info : Info}
  {h h' h0 : Handle K} {events : List (Event (Handle K) (Call K) (Answer K))}

def SndFile.tape (sf : SndFile K) : Tape (List K) := ⟨sf.file.frames, sf.position⟩

/-- How frames come from the file, by the `switch` on `use_matrix`. -/
def Layout.decode (l : Layout K) (fr : List K) : Frame K :=
  match l.inUse with
  | none => (fr.take l.realinfo.ambichannels.toNat, fr.drop l.realinfo.ambichannels.toNat)
  | some A => (mix id id A fr, fr.drop A.cols.toNat)

def Layout.coded (l : Layout K) (t : Transfer K) : List (List K) :=
  l.coder.code (t.sent l.coder.ambi l.coder.extra)

/-- What a call does on the tape. -/
def tapeOp (e : Event (Handle K) (Call K) (Answer K)) : Tape.Op (List K) :=
  match e.call, e.answer with
  | .seek (some position), _ => .seek position
  | .readf _ _ _ frames, .read (.ok _) =>
    if e.state.sf.mode.canRead then .read frames else .rest
  | .writef type ambidata otherdata frames, .written (.ok _) =>
    if e.state.sf.mode.canWrite then .write (e.state.coded ⟨type, ambidata, otherdata, frames⟩)
    else .rest
  | _, _ => .rest

theorem tapeOp_seek {e : Event (Handle K) (Call K) (Answer K)} {position : Nat}
    (he : tapeOp e = .seek position) : e.call = .seek (some position) := by
  unfold tapeOp at he
  split at he
  · rename_i hcall
    rw [hcall, Tape.Op.seek.inj he]
  · split at he <;> cases he
  · split at he <;> cases he
  · cases he

/-! One call. -/

theorem Annotates.tape (ha : Annotates h h') : h'.sf.tape = h.sf.tape := by
  obtain ⟨markers, regions, pending, rfl⟩ := ha
  rfl

theorem checkWrite_tape {res : Err} (hw : h.checkWrite P = .ok (res, h')) :
    h'.sf.tape = h.sf.tape := by
  obtain ⟨chunks, asked, pending, started, rfl⟩ := checkWrite_frame hw
  rfl

theorem readf_tape (type : SampleType) (ambidata otherdata : Nat → K) (frames : Nat)
    {result : Except Err (Nat × Split K)}
    (hr : h.readf P type ambidata otherdata frames = .ok (result, h')) : h'.sf.tape =
      (h.sf.tape.step (tapeOp ⟨h, .readf type ambidata otherdata frames, .read result⟩)).2 := by
  cases result with
  | error err =>
    obtain ⟨size, rfl⟩ := readf_error hr
    rfl
  | ok r =>
    obtain ⟨size, -, -, -, rfl⟩ := readf_ok hr
    simp only [tapeOp]
    by_cases hreads : h.sf.mode.canRead = true
    · rw [sfReadf_reads hreads, if_pos hreads]
      rfl
    · rw [sfReadf, if_neg hreads, if_neg hreads]
      rfl

theorem writef_error {type : SampleType} {ambidata otherdata : Nat → K} {frames : Nat} {err : Err}
    (hw : h.writef P type ambidata otherdata frames = .ok (.error err, h')) :
    h'.sf.tape = h.sf.tape := by
  obtain ⟨err', g, hg, hcases⟩ := writef_cases hw
  have hcheck := checkWrite_tape hg
  obtain ⟨-, -, rfl⟩ | ⟨-, size, ⟨-, -, rfl⟩ | ⟨-, -, -, hno, -⟩⟩ := hcases
  · exact hcheck
  · exact hcheck
  · cases hno

/-- A handle whose coder makes frames of the file. -/
def Codes (h : Handle K) : Prop :=
  h.sf.mode.canWrite = true → h.coder.channels = h.sf.file.channels.toNat

theorem writef_tape (hcodes : Codes h) (t : Transfer K) {k : Nat}
    (hw : h.writef P t.type t.ambidata t.otherdata t.frames = .ok (.ok k, h')) : h'.sf.tape =
      (h.sf.tape.step
        (tapeOp ⟨h, .writef t.type t.ambidata t.otherdata t.frames, .written (.ok k)⟩)).2 := by
  simp only [tapeOp]
  by_cases hwrites : h.sf.mode.canWrite = true
  · have hhands := writef_hands (takes_coder h.toLayout) (hcodes hwrites) hwrites t hw
    have hlength := code_sent_length h.coder t
    rw [if_pos hwrites]
    change (⟨_, _⟩ : Tape (List K)) = ⟨overwritten h.sf.file.frames h.sf.position _, _⟩
    rw [hhands.frames, hhands.position]
    change _ = (⟨_, h.sf.position+(h.coder.code (t.sent h.coder.ambi h.coder.extra)).length⟩ :
      Tape (List K))
    rw [hlength]
    rfl
  · obtain ⟨g, size, hcheck, -, rfl⟩ := writef_ok hw
    have hsame := checkWrite_sameFile hcheck
    have hno : ¬ g.sf.mode.canWrite = true := by rwa [hsame.mode]
    rw [if_neg hwrites, sfWritef, if_neg hno]
    change g.sf.tape = h.sf.tape
    exact checkWrite_tape hcheck

variable [LinearOrder K]

theorem setAdaptormatrix_tape (A : AmbixMatrix K) :
    (h.setAdaptormatrix A).2.sf.tape = h.sf.tape := by
  rw [(setAdaptormatrix_sf h A).1]

theorem run_tape {call : Call K} {answer : Answer K}
    (hcodes : HandsFrames ⟨h, call, answer⟩ → Codes h)
    (hcall : call.run P h = .ok (answer, h')) :
    h'.sf.tape = (h.sf.tape.step (tapeOp ⟨h, call, answer⟩)).2 := by
  cases call with
  | seek position =>
    cases position with
    | none =>
      rw [← answered_state hcall]
      rfl
    | some position =>
      rw [← answered_state hcall]
      rfl
  | addMarker marker => exact answered_state hcall ▸ (addMarker_annotates h marker).tape
  | addRegion region => exact answered_state hcall ▸ (addRegion_annotates h region).tape
  | deleteMarkers => exact answered_state hcall ▸ (deleteMarkers_annotates h).tape
  | deleteRegions => exact answered_state hcall ▸ (deleteRegions_annotates h).tape
  | setAdaptormatrix A => exact answered_state hcall ▸ setAdaptormatrix_tape A
  | readf type ambidata otherdata frames =>
    obtain ⟨⟨result, g⟩, hr, hcall⟩ := bind_eq_ok.mp hcall
    obtain ⟨rfl, rfl⟩ := Prod.mk.inj (Except.ok.inj hcall)
    exact readf_tape type ambidata otherdata frames hr
  | writef type ambidata otherdata frames =>
    obtain ⟨⟨result, g⟩, hw, hcall⟩ := bind_eq_ok.mp hcall
    obtain ⟨rfl, rfl⟩ := Prod.mk.inj (Except.ok.inj hcall)
    cases result with
    | error err => exact writef_error hw
    | ok k =>
      have hready := hcodes ⟨⟨type, ambidata, otherdata, frames, rfl⟩, k, rfl⟩
      exact writef_tape hready ⟨type, ambidata, otherdata, frames⟩ hw

/-! Runs. -/

/-- Any run of calls is a run of a tape. -/
theorem session_tape (hrun : Session P h0 events h)
    (hcodes : ∀ e ∈ events, HandsFrames e → Codes e.state) :
    h.sf.tape = Tape.run (events.map tapeOp) h0.sf.tape := by
  refine hrun.invariant_of (fun e => HandsFrames e → Codes e.state)
    (fun events h => h.sf.tape = Tape.run (events.map tapeOp) h0.sf.tape) hcodes rfl ?_
  intro events t call answer u hcall hready htape
  rw [run_tape hready hcall, htape, List.map_append, Tape.run_append]
  rfl

/-! Reading. -/

omit [LinearOrder K] in
theorem ReadHandle.decodes (hr : ReadHandle h) : ∃ V, Delivers h V ∧ V.decode = h.decode := by
  cases hA : h.inUse with
  | none =>
    refine ⟨_, hr.delivers_raw hA, funext fun fr => ?_⟩
    rw [Layout.decode, hA]
    rfl
  | some A =>
    refine ⟨_, hr.delivers_matrix hA, funext fun fr => ?_⟩
    rw [Layout.decode, hA]
    rfl

omit [LinearOrder K] in
theorem ReadHandle.codes (hr : ReadHandle h) : Codes h := by
  intro hwrites
  rw [hr.mode] at hwrites
  cases hwrites

theorem session_codes (hopen : ambixOpen P disk .read info = .ok (some h0))
    (hrun : Session P h0 events h) : ∀ e ∈ events, Codes e.state := by
  intro e he
  obtain ⟨before, after, rfl⟩ := List.append_of_mem he
  exact (session_readHandle hopen hrun.before).codes

theorem session_frames (hopen : ambixOpen P disk .read info = .ok (some h0))
    (hrun : Session P h0 events h) : h.sf.file = h0.sf.file := by
  refine (hrun.invariant (fun _ h => ReadHandle h ∧ h.sf.file = h0.sf.file) ?_ ?_).2
  · exact ⟨session_readHandle hopen .start, rfl⟩
  · rintro _ t call answer u hcall ⟨hr, hfile⟩
    exact ⟨readHandle_run hr hcall, (run_reading hr hcall).trans hfile⟩

theorem read_answered {type : SampleType} {ambidata otherdata : Nat → K} {n got : Nat}
    {split : Split K} (hcall : (Call.readf type ambidata otherdata n).run P h =
      .ok (.read (.ok (got, split)), h')) :
    h.readf P type ambidata otherdata n = .ok (.ok (got, split), h') := by
  obtain ⟨⟨result, g⟩, hr, hcall⟩ := bind_eq_ok.mp hcall
  obtain ⟨hanswer, rfl⟩ := Prod.mk.inj (Except.ok.inj hcall)
  rwa [Answer.read.inj hanswer] at hr

theorem ReadHandle.delivers_step (hr : ReadHandle h) {type : SampleType}
    {ambidata otherdata : Nat → K} {n got : Nat} {split : Split K}
    (hcall : (Call.readf type ambidata otherdata n).run P h = .ok (.read (.ok (got, split)), h')) :
    split.frames h.stride.toNat h.info.extrachannels.toNat got =
      (h.sf.tape.step (.read n)).1.map h.decode := by
  obtain ⟨V, hV, hdecode⟩ := hr.decodes
  have hframes := (readf_presents hV.toPresents (read_answered hcall)).1
  rwa [hV.ambi, hV.extra, hdecode] at hframes

theorem session_readTape {file : SoundFile K} (hfile : disk.existing = some file)
    (hopen : ambixOpen P disk .read info = .ok (some h0)) (hrun : Session P h0 events h) :
    h.sf.tape = Tape.run (events.map tapeOp) ⟨file.frames, 0⟩ ∧ h.sf.tape.items = file.frames := by
  obtain ⟨-, -, hsf, -⟩ := ambixOpen_read_layout hfile hopen
  have h0tape : h0.sf.tape = ⟨file.frames, 0⟩ := by
    rw [hsf]
    rfl
  constructor
  · rw [← h0tape]
    exact session_tape hrun fun e he _ => session_codes hopen hrun e he
  · change h.sf.file.frames = file.frames
    rw [session_frames hopen hrun, hsf]

/-- An answered request delivers the frames of the file from where the seeks and the requests
before it have led. -/
theorem reads_tape {file : SoundFile K} (hfile : disk.existing = some file)
    (hopen : ambixOpen P disk .read info = .ok (some h0))
    {before after : List (Event (Handle K) (Call K) (Answer K))}
    {e : Event (Handle K) (Call K) (Answer K)} (hrun : Session P h0 (before ++ e :: after) h)
    {type : SampleType} {ambidata otherdata : Nat → K} {n got : Nat} {split : Split K}
    (hcall : e.call = .readf type ambidata otherdata n)
    (hanswer : e.answer = .read (.ok (got, split))) :
    (Tape.run (before.map tapeOp) ⟨file.frames, 0⟩).items = file.frames ∧
    split.frames e.state.stride.toNat e.state.info.extrachannels.toNat got =
      ((Tape.run (before.map tapeOp) ⟨file.frames, 0⟩).step (.read n)).1.map e.state.decode := by
  obtain ⟨htape, hitems⟩ := session_readTape hfile hopen hrun.before
  obtain ⟨u, hstep⟩ := hrun.event (List.mem_append_right _ List.mem_cons_self)
  rw [hcall, hanswer] at hstep
  rw [← htape]
  exact ⟨hitems, (session_readHandle hopen hrun.before).delivers_step hstep⟩

/-- The last two frames of a file, read through the full set after a seek. -/
theorem reads_tape_reduced : ∃ (h0 h1 h : Handle ℚ)
      (events : List (Event (Handle ℚ) (Call ℚ) (Answer ℚ))) (split : Split ℚ),
    ambixOpen unitPlatform (unitDisk (some reducedFile)) .read ⟨.basic, 0, 0⟩ = .ok (some h0) ∧
    Session unitPlatform h0 events h ∧ events.length = 2 ∧ h1.stride = 4 ∧
    split.frames h1.stride.toNat h1.info.extrachannels.toNat 2 =
      ((Tape.run [.seek 1] ⟨reducedFile.frames, 0⟩).step (.read 2)).1.map h1.decode := by
  obtain ⟨h0, h1, h, split, hopen, hseek, hread, hstride⟩ :
      ∃ (h0 h1 h : Handle ℚ) (split : Split ℚ),
      ambixOpen unitPlatform (unitDisk (some reducedFile)) .read ⟨.basic, 0, 0⟩ = .ok (some h0) ∧
      Call.run unitPlatform h0 (.seek (some 1)) = .ok (.position (some 1), h1) ∧
      Call.run unitPlatform h1 (.readf .float32 (fun _ => 0) (fun _ => 0) 2) =
        .ok (.read (.ok (2, split)), h) ∧ h1.stride = 4 := by
    with_unfolding_all exact ⟨_, _, _, _, rfl, rfl, rfl, rfl⟩
  have hrun : Session unitPlatform h0 ([⟨h0, .seek (some 1), .position (some 1)⟩] ++
      ⟨h1, .readf .float32 (fun _ => 0) (fun _ => 0) 2, .read (.ok (2, split))⟩ :: []) h :=
    .call (.call .start hseek) hread
  exact ⟨h0, h1, h, _, split, hopen, hrun, rfl, hstride, (reads_tape rfl hopen hrun rfl rfl).2⟩

/-! Writing. -/

theorem run_realChannels {call : Call K} {answer : Answer K}
    (hcall : call.run P h = .ok (answer, h')) : h'.realChannels = h.realChannels := by
  by_cases hset : ∃ A, call = .setAdaptormatrix A
  · obtain ⟨A, rfl⟩ := hset
    rw [← answered_state hcall]
    have hout := setAdaptormatrix_outcome h A
    change (h.setAdaptormatrix A).2.realChannels = h.realChannels
    generalize h.setAdaptormatrix A = r at hout
    cases hout with
    | refused => rfl
    | multiplied => rfl
    | fellThrough => rfl
    | encoded => rfl
    | stored => rfl
  · rw [run_layout hcall fun A hA => hset ⟨A, hA⟩]

theorem session_realChannels (hrun : Session P h0 events h) :
    h.realChannels = h0.realChannels :=
  hrun.preserves (fun h => h.realChannels = h0.realChannels) rfl
    fun _ _ _ _ hcall heq => (run_realChannels hcall).trans heq

theorem session_ready (hopen : ambixOpen P disk .write info = .ok (some h0))
    (hwrap : h0.realChannels < 2^32) (hrun : Session P h0 events h)
    (hready : h.useMatrix ≠ .matrix) : Codes h := by
  intro _
  rw [← session_realChannels hrun] at hwrap
  exact (session_writeHandle hopen hrun).shape.coder_channels hwrap hready

omit [LinearOrder K] in
theorem close_frames {res : Err} {file : SoundFile K} (hclose : h.close P = .ok (res, file)) :
    file.frames = h.sf.file.frames := by
  unfold Handle.close at hclose
  split at hclose
  · obtain ⟨⟨err, g⟩, hg, hclose⟩ := bind_eq_ok.mp hclose
    obtain ⟨chunks, asked, pending, rfl⟩ := writePending_frame hg
    rw [← answered_state hclose]
    rfl
  · rw [← answered_state hclose]

/-- An open file holds at each place what has last been written there. -/
theorem session_stored (hopen : ambixOpen P disk .write info = .ok (some h0))
    (hwrap : h0.realChannels < 2^32) (hrun : Session P h0 events h)
    (hready : ∀ e ∈ events, HandsFrames e → e.state.useMatrix ≠ .matrix)
    (hinside : Tape.Inside (events.map tapeOp) ⟨[], 0⟩) (i : Nat) :
    h.sf.file.frames[i]? = Tape.lastStored i (events.map tapeOp) ⟨[], 0⟩ := by
  have hcodes : ∀ e ∈ events, HandsFrames e → Codes e.state := by
    intro e he hhands
    have hmatrix := hready e he hhands
    obtain ⟨before, after, rfl⟩ := List.append_of_mem he
    exact session_ready hopen hwrap hrun.before hmatrix
  have h0tape : h0.sf.tape = ⟨[], 0⟩ := by
    obtain ⟨ambixinfo, wantformat, size, ha, -, rfl⟩ := ambixOpen_write hopen
    rfl
  have htape := session_tape hrun hcodes
  rw [h0tape] at htape
  have hitem := Tape.run_item (Nat.le_refl 0) hinside i
  rwa [← htape, List.getElem?_nil, Option.or_none] at hitem

/-- A closed file holds at each place what has last been written there. -/
theorem written_last (hopen : ambixOpen P disk .write info = .ok (some h0))
    (hwrap : h0.realChannels < 2^32) (hrun : Session P h0 events h)
    (hready : ∀ e ∈ events, HandsFrames e → e.state.useMatrix ≠ .matrix)
    (hinside : Tape.Inside (events.map tapeOp) ⟨[], 0⟩) {res : Err} {file : SoundFile K}
    (hclose : h.close P = .ok (res, file)) (i : Nat) :
    file.frames[i]? = Tape.lastStored i (events.map tapeOp) ⟨[], 0⟩ := by
  rw [close_frames hclose]
  exact session_stored hopen hwrap hrun hready hinside i

/-! Three frames of four channels, and two other ones written in the place of the first. -/

def overwritingEvents (h0 h1 h2 : Handle ℚ) : List (Event (Handle ℚ) (Call ℚ) (Answer ℚ)) :=
  [⟨h0, .writef .float32 (fun i => i) (fun _ => 0) 3, .written (.ok 3)⟩,
    ⟨h1, .seek (some 0), .position (some 0)⟩,
    ⟨h2, .writef .float32 (fun i => -i) (fun _ => 0) 2, .written (.ok 2)⟩]

theorem overwriting_session : ∃ (h0 h1 h2 h : Handle ℚ) (file : SoundFile ℚ),
    ambixOpen unitPlatform (unitDisk none) .write ⟨.basic, 0, 4⟩ = .ok (some h0) ∧
    Session unitPlatform h0 (overwritingEvents h0 h1 h2) h ∧
    h.close unitPlatform = .ok (.success, file) ∧ h0.realChannels = 4 ∧
    h.realinfo.fileformat = .basic ∧ h0.useMatrix = .none ∧ h2.useMatrix = .none := by
  obtain ⟨h0, h1, h2, h3, file, hopen, hfirst, hseek, hsecond, hkept⟩ :
      ∃ (h0 h1 h2 h3 : Handle ℚ) (file : SoundFile ℚ),
      ambixOpen unitPlatform (unitDisk none) .write ⟨.basic, 0, 4⟩ = .ok (some h0) ∧
      Call.run unitPlatform h0 (.writef .float32 (fun i => i) (fun _ => 0) 3) =
        .ok (.written (.ok 3), h1) ∧
      Call.run unitPlatform h1 (.seek (some 0)) = .ok (.position (some 0), h2) ∧
      Call.run unitPlatform h2 (.writef .float32 (fun i => -i) (fun _ => 0) 2) =
        .ok (.written (.ok 2), h3) ∧
      h3.close unitPlatform = .ok (.success, file) ∧ h0.realChannels = 4 ∧
      h3.realinfo.fileformat = .basic ∧ h0.useMatrix = .none ∧ h2.useMatrix = .none := by
    with_unfolding_all exact ⟨_, _, _, _, _, rfl, rfl, rfl, rfl, rfl, rfl, rfl, rfl, rfl⟩
  exact ⟨h0, h1, h2, h3, file, hopen, .call (.call (.call .start hfirst) hseek) hsecond, hkept⟩

theorem overwritingEvents_inside (h0 h1 h2 : Handle ℚ) :
    Tape.Inside ((overwritingEvents h0 h1 h2).map tapeOp) ⟨[], 0⟩ := by
  refine Tape.inside_of_start (fun position hmem => ?_) _
  obtain ⟨e, he, hop⟩ := List.mem_map.mp hmem
  have hcall := tapeOp_seek hop
  simp only [overwritingEvents, List.mem_cons, List.not_mem_nil, or_false] at he
  rcases he with rfl | rfl | rfl
  · cases hcall
  · exact (Option.some.inj (Call.seek.inj hcall)).symm
  · cases hcall

theorem written_last_overwriting : ∃ (h0 h1 h2 h : Handle ℚ) (file : SoundFile ℚ),
    ambixOpen unitPlatform (unitDisk none) .write ⟨.basic, 0, 4⟩ = .ok (some h0) ∧
    Session unitPlatform h0 (overwritingEvents h0 h1 h2) h ∧
    h.close unitPlatform = .ok (.success, file) ∧
    file.frames[0]? = Tape.lastStored 0 ((overwritingEvents h0 h1 h2).map tapeOp) ⟨[], 0⟩ := by
  obtain ⟨h0, h1, h2, h, file, hopen, hrun, hclose, hwrap, -, hready, hready'⟩ :=
    overwriting_session
  refine ⟨h0, h1, h2, h, file, hopen, hrun, hclose, written_last hopen (by rw [hwrap]; decide) hrun
    ?_ (overwritingEvents_inside h0 h1 h2) hclose 0⟩
  rintro e he ⟨⟨type, ambidata, otherdata, frames, hcall⟩, -⟩
  simp only [overwritingEvents, List.mem_cons, List.not_mem_nil, or_false] at he
  rcases he with rfl | rfl | rfl
  · rw [hready]
    decide
  · cases hcall
  · rw [hready']
    decide

end Ambix
