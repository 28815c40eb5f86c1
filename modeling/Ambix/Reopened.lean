import Ambix.FrameTape
import Ambix.HeaderMarkers
import Ambix.RoundTrip

/-! What a closed file gives back when it is opened again: the markers, the regions and the
frames that the calls on the writing handle have left. -/
namespace Ambix
open Machine
variable {K : Type} [Field K] [LinearOrder K] {P Q : Platform K} {disk disk' : Disk K}
  {info info' : Info} {h h' h0 g g0 : Handle K} {call : Call K} {answer : Answer K}
  {events before after : List (Event (Handle K) (Call K) (Answer K))}
  {e : Event (Handle K) (Call K) (Answer K)} {file : SoundFile K} {res : Err} {C : FrameCoder K}
  {A : AmbixMatrix K}

/-! Markers and regions. -/

def annotate (a : List Marker × List Region) (e : Event (Handle K) (Call K) (Answer K)) :
    List Marker × List Region :=
  match e.call, e.answer with
  | .addMarker (some marker), .err .success => (a.1 ++ [marker], a.2)
  | .addRegion (some region), .err .success => (a.1, a.2 ++ [region])
  | .deleteMarkers, .err .success => ([], a.2)
  | .deleteRegions, .err .success => (a.1, [])
  | _, _ => a

/-- The markers and regions that the calls of a run have left. -/
def annotated (events : List (Event (Handle K) (Call K) (Answer K))) : List Marker × List Region :=
  events.foldl annotate ([], [])

def Handle.annotations (h : Handle K) : List Marker × List Region := (h.markers, h.regions)

omit [LinearOrder K] in
theorem writef_annotations {type : SampleType} {ambidata otherdata : Nat → K} {frames : Nat}
    {result : Except Err Nat} (hw : h.writef P type ambidata otherdata frames = .ok (result, h')) :
    h'.annotations = h.annotations := by
  obtain ⟨err, g, hg, hcases⟩ := writef_cases hw
  obtain ⟨chunks, asked, pending, started, rfl⟩ := checkWrite_frame hg
  obtain ⟨-, -, rfl⟩ | ⟨-, size, ⟨-, -, rfl⟩ | ⟨-, -, -, -, rfl⟩⟩ := hcases
  · rfl
  · rfl
  · rfl

theorem setAdaptormatrix_annotations (A : AmbixMatrix K) :
    (h.setAdaptormatrix A).2.annotations = h.annotations := by
  have hout := setAdaptormatrix_outcome h A
  generalize h.setAdaptormatrix A = r at hout
  cases hout with
  | refused => rfl
  | multiplied => rfl
  | fellThrough => rfl
  | encoded => rfl
  | stored => rfl

omit [LinearOrder K] in
theorem addMarker_annotations (marker : Option Marker) : (h.addMarker marker).2.annotations =
    annotate h.annotations ⟨h, .addMarker marker, .err (h.addMarker marker).1⟩ := by
  unfold Handle.addMarker
  split
  · cases marker <;> rfl
  · cases marker <;> rfl

omit [LinearOrder K] in
theorem addRegion_annotations (region : Option Region) : (h.addRegion region).2.annotations =
    annotate h.annotations ⟨h, .addRegion region, .err (h.addRegion region).1⟩ := by
  unfold Handle.addRegion
  split
  · cases region <;> rfl
  · cases region <;> rfl

omit [LinearOrder K] in
theorem deleteMarkers_annotations : h.deleteMarkers.2.annotations =
    annotate h.annotations ⟨h, .deleteMarkers, .err h.deleteMarkers.1⟩ := by
  unfold Handle.deleteMarkers
  split <;> rfl

omit [LinearOrder K] in
theorem deleteRegions_annotations : h.deleteRegions.2.annotations =
    annotate h.annotations ⟨h, .deleteRegions, .err h.deleteRegions.1⟩ := by
  unfold Handle.deleteRegions
  split <;> rfl

theorem run_annotations (hcall : call.run P h = .ok (answer, h')) :
    h'.annotations = annotate h.annotations ⟨h, call, answer⟩ := by
  cases call with
  | seek position =>
    rw [← answered_state hcall]
    rfl
  | addMarker marker =>
    rw [← answered_state hcall, ← answered_answer hcall]
    exact addMarker_annotations marker
  | addRegion region =>
    rw [← answered_state hcall, ← answered_answer hcall]
    exact addRegion_annotations region
  | deleteMarkers =>
    rw [← answered_state hcall, ← answered_answer hcall]
    exact deleteMarkers_annotations
  | deleteRegions =>
    rw [← answered_state hcall, ← answered_answer hcall]
    exact deleteRegions_annotations
  | setAdaptormatrix A =>
    rw [← answered_state hcall]
    exact setAdaptormatrix_annotations A
  | readf type ambidata otherdata frames =>
    obtain ⟨⟨result, g⟩, hr, hcall⟩ := bind_eq_ok.mp hcall
    obtain ⟨hsame, -⟩ := readf_sameHeader hr
    rw [← answered_state hcall]
    exact Prod.ext hsame.markers hsame.regions
  | writef type ambidata otherdata frames =>
    obtain ⟨⟨result, g⟩, hw, hcall⟩ := bind_eq_ok.mp hcall
    rw [← answered_state hcall]
    exact writef_annotations hw

theorem session_annotated (hopen : ambixOpen P disk .write info = .ok (some h0))
    (hrun : Session P h0 events h) : h.annotations = annotated events := by
  refine hrun.invariant (fun events h => h.annotations = annotated events) ?_ ?_
  · have hj := ambixOpen_justOpened hopen
    exact Prod.ext hj.markers hj.regions
  · intro events t call answer u hcall hann
    rw [run_annotations hcall, hann, annotated, annotated, List.foldl_append]
    rfl

/-! Closing. -/

omit [LinearOrder K] in
theorem close_file (hclose : h.close P = .ok (res, file)) :
    ∃ chunks, file = { h.sf.file with chunks := chunks } := by
  unfold Handle.close at hclose
  split at hclose
  · obtain ⟨⟨err, g⟩, hg, hclose⟩ := bind_eq_ok.mp hclose
    obtain ⟨chunks, asked, pending, rfl⟩ := writePending_frame hg
    exact ⟨chunks, (answered_state hclose).symm⟩
  · exact ⟨h.sf.file.chunks, (answered_state hclose).symm⟩

theorem closed_caf (hopen : ambixOpen P disk .write info = .ok (some h0))
    (hrun : Session P h0 events h) (hclose : h.close P = .ok (res, file)) :
    file.container = .caf := by
  obtain ⟨chunks, rfl⟩ := close_file hclose
  have hsame := session_sameFile hrun
  obtain ⟨ambixinfo, wantformat, size, ha, -, rfl⟩ := ambixOpen_write hopen
  exact hsame.container

/-- Closing leaves chunks that describe what the handle holds. -/
theorem closed_describes (hopen : ambixOpen P disk .write info = .ok (some h0))
    (hok : ∀ k, disk.chunkOk k = true) (hrun : Session P h0 events h)
    (hmem : ∀ e ∈ events, BringsAddressable e) (htime : ∀ e ∈ events, InTime e)
    (hcount : Countable h) (hclose : h.close P = .ok (res, file)) :
    Describes file.order file.chunks h.markers h.regions := by
  have hw := session_writes hopen hok hrun hmem
  cases (close_working hw hclose).2 with
  | inl hkept =>
    have hf := session_follows hopen hok hrun hmem htime
    rw [show file = h.sf.file from hkept.2]
    exact hf hkept.1
  | inr hnew =>
    obtain ⟨-, horder, writes, hof, hchunks⟩ := hnew
    dsimp only at horder hchunks
    rw [horder, hchunks]
    exact hof.describes hw.toHeaderWriter hcount

/-! Reopening. -/

omit [LinearOrder K] in
theorem backendOpen_caf (hfile : disk.existing = some file) (hcaf : file.container = .caf)
    {err : Err} (hread : readUuidchunk Q (decide (Q.host ≠ file.order))
      (chunksOf .uuid file.chunks) matrixNull = (err, A)) (channels : UInt32) :
    backendOpen Q disk .read channels = .ok (some ⟨⟨file, .read, 0, disk.chunkOk, 0⟩, true,
      if err = .success then .extended else .basic, decide (Q.host ≠ file.order), A⟩) := by
  simp only [backendOpen, sfOpen, hfile, Option.map_some, hcaf, hread]

omit [LinearOrder K] in
/-- A file whose chunks describe markers and regions can be opened, and the handle holds them. -/
theorem ambixOpen_describes {markers : List Marker} {regions : List Region}
    (hgrants : ∀ size, Q.grants size = true) (hfile : disk.existing = some file)
    (hcaf : file.container = .caf) (hdesc : Describes file.order file.chunks markers regions)
    (info : Info) : ∃ g, ambixOpen Q disk .read info = .ok (some g) ∧
      g.annotations = (markers, regions) := by
  have hback := backendOpen_caf (Q := Q) hfile hcaf rfl (info.ambichannels+info.extrachannels)
  have hread := hdesc Q.host (file.chunks.length+1) (Nat.lt_succ_self _)
  refine ⟨_, ambixOpen_eq_some.mpr ⟨info, info.fileformat, _, markers, regions, rfl, hback, hread,
    Prod.ext ?_ rfl⟩, rfl⟩
  exact adaptorbufferResize_granted hgrants _ _ defaultAdaptorbufferSize 4 0 (by decide)
    (by decide) (by decide)

/-- A file opened again, on any host, gives back the markers and regions that the calls on the
writing handle have left. -/
theorem annotations_kept (hopen : ambixOpen P disk .write info = .ok (some h0))
    (hok : ∀ k, disk.chunkOk k = true) (hrun : Session P h0 events h)
    (hmem : ∀ e ∈ events, ∀ A, e.call = .setAdaptormatrix A → Addressable A)
    (htime : ∀ e ∈ events, InTime e)
    (hcount : (annotated events).1.length+(annotated events).2.length < 2^32)
    (hclose : h.close P = .ok (res, file)) (hgrants : ∀ size, Q.grants size = true)
    (hfile : disk'.existing = some file) : ∃ g, ambixOpen Q disk' .read info' = .ok (some g) ∧
      (g.markers, g.regions) = annotated events := by
  have hann := session_annotated hopen hrun
  rw [← hann] at hcount ⊢
  have hdesc := closed_describes hopen hok hrun hmem htime hcount hclose
  exact ambixOpen_describes hgrants hfile (closed_caf hopen hrun hclose) hdesc info'

/-- One marker and one frame, on hosts of either byte order. -/
theorem annotations_kept_marked : ∃ (h0 h g : Handle ℚ) (file : SoundFile ℚ)
      (events : List (Event (Handle ℚ) (Call ℚ) (Answer ℚ))),
    ambixOpen unitPlatform (unitDisk none) .write ⟨.basic, 0, 1⟩ = .ok (some h0) ∧
    Session unitPlatform h0 events h ∧ h.close unitPlatform = .ok (.success, file) ∧
    annotated events = ([oneMarker], []) ∧
    ambixOpen { unitPlatform with host := .big } (.holding file) .read ⟨.basic, 0, 0⟩ =
      .ok (some g) ∧
    (g.markers, g.regions) = annotated events := by
  obtain ⟨h0, hopen, hreal, hraw, hcounted⟩ := unitDisk_basic
  obtain ⟨h1, h2, k, hadd, hwrite, hmarkers, hregions, -⟩ :=
    marked_session hopen hreal hraw hcounted
  have hrun : Session unitPlatform h0 (markedEvents h0 h1 k) h2 := .call (.call .start hadd) hwrite
  have htime := markedEvents_inTime h0 k hmarkers hregions
  have hmem (e) (he : e ∈ markedEvents h0 h1 k) := (htime e he).1
  have hstarted : h2.startedWriting = true :=
    ((session_handedOnce hopen (fun _ => rfl) hrun hmem).written _
      (List.mem_cons_of_mem _ List.mem_cons_self) ⟨⟨_, _, _, _, rfl⟩, k, rfl⟩).1
  have hclose := (session_writes hopen (fun _ => rfl) hrun hmem).close_started hstarted
  have hann : annotated (markedEvents h0 h1 k) = ([oneMarker], []) := rfl
  obtain ⟨g, hreopen, hheld⟩ : ∃ g,
      ambixOpen { unitPlatform with host := .big } (.holding h2.sf.file) .read ⟨.basic, 0, 0⟩ =
        .ok (some g) ∧ (g.markers, g.regions) = annotated (markedEvents h0 h1 k) :=
    annotations_kept hopen (fun _ => rfl) hrun hmem (fun e he => (htime e he).2)
      (by rw [hann]; decide) hclose (fun _ => rfl) rfl
  exact ⟨h0, h2, g, _, _, hopen, hrun, hclose, hann, hreopen, hheld⟩

/-! Frames. -/

/-- What an answered call on a writing handle does, in frames of the caller. -/
def sentOp (C : FrameCoder K) (e : Event (Handle K) (Call K) (Answer K)) : Tape.Op (Frame K) :=
  match e.call, e.answer with
  | .seek (some position), _ => .seek position
  | .writef type ambidata otherdata frames, .written (.ok _) =>
    .write ((⟨type, ambidata, otherdata, frames⟩ : Transfer K).sent C.ambi C.extra)
  | _, _ => .rest

def FrameCoder.encoded (C : FrameCoder K) (f : Frame K) : List K := C.encode f.1 f.2

omit [LinearOrder K] in
theorem tapeOp_sent (hmode : e.state.sf.mode = .write)
    (hcoder : HandsFrames e → e.state.coder = C) : tapeOp e = (sentOp C e).map C.encoded := by
  obtain ⟨t, call, answer⟩ := e
  cases call with
  | seek position => cases position <;> rfl
  | addMarker marker => rfl
  | addRegion region => rfl
  | deleteMarkers => rfl
  | deleteRegions => rfl
  | setAdaptormatrix A => rfl
  | readf type ambidata otherdata frames =>
    cases answer with
    | read result =>
      cases result with
      | error err => rfl
      | ok r =>
        have hno : ¬ t.sf.mode.canRead = true := by
          rw [show t.sf.mode = .write from hmode]
          decide
        exact if_neg hno
    | position answer => rfl
    | err err => rfl
    | written result => rfl
  | writef type ambidata otherdata frames =>
    cases answer with
    | written result =>
      cases result with
      | error err => rfl
      | ok k =>
        have hwrites : t.sf.mode.canWrite = true := by
          rw [show t.sf.mode = .write from hmode]
          rfl
        have hc : t.coder = C := hcoder ⟨⟨type, ambidata, otherdata, frames, rfl⟩, k, rfl⟩
        refine (if_pos hwrites).trans ?_
        rw [Layout.coded, hc]
        rfl
    | position answer => rfl
    | err err => rfl
    | read result => rfl

omit [LinearOrder K] in
theorem stored_sent {i : Nat} {f : Frame K}
    (hf : Tape.lastStored i (events.map (sentOp C)) ⟨[], 0⟩ = some f) :
    ∃ e ∈ events, ∃ t : Transfer K, e.call = .writef t.type t.ambidata t.otherdata t.frames ∧
      f ∈ t.sent C.ambi C.extra := by
  obtain ⟨items, hmem, hf⟩ := Tape.lastStored_mem hf
  obtain ⟨e, hevent, he⟩ := List.mem_map.mp hmem
  unfold sentOp at he
  split at he
  · cases he
  · rename_i hcall _
    obtain rfl := Tape.Op.write.inj he
    exact ⟨e, hevent, _, hcall, hf⟩
  · cases he

omit [LinearOrder K] in
theorem stored_width {i : Nat} {f : Frame K}
    (hf : Tape.lastStored i (events.map (sentOp C)) ⟨[], 0⟩ = some f) :
    f.1.length = C.ambi ∧ f.2.length = C.extra := by
  obtain ⟨e, -, t, -, hf⟩ := stored_sent hf
  exact sent_width hf

theorem session_layouts (hopen : ambixOpen P disk .write info = .ok (some h0))
    (hok : ∀ k, disk.chunkOk k = true) (hrun : Session P h0 events h)
    (hmem : ∀ e ∈ events, BringsAddressable e) :
    ∀ e ∈ events, HandsFrames e → e.state.toLayout = h.toLayout :=
  fun e he hframes => ((session_handedOnce hopen hok hrun hmem).written e he hframes).2.symm

/-- An open file holds, coded, the frames that were sent last. -/
theorem session_sent (hopen : ambixOpen P disk .write info = .ok (some h0))
    (hok : ∀ k, disk.chunkOk k = true) (hrun : Session P h0 events h)
    (hmem : ∀ e ∈ events, BringsAddressable e) (hwrap : h.realChannels < 2^32)
    (hready : h.useMatrix ≠ .matrix) (hinside : Tape.Inside (events.map tapeOp) ⟨[], 0⟩) (i : Nat) :
    h.sf.file.frames[i]? =
      (Tape.lastStored i (events.map (sentOp h.coder)) ⟨[], 0⟩).map h.coder.encoded := by
  have hlayouts := session_layouts hopen hok hrun hmem
  rw [session_realChannels hrun] at hwrap
  rw [session_stored hopen hwrap hrun (fun e he hframes => by rwa [hlayouts e he hframes])
      hinside i,
    ← Tape.lastStored_map, List.map_map]
  congr 1
  refine List.map_congr_left fun e he => tapeOp_sent ?_ fun hframes => ?_
  · obtain ⟨before, after, rfl⟩ := List.append_of_mem he
    exact (session_writeHandle hopen hrun.before).mode
  · rw [hlayouts e he hframes]

theorem delivered_frame (hfile : disk.existing = some file)
    (hopen : ambixOpen Q disk .read info = .ok (some g0))
    (hrun : Session Q g0 (before ++ e :: after) g)
    {type : SampleType} {ambidata otherdata : Nat → K} {n got k : Nat} {split : Split K}
    (hcall : e.call = .readf type ambidata otherdata n)
    (hanswer : e.answer = .read (.ok (got, split))) (hk : k < n) :
    (split.frames e.state.stride.toNat e.state.info.extrachannels.toNat got)[k]? =
      (file.frames[(Tape.run (before.map tapeOp) ⟨file.frames, 0⟩).position+k]?).map
        e.state.decode := by
  obtain ⟨htape, hitems⟩ := session_readTape hfile hopen hrun.before
  obtain ⟨u, hstep⟩ := hrun.event (List.mem_append_right _ List.mem_cons_self)
  rw [hcall, hanswer] at hstep
  rw [(session_readHandle hopen hrun.before).delivers_step hstep, ← htape, List.getElem?_map,
    Tape.step, hitems]
  dsimp only
  rw [List.getElem?_take_of_lt hk, List.getElem?_drop]

/-- A read request before which no adaptor is set. -/
structure PlainRead (before : List (Event (Handle K) (Call K) (Answer K)))
    (e : Event (Handle K) (Call K) (Answer K)) (n got : Nat) (split : Split K) : Prop where
  plain : ∀ e' ∈ before, ∀ A, e'.call ≠ .setAdaptormatrix A
  call : ∃ type ambidata otherdata, e.call = .readf type ambidata otherdata n
  answer : e.answer = .read (.ok (got, split))

/-- Whatever is read from a file, in whatever order and in whatever format, is what `stored`
tells of the frames, seen as `view` shows them in that format. -/
def GivesBack (Q : Platform K) (file : SoundFile K) (view : FileFormat → Frame K → Frame K)
    (stored : Nat → Option (Frame K)) : Prop :=
  ∀ (disk : Disk K) (info : Info) (g0 g : Handle K)
    (before after : List (Event (Handle K) (Call K) (Answer K)))
    (e : Event (Handle K) (Call K) (Answer K)) (n got : Nat) (split : Split K),
    disk.existing = some file → ambixOpen Q disk .read info = .ok (some g0) →
    Session Q g0 (before ++ e :: after) g → PlainRead before e n got split → ∀ k < n,
      (split.frames e.state.stride.toNat e.state.info.extrachannels.toNat got)[k]? =
        (stored ((Tape.run (before.map tapeOp) ⟨file.frames, 0⟩).position+k)).map
          (view info.fileformat)

theorem session_plain (hrun : Session P h0 events h)
    (hplain : ∀ e ∈ events, ∀ A, e.call ≠ .setAdaptormatrix A) : h.toLayout = h0.toLayout :=
  hrun.invariant_of (fun e => ∀ A, e.call ≠ .setAdaptormatrix A)
    (fun _ h => h.toLayout = h0.toLayout) hplain rfl
    fun _ _ _ _ _ hcall hno heq => (run_layout hcall hno).trans heq

theorem givesBack_of {view : FileFormat → Frame K → Frame K} {stored : Nat → Option (Frame K)}
    (hframes : ∀ i, file.frames[i]? = (stored i).map C.encoded)
    (hview : ∀ (disk : Disk K) (info : Info) (g0 : Handle K), disk.existing = some file →
      ambixOpen Q disk .read info = .ok (some g0) → ∀ i f, stored i = some f →
        g0.decode (C.encoded f) = view info.fileformat f) : GivesBack Q file view stored := by
  intro disk info g0 g before after e n got split hfile hopen hrun hread k hk
  obtain ⟨type, ambidata, otherdata, hcall⟩ := hread.call
  rw [delivered_frame hfile hopen hrun hcall hread.answer hk, hframes, Option.map_map,
    session_plain hrun.before hread.plain]
  refine Option.map_congr fun f hf => ?_
  exact hview disk info g0 hfile hopen _ f hf

end Ambix
