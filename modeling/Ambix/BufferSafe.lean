import Ambix.HeaderStep

/-! The adaptor buffer: transfers fill and take whole frames of the file, inside it. -/
namespace Ambix
open Machine

/-! Transfers. -/

section transfers
variable {K : Type} [Field K] {P : Platform K} {h h' : Handle K} {t : Transfer K}

/-- An answered read request from `h` to `h'`: the frames asked for fit the buffer, the
samples taken from it have been delivered, and whole frames are stored. -/
structure ReadsInside (h h' : Handle K) (t : Transfer K) (got : Nat) (split : Split K) : Prop where
  asked : t.frames*h.sf.file.channels.toNat*t.type.size.toNat ≤ h'.adaptorbuffersize.toNat
  delivered : got ≤ t.frames
  source : ∀ buffer : Nat → K,
    (∀ i < got*h.sf.file.channels.toNat, buffer i = h'.adaptorbuffer i) →
      h.split buffer t.ambidata t.otherdata got = split
  ambi : split.ambi.count = got*h.stride.toNat
  other : split.other.count = got*h.info.extrachannels.toNat

/-- An answered write request: what is handed to the backend has been stored just
before, frame by frame and inside the buffer. -/
structure WritesInside (h h' : Handle K) (t : Transfer K) : Prop where
  handed : h'.adaptorbuffer =
    (h.merge t.ambidata t.otherdata h.adaptorbuffer t.frames).data
  stored : (h.merge t.ambidata t.otherdata h.adaptorbuffer t.frames).count =
    t.frames*h.sf.file.channels.toNat
  room : t.frames*h.sf.file.channels.toNat*t.type.size.toNat ≤ h'.adaptorbuffersize.toNat

theorem room_of_resize {l : Layout K} {channels : UInt32} {size size' : UInt64}
    (hs : Shaped l channels) (hpos : 0 < channels.toNat)
    (hres : adaptorbufferResize P.grants l.info l.realinfo (UInt64.ofNat t.frames) t.type.size
      size = (.success, size'))
    (hwrap : l.bufferChannels < 2^32) (hframes : 1 ≤ t.frames)
    (hbytes : t.frames*l.bufferChannels*t.type.size.toNat < 2^64) :
    t.frames*channels.toNat*t.type.size.toNat ≤ size'.toNat := by
  have hle := source_covered hs.source
  obtain ⟨h1, -⟩ := t.type.size_bounds
  have hlt : t.frames < 2^64 := by
    calc
      t.frames = t.frames*1*1 := by rw [Nat.mul_one, Nat.mul_one]
      _ ≤ t.frames*l.bufferChannels*t.type.size.toNat := by
        gcongr
        omega
      _ < 2^64 := hbytes
  have hofNat : (UInt64.ofNat t.frames).toNat = t.frames := by
    rw [UInt64.toNat_ofNat', Nat.mod_eq_of_lt hlt]
  have hroom := adaptorbufferResize_room hres hwrap (by omega) (by rw [hofNat]; exact hframes)
    (by rw [hofNat, Layout.bytes, Nat.mul_comm l.bufferChannels]; exact hbytes)
  rw [hofNat, Layout.bytes, Nat.mul_comm l.bufferChannels] at hroom
  calc
    t.frames*channels.toNat*t.type.size.toNat ≤ t.frames*l.bufferChannels*t.type.size.toNat := by
      gcongr
    _ ≤ size'.toNat := hroom

theorem readf_inside (hr : ReadHandle h) (hwrap : h.bufferChannels < 2^32) (hframes : 1 ≤ t.frames)
    (hbytes : t.frames*h.bufferChannels*t.type.size.toNat < 2^64) {got : Nat} {split : Split K}
    (hread : h.readf P t.type t.ambidata t.otherdata t.frames = .ok (.ok (got, split), h')) :
    ReadsInside h h' t got split := by
  obtain ⟨size, hres, hgot, hsplit, rfl⟩ := readf_ok hread
  obtain ⟨V, hV⟩ := hr.delivers
  have hle : got ≤ t.frames := by
    rw [hgot, sfReadf_reads hr.reads, List.length_take]
    exact Nat.min_le_left _ _
  rw [hV.split] at hsplit
  have hwidth : ∀ fr ∈ framesOf (sfReadf h.sf h.adaptorbuffer t.frames).2.1 V.channels got,
      fr.length = V.channels := framesOf_width
  have hcounts := V.split_counts t.ambidata t.otherdata hwidth
  rw [← hsplit, framesOf_length, hV.ambi, hV.extra] at hcounts
  refine ⟨room_of_resize hr.shape.toShaped h.sf.file.channels_pos hres hwrap hframes hbytes, hle,
    fun buffer hbuffer => ?_, hcounts.1, hcounts.2⟩
  rw [hV.channels] at hbuffer
  rw [hV.split, hsplit, framesOf_congr hbuffer]

theorem writef_inside (hw : WriteHandle h) (hready : h.useMatrix ≠ .matrix)
    (hwrap : h.bufferChannels < 2^32) (hframes : 1 ≤ t.frames)
    (hbytes : t.frames*h.bufferChannels*t.type.size.toNat < 2^64) {k : Nat}
    (hwrite : h.writef P t.type t.ambidata t.otherdata t.frames = .ok (.ok k, h')) :
    WritesInside h h' t := by
  obtain ⟨g, size, hcheck, hres, rfl⟩ := writef_ok hwrite
  obtain ⟨chunks, asked, pending, started, rfl⟩ := checkWrite_frame hcheck
  refine ⟨rfl, ?_, room_of_resize hw.shape.toShaped h.sf.file.channels_pos hres hwrap hframes
    hbytes⟩
  rw [takes_coder h.toLayout t h.adaptorbuffer, putAll_count _ code_width, code_sent_length,
    hw.shape.coder_channels (lt_of_le_of_lt h.realChannels_le hwrap) hready]

/-! Requests come back. -/

theorem readf_returns (hr : ReadHandle h) (hwrap : h.bufferChannels < 2^32) (hframes : 1 ≤ t.frames)
    (hbytes : t.frames*h.bufferChannels*t.type.size.toNat < 2^64) :
    ∃ result h', h.readf P t.type t.ambidata t.otherdata t.frames = .ok (result, h') := by
  unfold Handle.readf Handle.checkRead Handle.resize
  dsimp only
  rw [if_neg (by decide)]
  split
  · exact ⟨_, _, rfl⟩
  · rename_i hsucc
    rw [touch_ok (room_of_resize hr.shape.toShaped h.sf.file.channels_pos
      (Prod.ext (not_not.mp hsucc) rfl) hwrap hframes hbytes), ok_bind]
    exact ⟨_, _, rfl⟩

theorem writef_returns (hw : WriteHandle h) (hready : h.useMatrix ≠ .matrix)
    (hwrap : h.bufferChannels < 2^32) (hframes : 1 ≤ t.frames)
    (hbytes : t.frames*h.bufferChannels*t.type.size.toNat < 2^64)
    {r : Err × Handle K} (hcheck : h.checkWrite P = .ok r) :
    ∃ result h', h.writef P t.type t.ambidata t.otherdata t.frames = .ok (result, h') := by
  obtain ⟨err, g⟩ := r
  rw [Handle.writef, hcheck, ok_bind]
  obtain ⟨chunks, asked, pending, started, rfl⟩ := checkWrite_frame hcheck
  unfold Handle.resize
  dsimp only
  split
  · exact ⟨_, _, rfl⟩
  split
  · exact ⟨_, _, rfl⟩
  · rename_i hsucc
    have hroom := room_of_resize hw.shape.toShaped h.sf.file.channels_pos
      (Prod.ext (not_not.mp hsucc) rfl) hwrap hframes hbytes
    have hcount : (h.merge t.ambidata t.otherdata h.adaptorbuffer t.frames).count =
        t.frames*h.sf.file.channels.toNat := by
      rw [takes_coder h.toLayout t h.adaptorbuffer, putAll_count _ code_width, code_sent_length,
        hw.shape.coder_channels (lt_of_le_of_lt h.realChannels_le hwrap) hready]
    rw [touch_ok (by rw [hcount]; exact hroom), ok_bind, touch_ok hroom, ok_bind]
    exact ⟨_, _, rfl⟩

/-- A read request comes back, and has stayed inside when it is answered. -/
def ReadsSafe (P : Platform K) (h : Handle K) (t : Transfer K) : Prop := ∃ result h',
  h.readf P t.type t.ambidata t.otherdata t.frames = .ok (result, h') ∧
  ∀ got split, result = .ok (got, split) → ReadsInside h h' t got split

def WritesSafe (P : Platform K) (h : Handle K) (t : Transfer K) : Prop := ∃ result h',
  h.writef P t.type t.ambidata t.otherdata t.frames = .ok (result, h') ∧
  ∀ k, result = .ok k → WritesInside h h' t

/-- The header that is still to come can be made: the rows of its matrix can be reached. -/
def Handle.Headable (h : Handle K) : Prop :=
  h.pendingHeaders = true → h.realinfo.fileformat = .extended → h.matrix.Columned

/-! Runs that set matrices and move samples. -/

/-- `ambix_set_adaptormatrix`, `ambix_readf` and `ambix_writef`. -/
def Call.Moves : Call K → Prop
  | .setAdaptormatrix _ | .readf .. | .writef .. => True
  | _ => False

/-- Nothing but a matrix goes into the header, and that has full-set rows. -/
structure Unmarked (P : Platform K) (h : Handle K) : Prop where
  markers : h.markers = []
  regions : h.regions = []
  swap : h.byteswap = decide (P.host ≠ h.sf.file.order)
  full : isFullset h.matrix.rows = true

theorem checkWrite_markers {res : Err} (hc : h.checkWrite P = .ok (res, h')) :
    h'.markers = h.markers ∧ h'.regions = h.regions := by
  obtain ⟨chunks, asked, pending, started, rfl⟩ := checkWrite_frame hc
  exact ⟨rfl, rfl⟩

theorem writef_markers {type : SampleType} {ambidata otherdata : Nat → K} {frames : Nat}
    {result : Except Err Nat} (hw : h.writef P type ambidata otherdata frames = .ok (result, h')) :
    h'.markers = h.markers ∧ h'.regions = h.regions := by
  obtain ⟨err, g, hcheck, hcases⟩ := writef_cases hw
  have hkept := checkWrite_markers hcheck
  obtain ⟨-, -, rfl⟩ | ⟨-, size, ⟨-, -, rfl⟩ | ⟨-, -, -, -, rfl⟩⟩ := hcases
  · exact hkept
  · exact hkept
  · exact hkept

theorem Unmarked.of_same (hu : Unmarked P h) (hlayout : h'.toLayout = h.toLayout)
    (hmarkers : h'.markers = h.markers ∧ h'.regions = h.regions) (hsame : SameFile h h') :
    Unmarked P h' := by
  refine ⟨hmarkers.1.trans hu.markers, hmarkers.2.trans hu.regions, ?_, ?_⟩
  · rw [hsame.byteswap, hsame.order]
    exact hu.swap
  · rw [hlayout]
    exact hu.full

theorem Unmarked.set [LinearOrder K] (hu : Unmarked P h) (hmode : h.filemode = .write)
    (A : AmbixMatrix K) : Unmarked P (h.setAdaptormatrix A).2 := by
  have hout := setAdaptormatrix_outcome h A
  have hnoread : ¬ h.filemode.canRead = true := by
    rw [hmode]
    decide
  generalize h.setAdaptormatrix A = r at hout
  cases hout with
  | refused => exact hu
  | multiplied hread => exact absurd hread hnoread
  | fellThrough hread => exact absurd hread hnoread
  | encoded hread hwrite hinfo hfull => exact ⟨hu.markers, hu.regions, hu.swap, hfull⟩
  | stored hwrite hinfo hfull => exact ⟨hu.markers, hu.regions, hu.swap, hfull⟩

theorem unmarked_run [LinearOrder K] {call : Call K} {answer : Answer K}
    (hmode : h.filemode = .write) (hu : Unmarked P h) (hmoves : call.Moves)
    (hcall : call.run P h = .ok (answer, h')) :
    Unmarked P h' := by
  have hsame := run_sameFile hcall
  cases call with
  | setAdaptormatrix A =>
    rw [← answered_state hcall]
    exact hu.set hmode A
  | readf type ambidata otherdata frames =>
    obtain ⟨⟨result, g⟩, hg, hcall⟩ := bind_eq_ok.mp hcall
    obtain rfl := answered_state hcall
    obtain ⟨hheader, -⟩ := readf_sameHeader hg
    exact hu.of_same hheader.layout ⟨hheader.markers, hheader.regions⟩ hsame
  | writef type ambidata otherdata frames =>
    obtain ⟨⟨result, g⟩, hg, hcall⟩ := bind_eq_ok.mp hcall
    obtain rfl := answered_state hcall
    exact hu.of_same (writef_layout hg) (writef_markers hg) hsame
  | seek => exact hmoves.elim
  | addMarker => exact hmoves.elim
  | addRegion => exact hmoves.elim
  | deleteMarkers => exact hmoves.elim
  | deleteRegions => exact hmoves.elim

theorem ambixOpen_unmarked {disk : Disk K} {info : Info}
    (hopen : ambixOpen P disk .write info = .ok (some h)) : Unmarked P h := by
  obtain ⟨ambixinfo, wantformat, size, ha, hformats, rfl⟩ := ambixOpen_write hopen
  have hzero : isFullset 0 = true := by decide +kernel
  refine ⟨rfl, rfl, rfl, ?_⟩
  change isFullset ((freshLayout .write ambixinfo (created P disk _ ha)).present
    wantformat).matrix.rows = true
  obtain ⟨-, hreal, hp⟩ | ⟨rfl, hreal, -⟩ | ⟨-, -, hp⟩ :=
    present_cases wantformat (freshLayout .write ambixinfo (created P disk _ ha))
  · rw [hp]
    exact hzero
  · exact absurd hreal (openedRealinfo_write rfl (openFormats_extended hformats))
  · rw [hp]
    exact hzero

theorem session_unmarked [LinearOrder K] {disk : Disk K} {info : Info} {h0 : Handle K}
    {events : List (Event (Handle K) (Call K) (Answer K))}
    (hopen : ambixOpen P disk .write info = .ok (some h0)) (hrun : Session P h0 events h)
    (hmoves : ∀ e ∈ events, e.call.Moves) : Unmarked P h := by
  obtain ⟨hfilemode, hmode, hshape⟩ := ambixOpen_write_shape hopen
  refine (hrun.invariant_of (fun e => e.call.Moves) (fun _ h => WriteHandle h ∧ Unmarked P h) hmoves
    ⟨⟨hfilemode, hmode, hshape⟩, ?_⟩ ?_).2
  · exact ambixOpen_unmarked hopen
  · rintro events h call answer h' hcall hmove ⟨hw, hu⟩
    exact ⟨writeHandle_run hw hcall, unmarked_run hw.filemode hu hmove hcall⟩

/-- A check comes back exactly when the header can be made. -/
theorem checkWrite_returns_iff (hw : WriteHandle h) (hu : Unmarked P h)
    (hsize : 24+4*(h.matrix.rows.toNat*h.matrix.cols.toNat) < 2^64) :
    (∃ r, h.checkWrite P = .ok r) ↔ h.Headable := by
  have hmode : h.filemode.canWrite = true := by
    rw [hw.filemode]
    rfl
  rw [Handle.checkWrite, if_neg fun hno => hno.2 hu.full, Handle.writePending, Handle.Headable]
  by_cases hpending : h.pendingHeaders = true
  swap
  · rw [if_neg hpending]
    exact ⟨fun _ hp => absurd hp hpending, fun _ => ⟨_, rfl⟩⟩
  rw [if_pos hpending]
  constructor
  · rintro ⟨r, hr⟩ - hreal
    obtain ⟨s, hs, -⟩ := bind_eq_ok.mp hr
    exact writeHeader_columned hs hmode hreal hsize
  · intro hhead
    have hnone : markersregionsChunks P.host h.byteswap h.markers h.regions = .ok [] := by
      rw [hu.markers, hu.regions]
      rfl
    rw [writeHeader_eq hmode hnone (by simp) (hhead hpending) hsize hu.swap, ok_bind]
    dsimp only
    split <;> exact ⟨_, rfl⟩

/-- Every transfer on a handle that can be reached comes back and stays inside the buffer, on
EXTENDED files once a matrix has been accepted, and if its header can be made. -/
theorem transfersInside [LinearOrder K] {disk : Disk K} {mode : FileMode} {info : Info}
    {h0 : Handle K} {events : List (Event (Handle K) (Call K) (Answer K))}
    (hopen : ambixOpen P disk mode info = .ok (some h0)) (hrun : Session P h0 events h)
    (hmoves : ∀ e ∈ events, e.call.Moves)
    (haccepted : mode = .write → h.realinfo.fileformat = .extended → Accepted events)
    (hwrap : h.bufferChannels < 2^32) (hframes : 1 ≤ t.frames)
    (hbytes : t.frames*h.bufferChannels*t.type.size.toNat < 2^64) :
    (mode = .read → ReadsSafe P h t) ∧
    (mode = .write → 24+4*(h.matrix.rows.toNat*h.matrix.cols.toNat) < 2^64 →
      (WritesSafe P h t ↔ h.Headable)) := by
  constructor
  · rintro rfl
    have hr := session_readHandle hopen hrun
    obtain ⟨result, h', hread⟩ := readf_returns (P := P) hr hwrap hframes hbytes
    refine ⟨result, h', hread, ?_⟩
    rintro got split rfl
    exact readf_inside hr hwrap hframes hbytes hread
  · rintro rfl hsize
    have hw := session_writeHandle hopen hrun
    have hready : h.useMatrix ≠ .matrix := fun hmatrix =>
      encoder_of_accepted hopen hrun (haccepted rfl (hw.shape.unset hmatrix).2) hmatrix
    rw [← checkWrite_returns_iff hw (session_unmarked hopen hrun hmoves) hsize]
    constructor
    · rintro ⟨result, h', hwrite, -⟩
      obtain ⟨r, hcheck, -⟩ := bind_eq_ok.mp hwrite
      exact ⟨r, hcheck⟩
    · rintro ⟨r, hcheck⟩
      obtain ⟨result, h', hwrite⟩ := writef_returns hw hready hwrap hframes hbytes hcheck
      refine ⟨result, h', hwrite, ?_⟩
      rintro k rfl
      exact writef_inside hw hready hwrap hframes hbytes hwrite

end transfers

/-- Three frames of two ambisonics channels and an extra one: read through the full set, and
written with a 4 by 2 matrix. -/
theorem transfersInside_reduced :
    (∃ h0 : Handle ℚ,
      ambixOpen unitPlatform (unitDisk (some reducedFile)) .read ⟨.basic, 0, 0⟩ = .ok (some h0) ∧
      h0.stride = 4 ∧ h0.info.extrachannels = 1 ∧
      ReadsSafe unitPlatform h0 ⟨.float32, fun _ => 0, fun _ => 0, 3⟩) ∧
    ∃ h0 h : Handle ℚ,
      ambixOpen unitPlatform (unitDisk none) .write ⟨.extended, 1, 2⟩ = .ok (some h0) ∧
      h0.setAdaptormatrix swapMatrix = (.success, h) ∧ h.pendingHeaders = true ∧
      WritesSafe unitPlatform h ⟨.float32, fun i => i, fun i => -i, 3⟩ := by
  constructor
  · obtain ⟨h0, hopen, hstride, hextra, hroom⟩ : ∃ h0 : Handle ℚ,
        ambixOpen unitPlatform (unitDisk (some reducedFile)) .read ⟨.basic, 0, 0⟩ =
          .ok (some h0) ∧
        h0.stride = 4 ∧ h0.info.extrachannels = 1 ∧ h0.bufferChannels = 5 := by
      with_unfolding_all exact ⟨_, rfl, rfl, rfl, rfl⟩
    exact ⟨h0, hopen, hstride, hextra, (transfersInside hopen .start (fun e he => by cases he)
      (fun h => by cases h) (by rw [hroom]; decide) (by decide) (by rw [hroom]; decide)).1 rfl⟩
  · obtain ⟨h0, h, hopen, hset, hroom, hrows, hcols, hpending⟩ : ∃ h0 h : Handle ℚ,
        ambixOpen unitPlatform (unitDisk none) .write ⟨.extended, 1, 2⟩ = .ok (some h0) ∧
        h0.setAdaptormatrix swapMatrix = (.success, h) ∧ h.bufferChannels = 3 ∧
        h.matrix.rows = 4 ∧ h.matrix.cols = 2 ∧ h.pendingHeaders = true := by
      with_unfolding_all exact ⟨_, _, rfl, rfl, rfl, rfl, rfl, rfl⟩
    have hcall : Call.run unitPlatform h0 (.setAdaptormatrix swapMatrix) =
        .ok (.err .success, h) := by
      rw [Call.run, hset]
    refine ⟨h0, h, hopen, hset, hpending, ((transfersInside hopen (.call .start hcall)
      (fun e he => ?_) (fun _ _ => accepted_append) (by rw [hroom]; decide) (by decide)
      (by rw [hroom]; decide)).2 rfl (by rw [hrows, hcols]; decide)).mpr fun _ _ _ => ?_⟩
    · rw [List.mem_singleton.mp he]
      trivial
    · rw [hcols]
      decide

/-- A 1 by 0 matrix is accepted, and the first frames are not written. -/
theorem transfersInside_fails : ∃ h0 h : Handle ℚ,
    ambixOpen unitPlatform (unitDisk none) .write ⟨.extended, 1, 2⟩ = .ok (some h0) ∧
    h0.setAdaptormatrix (unitMatrix 1 0) = (.success, h) ∧
    h.writef unitPlatform .float32 (fun i => i) (fun i => -i) 3 = .error (.outside 0 0) :=
  ⟨_, _, rfl, rfl, rfl⟩

end Ambix
