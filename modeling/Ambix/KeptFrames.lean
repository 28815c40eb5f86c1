import Ambix.Reopened

/-! The frames of a closed file by its format: a BASIC file gives back what was sent, an
EXTENDED file what its matrix and the encoder make of it. -/
namespace Ambix
open Machine
variable {K : Type} [Field K] [LinearOrder K] {P Q : Platform K} {disk : Disk K}
  {info : Info} {h h' h0 g0 : Handle K} {call : Call K} {answer : Answer K}
  {events : List (Event (Handle K) (Call K) (Answer K))} {file : SoundFile K} {res : Err}
  {A : AmbixMatrix K}

/-! What a reading handle finds. -/

section reading
omit [LinearOrder K]

theorem basicLayout_decode (M : AmbixMatrix K) (channels : UInt32) (format : FileFormat)
    (fr : List K) : ((basicLayout M channels).present format).decode fr =
      (fr.take channels.toNat, fr.drop channels.toNat) := by
  cases format <;> rfl

theorem extendedLayout_decode (A : AmbixMatrix K) (channels : UInt32) (format : FileFormat)
    (fr : List K) : ((extendedLayout A channels).present format).decode fr =
      (if format = .basic then mix id id A fr else fr.take A.cols.toNat,
        fr.drop A.cols.toNat) := by
  cases format <;> rfl

theorem ambixOpen_noMatrix (hfile : disk.existing = some file) (hcaf : file.container = .caf)
    (hnone : chunksOf .uuid file.chunks = []) (hfull : isFullset file.channels = true)
    (hopen : ambixOpen Q disk .read info = .ok (some g0)) :
    g0.toLayout = (basicLayout matrixNull file.channels).present info.fileformat := by
  obtain ⟨o, hback, -, hl⟩ := ambixOpen_read_layout hfile hopen
  have hread : readUuidchunk Q (decide (Q.host ≠ file.order)) (chunksOf .uuid file.chunks)
      matrixNull = (.unknown, matrixNull) := by
    rw [hnone]
    rfl
  have hback' := backendOpen_caf hfile hcaf hread 0
  obtain rfl := Option.some.inj (Except.ok.inj (hback.symm.trans hback'))
  have hreal : readRealinfo .basic (matrixNull : AmbixMatrix K) file.channels =
      ⟨.basic, 0, file.channels⟩ := by
    rw [readRealinfo, if_neg (by decide), if_pos hfull]
    rfl
  change g0.toLayout = Layout.present info.fileformat
    ⟨.read, readRealinfo .basic (matrixNull : AmbixMatrix K) file.channels,
      readRealinfo .basic (matrixNull : AmbixMatrix K) file.channels, matrixNull, matrixNull,
      .none⟩ at hl
  rw [hl, hreal]
  rfl

theorem ambixOpen_extended (hfile : disk.existing = some file)
    (hopen : ambixOpen Q disk .read info = .ok (some g0)) {swap : Bool}
    (hback : backendOpen Q disk .read 0 =
      .ok (some ⟨⟨file, .read, 0, disk.chunkOk, 0⟩, true, .extended, swap, A⟩))
    (hreduced : A.cols ≤ file.channels) (hfull : isFullset A.rows = true) :
    g0.toLayout = (extendedLayout A file.channels).present info.fileformat := by
  obtain ⟨o, hback', -, hl⟩ := ambixOpen_read_layout hfile hopen
  obtain rfl := Option.some.inj (Except.ok.inj (hback'.symm.trans hback))
  have hreal : readRealinfo .extended A file.channels =
      ⟨.extended, file.channels-A.cols, A.cols⟩ := by
    rw [readRealinfo, if_pos rfl, if_pos ⟨hreduced, hfull⟩]
    rfl
  change g0.toLayout = Layout.present info.fileformat
    ⟨.read, readRealinfo .extended A file.channels,
    readRealinfo .extended A file.channels, A, matrixNull, .none⟩ at hl
  rw [hl, hreal]
  rfl

/-- A matrix that makes a file EXTENDED when it is found there. -/
structure FitsFile (A : AmbixMatrix K) (file : SoundFile K) : Prop where
  size : 24+4*(A.rows.toNat*A.cols.toNat) < 2^64
  fullset : isFullset A.rows = true
  rows : 0 < A.rows.toNat
  cols : 0 < A.cols.toNat
  reduced : A.cols ≤ file.channels

theorem ambixOpen_matrix (hexact : Exact P Q A) (hfits : FitsFile A file)
    (hfile : disk.existing = some file) (hcaf : file.container = .caf)
    (huuid : chunksOf .uuid file.chunks = [uuid1Bytes file.order P.word A])
    (hopen : ambixOpen Q disk .read info = .ok (some g0)) :
    g0.toLayout = (extendedLayout A file.channels).present info.fileformat := by
  have hread : readUuidchunk Q (decide (Q.host ≠ file.order)) (chunksOf .uuid file.chunks)
      matrixNull = (.success, A) := by
    rw [huuid, readUuidchunk_stored file.order hfits.size hexact, if_pos ⟨hfits.rows, hfits.cols⟩]
  exact ambixOpen_extended hfile hopen (backendOpen_caf hfile hcaf hread 0) hfits.reduced
    hfits.fullset

end reading

/-! What a writing handle leaves. -/

def PlainFile (h : Handle K) : Prop :=
  h.realinfo.fileformat ≠ .extended → chunksOf .uuid h.sf.file.chunks = []

theorem PlainFile.run (hp : PlainFile h) (hw : Writes P h)
    (hcall : call.run P h = .ok (answer, h')) :
    PlainFile h' := by
  cases run_headerStep hw.toHeaderWriter hcall with
  | rests hsame =>
    rw [PlainFile, hsame.layout, hsame.chunks]
    exact hp
  | added => exact hp
  | deletedMarkers => exact hp
  | deletedRegions => exact hp
  | set hstarted hset =>
    cases hset with
    | encoded => exact fun hno => absurd rfl hno
    | stored => exact hp
  | writef hout =>
    cases writef_working hw.backend hout with
    | inl hidle =>
      rw [hidle.1]
      exact hp
    | inr hdone =>
      obtain ⟨g, hd, hsame, -⟩ := hdone
      rw [PlainFile, hsame.layout, hsame.chunks, hd.layout]
      intro hno
      cases hd.chunks hw with
      | inl hkept =>
        rw [hkept.2]
        exact hp hno
      | inr hnew =>
        obtain ⟨-, writes, hof, hchunks⟩ := hnew
        rw [hchunks, hof.uuid, if_neg hno]

theorem session_plainFile (hopen : ambixOpen P disk .write info = .ok (some h0))
    (hok : ∀ k, disk.chunkOk k = true) (hrun : Session P h0 events h)
    (hmem : ∀ e ∈ events, BringsAddressable e) : PlainFile h := by
  refine (hrun.invariant_of BringsAddressable (fun _ h => Writes P h ∧ PlainFile h) hmem
    ⟨ambixOpen_writes hopen hok, fun _ => ?_⟩ fun _ _ _ _ _ hcall he hh =>
      ⟨hh.1.run hcall he, hh.2.run hh.1 hcall⟩).2
  rw [(ambixOpen_justOpened hopen).chunks]
  rfl

theorem closed_plain (hopen : ambixOpen P disk .write info = .ok (some h0))
    (hok : ∀ k, disk.chunkOk k = true) (hrun : Session P h0 events h)
    (hmem : ∀ e ∈ events, BringsAddressable e) (hno : h.realinfo.fileformat ≠ .extended)
    (hclose : h.close P = .ok (res, file)) : chunksOf .uuid file.chunks = [] := by
  have hw := session_writes hopen hok hrun hmem
  cases (close_working hw hclose).2 with
  | inl hkept =>
    rw [show file = h.sf.file from hkept.2]
    exact session_plainFile hopen hok hrun hmem hno
  | inr hnew =>
    obtain ⟨-, -, writes, hof, hchunks⟩ := hnew
    dsimp only at hchunks
    rw [hchunks, hof.uuid, if_neg hno]

theorem closed_matrix (hopen : ambixOpen P disk .write info = .ok (some h0))
    (hok : ∀ k, disk.chunkOk k = true) (hrun : Session P h0 events h)
    (hmem : ∀ e ∈ events, BringsAddressable e) (hlast : lastAccepted events = some A)
    (hclose : h.close P = .ok (res, file)) :
    chunksOf .uuid file.chunks = [uuid1Bytes file.order P.word A] := by
  have hw := session_writes hopen hok hrun hmem
  have hm := (session_matrixKept hopen hok hrun hmem).stored A hlast
  cases (close_working hw hclose).2 with
  | inl hkept =>
    rw [show file = h.sf.file from hkept.2]
    exact hm.chunk hkept.1
  | inr hnew =>
    obtain ⟨-, horder, writes, hof, hchunks⟩ := hnew
    dsimp only at horder hchunks
    rw [hchunks, horder, hm.of_headerOf hof]

/-! BASIC files. -/

omit [LinearOrder K] in
theorem openFormats_plain {ambixinfo : Info} {wantformat : FileFormat}
    (hformats : openFormats .write info = some (ambixinfo, wantformat))
    (hbasic : ambixinfo.fileformat = .basic) : wantformat = .basic ∧
      ambixinfo.extrachannels = 0 ∧ isFullset ambixinfo.ambichannels = true := by
  change (if checkWriteAmbixinfo info = .success then some (info, info.fileformat) else _) = _
    at hformats
  by_cases hcheck : checkWriteAmbixinfo info = .success
  · rw [if_pos hcheck] at hformats
    obtain ⟨rfl, rfl⟩ := Prod.mk.inj (Option.some.inj hformats)
    simp only [checkWriteAmbixinfo, hbasic] at hcheck
    split at hcheck
    · cases hcheck
    · rename_i hextra
      split at hcheck
      · rename_i hfull
        exact ⟨hbasic, UInt32.le_zero_iff.mp (UInt32.not_lt.mp hextra), hfull⟩
      · cases hcheck
  · rw [if_neg hcheck] at hformats
    split at hformats
    · dsimp only at hformats
      split at hformats
      · obtain ⟨rfl, -⟩ := Prod.mk.inj (Option.some.inj hformats)
        cases hbasic
      · cases hformats
    · cases hformats

omit [LinearOrder K] in
theorem ambixOpen_writeBasic (hopen : ambixOpen P disk .write info = .ok (some h0))
    (hreal : h0.realinfo.fileformat = .basic) : isFullset h0.sf.file.channels = true ∧
      h0.toLayout = plainLayout h0.sf.file.channels := by
  obtain ⟨ambixinfo, wantformat, size, ha, hformats, rfl⟩ := ambixOpen_write hopen
  have hfresh (format : FileFormat) (l : Layout K) : (l.present format).realinfo = l.realinfo := by
    obtain ⟨-, -, hp⟩ | ⟨-, -, hp⟩ | ⟨-, -, hp⟩ := present_cases format l
    all_goals rw [hp]
  change ((freshLayout .write ambixinfo
    (created P disk _ ha)).present wantformat).realinfo.fileformat = .basic at hreal
  rw [hfresh] at hreal
  change (writeRealinfo ambixinfo (ambixinfo.ambichannels+ambixinfo.extrachannels)).fileformat
    = .basic at hreal
  have hbasic : ambixinfo.fileformat = .basic := by
    unfold writeRealinfo at hreal
    split at hreal
    · cases hreal
    · assumption
    · cases hreal
  obtain ⟨rfl, hextra, hfull⟩ := openFormats_plain hformats hbasic
  obtain ⟨format, extra, n⟩ := ambixinfo
  dsimp only at hbasic hextra hfull
  subst hbasic hextra
  constructor
  · change isFullset (n+0) = true
    rwa [UInt32.add_zero]
  · rfl

theorem session_writeBasic (hopen : ambixOpen P disk .write info = .ok (some h0))
    (hrun : Session P h0 events h) (hreal : h.realinfo.fileformat = .basic) :
    h.toLayout = h0.toLayout := by
  refine hrun.invariant (fun _ h => Consistent h.toLayout ∧ h.filemode = .write ∧
    (h.realinfo.fileformat = .basic → h.toLayout = h0.toLayout)) ?_ ?_ |>.2.2 hreal
  · exact ⟨consistent_open hopen, (ambixOpen_write_shape hopen).1, fun _ => rfl⟩
  rintro _ t call answer u hcall ⟨hc, hmode, hlayout⟩
  refine ⟨consistent_run hcall hc, (run_sameFile hcall).filemode.trans hmode, fun hbasic => ?_⟩
  by_cases hset : ∃ A, call = .setAdaptormatrix A
  swap
  · have hsame := run_layout hcall fun A hA => hset ⟨A, hA⟩
    rw [hsame] at hbasic ⊢
    exact hlayout hbasic
  obtain ⟨A, rfl⟩ := hset
  rw [← answered_state hcall] at hbasic ⊢
  have hout := setAdaptormatrix_outcome t A
  change (t.setAdaptormatrix A).2.toLayout = h0.toLayout
  change (t.setAdaptormatrix A).2.realinfo.fileformat = .basic at hbasic
  generalize t.setAdaptormatrix A = r at hout hbasic
  cases hout with
  | refused => exact hlayout hbasic
  | multiplied hread => exact absurd hread (by rw [hmode]; decide)
  | fellThrough hread => exact absurd hread (by rw [hmode]; decide)
  | encoded => cases hbasic
  | stored hwrite hinfo =>
    exact absurd ((hc.writeExtended hwrite hinfo).symm.trans hbasic) (by decide)

/-- A BASIC file gives back what was sent, asked for in any format. -/
theorem basic_kept (hopen : ambixOpen P disk .write info = .ok (some h0))
    (hok : ∀ k, disk.chunkOk k = true) (hrun : Session P h0 events h)
    (hmem : ∀ e ∈ events, ∀ A, e.call = .setAdaptormatrix A → Addressable A)
    (hbasic : h.realinfo.fileformat = .basic)
    (hinside : Tape.Inside (events.map tapeOp) ⟨[], 0⟩) (hclose : h.close P = .ok (res, file)) :
    GivesBack Q file (fun _ f => f)
      fun i => Tape.lastStored i (events.map (sentOp h.coder)) ⟨[], 0⟩ := by
  have hlayout := session_writeBasic hopen hrun hbasic
  have hbasic0 : h0.realinfo.fileformat = .basic := by rwa [hlayout] at hbasic
  obtain ⟨hfull, hplain⟩ := ambixOpen_writeBasic hopen hbasic0
  rw [hplain] at hlayout
  have hchannels : file.channels = h0.sf.file.channels := by
    obtain ⟨chunks, rfl⟩ := close_file hclose
    exact (session_sameFile hrun).channels
  rw [← hchannels] at hfull hlayout
  have hcoder : h.coder = rawCoder K file.channels.toNat 0 := by rw [hlayout]; rfl
  have hwrap : h.realChannels < 2^32 := by
    rw [hlayout]
    exact file.channels.toNat_lt
  have hready : h.useMatrix ≠ .matrix := by
    rw [hlayout]
    exact fun hno => by cases hno
  have hno : h.realinfo.fileformat ≠ .extended := fun hext => by cases hbasic.symm.trans hext
  refine givesBack_of (C := h.coder) ?_ ?_
  · rw [close_frames hclose]
    exact session_sent hopen hok hrun hmem hwrap hready hinside
  · intro disk' info' g0 hfile hreopen i f hf
    rw [ambixOpen_noMatrix hfile (closed_caf hopen hrun hclose)
      (closed_plain hopen hok hrun hmem hno hclose) hfull hreopen, basicLayout_decode]
    have hambi := (stored_width hf).1
    rw [hcoder] at hambi ⊢
    exact Prod.ext (List.take_left' hambi) (List.drop_left' hambi)

/-- Two frames that have taken the place of others. -/
theorem basic_kept_overwriting : ∃ (h0 h1 h2 h : Handle ℚ) (file : SoundFile ℚ),
    ambixOpen unitPlatform (unitDisk none) .write ⟨.basic, 0, 4⟩ = .ok (some h0) ∧
    Session unitPlatform h0 (overwritingEvents h0 h1 h2) h ∧
    h.close unitPlatform = .ok (.success, file) ∧
    GivesBack unitPlatform file (fun _ f => f) fun i =>
      Tape.lastStored i ((overwritingEvents h0 h1 h2).map (sentOp h.coder)) ⟨[], 0⟩ := by
  obtain ⟨h0, h1, h2, h, file, hopen, hrun, hclose, -, hbasic, -⟩ := overwriting_session
  refine ⟨h0, h1, h2, h, file, hopen, hrun, hclose, basic_kept hopen (fun _ => rfl) hrun ?_ hbasic
    (overwritingEvents_inside h0 h1 h2) hclose⟩
  intro e he A hcall
  simp only [overwritingEvents, List.mem_cons, List.not_mem_nil, or_false] at he
  rcases he with rfl | rfl | rfl
  all_goals cases hcall

/-! EXTENDED files. -/

def Layout.encode (l : Layout K) : List K → List K :=
  match l.inUse with
  | none => fun x => x
  | some M => mix id id M

omit [LinearOrder K] in
theorem coder_encoded (l : Layout K) (f : Frame K) :
    l.coder.encoded f = l.encode f.1 ++ f.2 := by
  rw [FrameCoder.encoded, Layout.coder, Layout.encode]
  cases l.inUse <;> rfl

omit [LinearOrder K] in
theorem WriteShape.encode_length {l : Layout K} {channels : UInt32} (hs : WriteShape l channels)
    (hready : l.useMatrix ≠ .matrix) {f : Frame K} (hf : f.1.length = l.coder.ambi) :
    (l.encode f.1).length = l.realinfo.ambichannels.toNat := by
  cases hmatrix : l.useMatrix with
  | none =>
    have hnone := inUse_none.mpr hmatrix
    rw [Layout.coder, hnone] at hf
    rw [Layout.encode, hnone, ← hs.raw hnone]
    exact hf
  | matrix => exact absurd hmatrix hready
  | matrix2 =>
    have hsome : l.inUse = some l.matrix2 := by rw [Layout.inUse, hmatrix]
    rw [Layout.encode, hsome, ← hs.encodes hmatrix]
    exact mix_length id id l.matrix2 f.1

/-- An encoder is used wherever a BASIC handle writes an EXTENDED file. -/
def Encodes (l : Layout K) : Prop :=
  l.info.fileformat = .basic → l.useMatrix = .none → l.realinfo.fileformat ≠ .extended

theorem session_encodes (hopen : ambixOpen P disk .write info = .ok (some h0))
    (hrun : Session P h0 events h) : Encodes h.toLayout := by
  refine hrun.invariant (fun _ h => h.filemode = .write ∧ Encodes h.toLayout) ?_ ?_ |>.2
  · refine ⟨(ambixOpen_write_shape hopen).1, ?_⟩
    obtain ⟨ambixinfo, wantformat, size, ha, hformats, rfl⟩ := ambixOpen_write hopen
    change Encodes ((freshLayout .write ambixinfo (created P disk _ ha)).present wantformat)
    obtain ⟨-, -, hp⟩ | ⟨rfl, hreal, -⟩ | ⟨-, -, hp⟩ :=
      present_cases wantformat (freshLayout .write ambixinfo (created P disk _ ha))
    · rw [hp]
      exact fun _ hno => by cases hno
    · exact absurd hreal (openedRealinfo_write rfl (openFormats_extended hformats))
    · rw [hp]
      exact fun hinfo _ hext => by cases hinfo.symm.trans hext
  · rintro _ t call answer u hcall ⟨hmode, hencodes⟩
    refine ⟨(run_sameFile hcall).filemode.trans hmode, ?_⟩
    by_cases hset : ∃ A, call = .setAdaptormatrix A
    swap
    · rwa [run_layout hcall fun A hA => hset ⟨A, hA⟩]
    obtain ⟨A, rfl⟩ := hset
    rw [← answered_state hcall]
    have hout := setAdaptormatrix_outcome t A
    change Encodes (t.setAdaptormatrix A).2.toLayout
    generalize t.setAdaptormatrix A = r at hout
    cases hout with
    | refused => exact hencodes
    | multiplied hread => exact absurd hread (by rw [hmode]; decide)
    | fellThrough hread => exact absurd hread (by rw [hmode]; decide)
    | encoded => exact fun _ hno => by cases hno
    | stored => exact hencodes

omit [LinearOrder K] in
theorem lastAccepted_mem (hlast : lastAccepted events = some A) :
    ∃ e ∈ events, e.call = .setAdaptormatrix A ∧ e.answer = .err .success := by
  obtain ⟨e, he, hA⟩ := List.mem_filterMap.mp (List.mem_of_getLast? hlast)
  refine ⟨e, he, ?_⟩
  unfold acceptedMatrix at hA
  split at hA
  · rename_i M hcall hanswer
    rw [← Option.some.inj hA]
    exact ⟨hcall, hanswer⟩
  · cases hA

theorem session_fullset (hopen : ambixOpen P disk .write info = .ok (some h0))
    (hrun : Session P h0 events h) (hmatrix : h.matrix = A) (hrows : 0 < A.rows.toNat) :
    isFullset A.rows = true := by
  have horigin := hrun.invariant MatrixOrigin (Or.inl (ambixOpen_write_matrix hopen))
    fun _ _ _ _ _ hcall ho => matrixOrigin_call hcall ho
  cases horigin with
  | inl hnull =>
    rw [← hmatrix, hnull] at hrows
    exact absurd hrows (Nat.lt_irrefl 0)
  | inr hset =>
    obtain ⟨e, -, M, -, -, hfull, hM⟩ := hset
    rwa [← hmatrix, hM]

theorem session_encode (hopen : ambixOpen P disk .write info = .ok (some h0))
    (hok : ∀ k, disk.chunkOk k = true) (hrun : Session P h0 events h)
    (hmem : ∀ e ∈ events, ∀ A, e.call = .setAdaptormatrix A → Addressable A)
    (hlast : lastAccepted events = some A) :
    (h.info.fileformat = .extended → h.encode = fun x => x) ∧
      (h.info.fileformat = .basic → ∃ pinv, (matrixPinv A none).ret = some pinv ∧
        h.encode = mix id id pinv) := by
  obtain ⟨e, he, hcall, hanswer⟩ := lastAccepted_mem hlast
  have hready := encoder_of_accepted hopen hrun ⟨e, he, A, hcall, hanswer⟩
  have hk := session_matrixKept hopen hok hrun hmem
  have hm := hk.stored A hlast
  cases hmatrix : h.useMatrix with
  | none =>
    refine ⟨fun _ => ?_, fun hinfo => ?_⟩
    · rw [Layout.encode, inUse_none.mpr hmatrix]
    · exact absurd hm.extended (session_encodes hopen hrun hinfo hmatrix)
  | matrix => exact absurd hmatrix hready
  | matrix2 =>
    refine ⟨fun hinfo => ?_, fun _ => ⟨h.matrix2, hm.encoder hmatrix, ?_⟩⟩
    · exact absurd (hinfo.symm.trans (hk.basic hmatrix)) (by decide)
    · have hsome : h.inUse = some h.matrix2 := by rw [Layout.inUse, hmatrix]
      rw [Layout.encode, hsome]

theorem extended_gives (hopen : ambixOpen P disk .write info = .ok (some h0))
    (hok : ∀ k, disk.chunkOk k = true) (hrun : Session P h0 events h)
    (hmem : ∀ e ∈ events, ∀ A, e.call = .setAdaptormatrix A → Addressable A)
    (hlast : lastAccepted events = some A) (hrows : A.rows ≠ 0) (hcols : A.cols ≠ 0)
    (hfits : A.cols = h.realinfo.ambichannels) (hwrap : h.realChannels < 2^32)
    (hexact : Exact P Q A) (hinside : Tape.Inside (events.map tapeOp) ⟨[], 0⟩)
    (hclose : h.close P = .ok (res, file)) : GivesBack Q file
      (fun format f =>
        (if format = .basic then mix id id A (h.encode f.1) else h.encode f.1, f.2))
      fun i => Tape.lastStored i (events.map (sentOp h.coder)) ⟨[], 0⟩ := by
  obtain ⟨e, he, hcall, hanswer⟩ := lastAccepted_mem hlast
  have hready := encoder_of_accepted hopen hrun ⟨e, he, A, hcall, hanswer⟩
  have hm := (session_matrixKept hopen hok hrun hmem).stored A hlast
  have hshape := (session_writeHandle hopen hrun).shape
  have hchannels : file.channels = h.sf.file.channels := by
    obtain ⟨chunks, rfl⟩ := close_file hclose
    rfl
  have hfile : FitsFile A file := by
    refine ⟨hmem e he A hcall, ?_, toNat_pos.mpr hrows, toNat_pos.mpr hcols, ?_⟩
    · exact session_fullset hopen hrun hm.matrix (toNat_pos.mpr hrows)
    · rw [UInt32.le_iff_toNat_le, hchannels, hshape.channels_eq hwrap, hfits, Layout.realChannels]
      exact Nat.le_add_right _ _
  refine givesBack_of (C := h.coder) ?_ ?_
  · rw [close_frames hclose]
    exact session_sent hopen hok hrun hmem hwrap hready hinside
  · intro disk' info' g0 hfile' hreopen i f hf
    have hlength := hshape.encode_length hready (stored_width hf).1
    rw [← hfits] at hlength
    rw [ambixOpen_matrix hexact hfile hfile' (closed_caf hopen hrun hclose)
      (closed_matrix hopen hok hrun hmem hlast hclose) hreopen, extendedLayout_decode,
      coder_encoded, List.drop_left' hlength, List.take_left' hlength, ← mix_take,
      List.take_left' hlength]

/-- An EXTENDED file whose matrix fits gives back what was sent: as EXTENDED the samples as
they were encoded, as BASIC what the matrix makes of them. -/
theorem extended_kept (hopen : ambixOpen P disk .write info = .ok (some h0))
    (hok : ∀ k, disk.chunkOk k = true) (hrun : Session P h0 events h)
    (hmem : ∀ e ∈ events, ∀ A, e.call = .setAdaptormatrix A → Addressable A)
    (hlast : lastAccepted events = some A) (hrows : A.rows ≠ 0) (hcols : A.cols ≠ 0)
    (hfits : A.cols = h.realinfo.ambichannels) (hwrap : h.realChannels < 2^32)
    (hexact : Exact P Q A) (hinside : Tape.Inside (events.map tapeOp) ⟨[], 0⟩)
    (hclose : h.close P = .ok (res, file)) : ∃ encode : List K → List K,
      (h.info.fileformat = .extended → encode = fun x => x) ∧
      (h.info.fileformat = .basic → ∃ pinv, (matrixPinv A none).ret = some pinv ∧
        encode = mix id id pinv) ∧
      GivesBack Q file
        (fun format f => (if format = .basic then mix id id A (encode f.1) else encode f.1, f.2))
        fun i => Tape.lastStored i (events.map (sentOp h.coder)) ⟨[], 0⟩ := by
  obtain ⟨hraw, hencoded⟩ := session_encode hopen hok hrun hmem hlast
  exact ⟨h.encode, hraw, hencoded, extended_gives hopen hok hrun hmem hlast hrows hcols hfits hwrap
    hexact hinside hclose⟩

/-! Frames through a matrix that is not square. -/

def matrixEvents (h0 h1 : Handle ℚ) (M : AmbixMatrix ℚ) (t : Transfer ℚ) :
    List (Event (Handle ℚ) (Call ℚ) (Answer ℚ)) :=
  [⟨h0, .setAdaptormatrix M, .err .success⟩,
    ⟨h1, .writef t.type t.ambidata t.otherdata t.frames, .written (.ok t.frames)⟩]

theorem matrixEvents_addressable (h0 h1 : Handle ℚ) {M : AmbixMatrix ℚ} (hM : Addressable M)
    (t : Transfer ℚ) : ∀ e ∈ matrixEvents h0 h1 M t, BringsAddressable e := by
  intro e he A hcall
  simp only [matrixEvents, List.mem_cons, List.not_mem_nil, or_false] at he
  rcases he with rfl | rfl
  · rwa [← Call.setAdaptormatrix.inj hcall]
  · cases hcall

theorem matrixEvents_inside (h0 h1 : Handle ℚ) (M : AmbixMatrix ℚ) (t : Transfer ℚ) :
    Tape.Inside ((matrixEvents h0 h1 M t).map tapeOp) ⟨[], 0⟩ := by
  refine Tape.inside_of_start (fun position hmem => ?_) _
  obtain ⟨e, he, hop⟩ := List.mem_map.mp hmem
  have hcall := tapeOp_seek hop
  simp only [matrixEvents, List.mem_cons, List.not_mem_nil, or_false] at he
  rcases he with rfl | rfl
  all_goals cases hcall

theorem swapMatrix_addressable : Addressable swapMatrix :=
  (by decide : 24+4*(UInt32.toNat 4*UInt32.toNat 2) < 2^64)

/-- Three frames written as EXTENDED, with `swapMatrix` in the header. -/
theorem swapMatrix_written : ∃ (h0 h1 h : Handle ℚ) (file : SoundFile ℚ),
    ambixOpen unitPlatform (unitDisk none) .write ⟨.extended, 1, 2⟩ = .ok (some h0) ∧
    Session unitPlatform h0 (matrixEvents h0 h1 swapMatrix threeFrames) h ∧
    h.close unitPlatform = .ok (.success, file) ∧ h.realinfo.ambichannels = 2 ∧
    h.realChannels = 3 ∧ h.info.fileformat = .extended := by
  obtain ⟨h0, h1, h, file, hopen, hset, hwrite, hclosed⟩ :
      ∃ (h0 h1 h : Handle ℚ) (file : SoundFile ℚ),
      ambixOpen unitPlatform (unitDisk none) .write ⟨.extended, 1, 2⟩ = .ok (some h0) ∧
      Call.run unitPlatform h0 (.setAdaptormatrix swapMatrix) = .ok (.err .success, h1) ∧
      Call.run unitPlatform h1 (.writef .float32 threeFrames.ambidata threeFrames.otherdata 3) =
        .ok (.written (.ok 3), h) ∧
      h.close unitPlatform = .ok (.success, file) ∧ h.realinfo.ambichannels = 2 ∧
      h.realChannels = 3 ∧ h.info.fileformat = .extended := by
    with_unfolding_all exact ⟨_, _, _, _, rfl, rfl, rfl, rfl, rfl, rfl, rfl⟩
  exact ⟨h0, h1, h, file, hopen, .call (.call .start hset) hwrite, hclosed⟩

/-- Two ambisonics channels and an extra one. -/
theorem extended_kept_reduced : ∃ (h0 h1 h : Handle ℚ) (file : SoundFile ℚ)
      (encode : List ℚ → List ℚ),
    ambixOpen unitPlatform (unitDisk none) .write ⟨.extended, 1, 2⟩ = .ok (some h0) ∧
    Session unitPlatform h0 (matrixEvents h0 h1 swapMatrix threeFrames) h ∧
    h.close unitPlatform = .ok (.success, file) ∧ encode = (fun x => x) ∧
    GivesBack unitPlatform file
      (fun format f => (if format = .basic then mix id id swapMatrix (encode f.1)
        else encode f.1, f.2))
      fun i => Tape.lastStored i
        ((matrixEvents h0 h1 swapMatrix threeFrames).map (sentOp h.coder)) ⟨[], 0⟩ := by
  obtain ⟨h0, h1, h, file, hopen, hrun, hclose, hreal, hwrap, hinfo⟩ := swapMatrix_written
  obtain ⟨encode, hraw, -, hback⟩ := extended_kept (A := swapMatrix) hopen (fun _ => rfl) hrun
    (matrixEvents_addressable h0 h1 swapMatrix_addressable threeFrames) rfl (by decide)
    (by decide) hreal.symm (by rw [hwrap]; decide) swapMatrix_exact
    (matrixEvents_inside h0 h1 swapMatrix threeFrames) hclose
  exact ⟨h0, h1, h, file, encode, hopen, hrun, hclose, hraw hinfo, hback⟩

end Ambix
