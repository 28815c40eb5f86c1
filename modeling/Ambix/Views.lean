import Ambix.FrameView

/-! The BASIC and the EXTENDED view of one file. -/
namespace Ambix
open Machine
variable {K : Type} [Field K]

/-! What a file is opened as. -/

theorem readUuidchunk_rows {P : Platform K} {swap : Bool} {datas : List (List UInt8)}
    {matrix : AmbixMatrix K} (h : (readUuidchunk P swap datas matrix).1 = .success) :
    (readUuidchunk P swap datas matrix).2.rows ≠ 0 := by
  induction datas generalizing matrix with
  | nil => cases h
  | cons data rest ih =>
    unfold readUuidchunk at h ⊢
    split at h
    · rename_i hshort
      rw [if_pos hshort]
      exact ih h
    rename_i hshort
    rw [if_neg hshort]
    split at h
    swap
    · rename_i huuid
      rw [if_neg huuid]
      exact ih h
    rename_i huuid
    rw [if_pos huuid]
    dsimp only at h ⊢
    split at h
    swap
    · rename_i hsome
      rw [if_neg hsome]
      exact ih h
    rename_i hsome
    rw [if_pos hsome]
    have hacc := (uuid1ToMatrix_isSome _ _ _ _ _ _).mp hsome
    rw [uuid1ToMatrix_accepts _ _ _ _ _ _ hacc]
    intro hrows
    have hpos := hacc.2.1
    have hzero : (payloadRows (P.host.swapIf swap) (view (data.drop 16) P.behind)).toNat = 0 :=
      congrArg UInt32.toNat hrows
    omega

theorem backendOpen_read {P : Platform K} {disk : Disk K} {channels : UInt32} {o : Opened K}
    {file : SoundFile K} (hfile : disk.existing = some file)
    (h : backendOpen P disk .read channels = .ok (some o)) :
    o.sf = ⟨file, .read, 0, disk.chunkOk, 0⟩ ∧
      (o.isAmbix = true → o.format = .extended → o.matrix.rows ≠ 0) := by
  simp only [backendOpen, sfOpen, hfile, Option.map_some] at h
  split at h
  · rw [← Option.some.inj (Except.ok.inj h)]
    refine ⟨rfl, fun _ hformat => ?_⟩
    dsimp only at hformat ⊢
    refine readUuidchunk_rows ?_
    by_contra hno
    rw [if_neg hno] at hformat
    cases hformat
  · obtain ⟨filled, hfill, h⟩ := bind_eq_ok.mp h
    cases filled with
    | none =>
      rw [← Option.some.inj (Except.ok.inj h)]
      exact ⟨rfl, fun hno => by cases hno⟩
    | some m =>
      rw [← Option.some.inj (Except.ok.inj h)]
      exact ⟨rfl, fun _ _ => (matrixFill_fuma_size hfill).1⟩
  · rw [← Option.some.inj (Except.ok.inj h)]
    exact ⟨rfl, fun hno => by cases hno⟩

theorem openedRealinfo_read (ambixinfo : Info) (o : Opened K) :
    (o.isAmbix = true ∧ o.format = .extended ∧ o.matrix.cols ≤ o.sf.file.channels ∧
      isFullset o.matrix.rows = true ∧ openedRealinfo .read ambixinfo o =
        ⟨.extended, o.sf.file.channels-o.matrix.cols, o.matrix.cols⟩) ∨
    (o.format ≠ .extended ∧ isFullset o.sf.file.channels = true ∧
      openedRealinfo .read ambixinfo o = ⟨.basic, 0, o.sf.file.channels⟩) ∨
    (¬ (o.isAmbix = true ∧ o.format = .extended ∧ o.matrix.cols ≤ o.sf.file.channels ∧
        isFullset o.matrix.rows = true) ∧
      (openedRealinfo .read ambixinfo o).fileformat = .none) := by
  unfold openedRealinfo
  dsimp only
  split
  swap
  · rename_i hambix
    exact Or.inr (Or.inr ⟨fun h => hambix h.1, rfl⟩)
  rename_i hambix
  rw [if_neg (by decide)]
  unfold readRealinfo
  split
  · rename_i hformat
    split
    · rename_i hm
      exact Or.inl ⟨hambix, hformat, hm.1, hm.2, rfl⟩
    · rename_i hm
      exact Or.inr (Or.inr ⟨fun h => hm h.2.2, rfl⟩)
  · rename_i hformat
    split
    · rename_i hfull
      exact Or.inr (Or.inl ⟨hformat, hfull, rfl⟩)
    · exact Or.inr (Or.inr ⟨fun h => hformat h.2.1, rfl⟩)

/-! The matrix that connects the views. -/

theorem fillIdentity_eq {n : UInt32} (h : n.toNat < 2^31) :
    fillIdentity (matrixInit n n : AmbixMatrix K) =
      AmbixMatrix.ofFn n n fun r c => if r = c then 1 else 0 := fillEntries_eq _ h h

theorem mix_identity {n : UInt32} (h : n.toNat < 2^31) {fr : List K} (hfr : fr.length = n.toNat) :
    mix id id (fillIdentity (matrixInit n n)) fr = fr := by
  rw [fillIdentity_eq h]
  apply List.ext_getElem
  · rw [mix_length, hfr]
    rfl
  · intro r hr hr'
    rw [mix_length, AmbixMatrix.ofFn_rows] at hr
    have hcol : r ∈ Finset.range
        (AmbixMatrix.ofFn n n fun r c => if r = c then (1 : K) else 0).cols.toNat :=
      Finset.mem_range.mpr hr
    simp only [mix, List.getElem_map, List.getElem_range, id]
    rw [Finset.sum_eq_single_of_mem r hcol]
    · rw [AmbixMatrix.ofFn_data hr hr, if_pos rfl, one_mul, List.getElem?_eq_getElem hr']
      rfl
    · intro c hc hcr
      have hc' : c < n.toNat := Finset.mem_range.mp hc
      rw [AmbixMatrix.ofFn_data hr hc', if_neg (Ne.symm hcr), zero_mul]

/-! Both views. -/

/-- What the EXTENDED view `e` and the BASIC view `b` of one file have to do with each other. -/
structure ViewsAgree (P : Platform K) (file : SoundFile K) (e b : Handle K) (M : AmbixMatrix K) :
    Prop where
  matrix : e.getAdaptormatrix = some M
  reduced : e.info.ambichannels = M.cols
  full : b.info.ambichannels = M.rows
  square : ∃ n, M.rows.toNat = (n+1)*(n+1)
  extra : b.info.extrachannels = e.info.extrachannels
  channels : e.info.ambichannels.toNat+e.info.extrachannels.toNat = file.channels.toNat
  answered : (∀ size, P.grants size = true) → ∀ ts : List (Transfer K),
    (∀ t ∈ ts, t.frames < 2^29) → (∃ fs, e.readAll P ts = some fs) ∧
      (b.bufferChannels < 2^32 → ∃ gs, b.readAll P ts = some gs)
  complete : ∀ {ts : List (Transfer K)} {fs : List (Frame K)},
    e.readAll P ts = some fs ∨ b.readAll P ts = some fs →
      fs.length = min (total ts) file.frames.length
  frames : ∀ {ts us : List (Transfer K)} {fs gs : List (Frame K)}, e.readAll P ts = some fs →
    b.readAll P us = some gs → ∀ {i : Nat} {f g : Frame K}, fs[i]? = some f → gs[i]? = some g →
      g.1 = mix id id M f.1 ∧ g.2 = f.2

/-- The matrix and the layout agree; the frames follow from the way they are taken apart. -/
theorem viewsAgree_of {P : Platform K} {file : SoundFile K} {e b : Handle K} {V W : FrameView K}
    {M : AmbixMatrix K} (hV : Shows e V) (hW : Shows b W) (hcounted : Counted e)
    (hcovered : b.sf.file.channels.toNat ≤ b.bufferChannels) (hfile : e.sf.file = file)
    (hsf : e.sf = b.sf) (hpos : e.sf.position = 0) (hmatrix : e.getAdaptormatrix = some M)
    (hreduced : e.info.ambichannels = M.cols) (hfull : b.info.ambichannels = M.rows)
    (hsquare : ∃ n, M.rows.toNat = (n+1)*(n+1))
    (hextra : b.info.extrachannels = e.info.extrachannels) (hchannels : V.ambi+V.extra = V.channels)
    (hdecode : ∀ fr, fr.length = V.channels →
      (W.decode fr).1 = mix id id M (V.decode fr).1 ∧ (W.decode fr).2 = (V.decode fr).2) :
    ViewsAgree P file e b M where
  matrix := hmatrix
  reduced := hreduced
  full := hfull
  square := hsquare
  extra := hextra
  channels := by rw [hV.ambi, hV.extra, hchannels, ← hV.channels, hfile]
  answered hgrants ts hts := ⟨readAll_answered hgrants ts e hcounted hts,
    fun hwrap => readAll_answered hgrants ts b ⟨hcovered, hwrap⟩ hts⟩
  complete hfs := by
    rw [← hfile]
    obtain hfs | hfs := hfs
    · exact readAll_length hV hpos hfs
    · rw [hsf] at hpos ⊢
      exact readAll_length hW hpos hfs
  frames hfs hgs _ _ _ hf hg := readAll_related hV hW hsf (R := fun f g =>
    g.1 = mix id id M f.1 ∧ g.2 = f.2) hdecode hfs hgs hf hg

/-! Layouts of a file of `channels` channels. -/

def extendedLayout (M : AmbixMatrix K) (channels : UInt32) : Layout K :=
  ⟨.read, ⟨.extended, channels-M.cols, M.cols⟩, ⟨.extended, channels-M.cols, M.cols⟩, M,
    matrixNull, .none⟩

def decodedLayout (M : AmbixMatrix K) (channels : UInt32) : Layout K :=
  ⟨.read, ⟨.basic, channels-M.cols, M.rows⟩, ⟨.extended, channels-M.cols, M.cols⟩, M,
    matrixNull, .matrix⟩

def basicLayout (M : AmbixMatrix K) (channels : UInt32) : Layout K :=
  ⟨.read, ⟨.basic, 0, channels⟩, ⟨.basic, 0, channels⟩, M, matrixNull, .none⟩

def identityLayout (channels : UInt32) : Layout K :=
  ⟨.read, ⟨.extended, 0, channels⟩, ⟨.basic, 0, channels⟩,
    fillIdentity (matrixInit channels channels), matrixNull, .none⟩

theorem reduced_add_extra {M : AmbixMatrix K} {channels : UInt32} :
    M.cols+(channels-M.cols) = channels := by rw [UInt32.add_comm, UInt32.sub_add_cancel]

theorem shows_extended {h : Handle K} {M : AmbixMatrix K} (hreads : h.sf.mode.canRead = true)
    (hl : h.toLayout = extendedLayout M h.sf.file.channels) (hcols : M.cols ≤ h.sf.file.channels) :
    Shows h (rawView K (UInt32.le_iff_toNat_le.mp hcols)) := by
  obtain ⟨l, _⟩ := h
  dsimp only at hl hreads hcols ⊢
  subst hl
  exact shows_raw hreads rfl reduced_add_extra hcols rfl (UInt32.toNat_sub_of_le _ _ hcols)

theorem counted_extended {h : Handle K} {M : AmbixMatrix K}
    (hl : h.toLayout = extendedLayout M h.sf.file.channels) (hcols : M.cols ≤ h.sf.file.channels) :
    Counted h := by
  refine counted_stored ?_ ?_ ?_ ?_
  · rw [hl]
    rfl
  · rw [hl]
    rfl
  · rw [hl]
    exact reduced_add_extra
  · rw [hl]
    exact hcols

theorem shows_decodedLayout {h : Handle K} {M : AmbixMatrix K} (hreads : h.sf.mode.canRead = true)
    (hl : h.toLayout = decodedLayout M h.sf.file.channels) (hcols : M.cols ≤ h.sf.file.channels) :
    Shows h (decodedView M (UInt32.le_iff_toNat_le.mp hcols)) := by
  obtain ⟨l, _⟩ := h
  dsimp only at hl hreads hcols ⊢
  subst hl
  exact shows_decoded hreads rfl reduced_add_extra hcols rfl (UInt32.toNat_sub_of_le _ _ hcols)

theorem shows_basic {h : Handle K} (hreads : h.sf.mode.canRead = true)
    (hnone : h.useMatrix = .none) (hreal : h.realinfo = ⟨.basic, 0, h.sf.file.channels⟩)
    (hambi : h.info.ambichannels = h.sf.file.channels) (hextra : h.info.extrachannels = 0) :
    Shows h (rawView K (Nat.le_refl h.sf.file.channels.toNat)) := by
  have hcols : h.realinfo.ambichannels ≤ h.sf.file.channels := by
    rw [hreal]
    exact UInt32.le_refl _
  have hs := shows_raw hreads hnone (by rw [hreal]; exact UInt32.add_zero _) hcols
    (by rw [hambi, hreal]) (by rw [hextra, hreal]; exact (Nat.sub_self _).symm)
  simpa only [hreal] using hs

theorem counted_basic {h : Handle K} (hreal : h.realinfo = ⟨.basic, 0, h.sf.file.channels⟩)
    (hambi : h.info.ambichannels = h.sf.file.channels) (hextra : h.info.extrachannels = 0) :
    Counted h := by
  refine counted_stored ?_ ?_ ?_ ?_
  · rw [hambi, hreal]
  · rw [hextra, hreal]
  · rw [hreal]
    exact UInt32.add_zero _
  · rw [hreal]
    exact UInt32.le_refl _

/-! Agreement. -/

theorem viewsAgree_extended (P : Platform K) {e b : Handle K} {M : AmbixMatrix K}
    (hreads : e.sf.mode.canRead = true) (hpos : e.sf.position = 0) (hsf : b.sf = e.sf)
    (he : e.toLayout = extendedLayout M e.sf.file.channels)
    (hb : b.toLayout = decodedLayout M e.sf.file.channels) (hrows : M.rows ≠ 0)
    (hfull : isFullset M.rows = true) (hcols : M.cols ≤ e.sf.file.channels) :
    ViewsAgree P e.sf.file e b M := by
  have hle := UInt32.le_iff_toNat_le.mp hcols
  have hV := shows_extended hreads he hcols
  have hW := shows_decodedLayout (by rw [hsf]; exact hreads) (by rw [hsf]; exact hb)
    (by rw [hsf]; exact hcols)
  refine viewsAgree_of hV hW (counted_extended he hcols)
    (source_covered (by rw [hb, hsf]; exact reduced_add_extra)) rfl hsf.symm hpos ?_ ?_ ?_
    (((isFullset_iff M.rows).mp hfull).resolve_left hrows) ?_ (Nat.add_sub_cancel' hle) ?_
  · rw [Handle.getAdaptormatrix, he]
    rfl
  · rw [he]
    rfl
  · rw [hb]
    rfl
  · rw [he, hb]
    rfl
  · exact fun fr _ => ⟨(mix_take M fr).symm, rfl⟩

theorem viewsAgree_basic (P : Platform K) {e b : Handle K} {M : AmbixMatrix K}
    (hreads : e.sf.mode.canRead = true) (hpos : e.sf.position = 0) (hsf : b.sf = e.sf)
    (he : e.toLayout = identityLayout e.sf.file.channels)
    (hb : b.toLayout = basicLayout M e.sf.file.channels)
    (hfull : isFullset e.sf.file.channels = true) :
    ViewsAgree P e.sf.file e b
      (fillIdentity (matrixInit e.sf.file.channels e.sf.file.channels)) := by
  have hV := shows_basic hreads (congrArg Layout.useMatrix he) (congrArg Layout.realinfo he)
    (congrArg (fun l => l.info.ambichannels) he) (congrArg (fun l => l.info.extrachannels) he)
  have hW : Shows b (rawView K (Nat.le_refl b.sf.file.channels.toNat)) := by
    rw [← hsf] at hb hreads
    exact shows_basic hreads (congrArg Layout.useMatrix hb) (congrArg Layout.realinfo hb)
      (congrArg (fun l => l.info.ambichannels) hb) (congrArg (fun l => l.info.extrachannels) hb)
  have hrows : (fillIdentity (matrixInit e.sf.file.channels e.sf.file.channels :
      AmbixMatrix K)).rows = e.sf.file.channels := (fillEntries_size _ _).1
  have hcols : (fillIdentity (matrixInit e.sf.file.channels e.sf.file.channels :
      AmbixMatrix K)).cols = e.sf.file.channels := (fillEntries_size _ _).2
  have hch := e.sf.file.channels_pos
  have hsquare := ((isFullset_iff e.sf.file.channels).mp hfull).resolve_left fun hzero => by
    rw [hzero] at hch
    exact absurd hch (by decide)
  have hcounted : Counted e := counted_basic (congrArg Layout.realinfo he)
    (congrArg (fun l => l.info.ambichannels) he) (congrArg (fun l => l.info.extrachannels) he)
  refine viewsAgree_of hV hW hcounted
    (source_covered (by rw [hb, hsf]; exact UInt32.add_zero _)) rfl hsf.symm hpos ?_ ?_ ?_
    (by rwa [hrows]) ?_
    (Nat.add_sub_cancel' (Nat.le_refl _)) ?_
  · rw [Handle.getAdaptormatrix, he]
    rfl
  · rw [he, hcols]
    rfl
  · rw [hb, hrows]
    rfl
  · rw [he, hb]
    rfl
  · intro fr hfr
    have htake : fr.take e.sf.file.channels.toNat = fr := List.take_of_length_le (Nat.le_of_eq hfr)
    change fr.take b.sf.file.channels.toNat = mix id id _ (fr.take e.sf.file.channels.toNat) ∧
      fr.drop b.sf.file.channels.toNat = fr.drop e.sf.file.channels.toNat
    rw [hsf, htake, mix_identity e.sf.file.channels_int hfr]
    exact ⟨rfl, rfl⟩

theorem ambixOpen_read_layout {P : Platform K} {disk : Disk K} {info : Info} {h : Handle K}
    {file : SoundFile K} (hfile : disk.existing = some file)
    (hopen : ambixOpen P disk .read info = .ok (some h)) :
    ∃ o, backendOpen P disk .read 0 = .ok (some o) ∧ h.sf = ⟨file, .read, 0, disk.chunkOk, 0⟩ ∧
      h.toLayout = (freshLayout .read info o).present info.fileformat := by
  obtain ⟨ambixinfo, wantformat, o, markers, regions, hformats, hback, -, hres⟩ :=
    ambixOpen_eq_some.mp hopen
  obtain ⟨rfl, rfl⟩ := Prod.mk.inj (Option.some.inj hformats)
  obtain ⟨size, rfl⟩ := resize_eq hres
  exact ⟨o, hback, (backendOpen_read hfile hback).1, rfl⟩

/-- The views of a file agree when it is recognised. -/
theorem viewsAgree {P : Platform K} {disk : Disk K} {file : SoundFile K} {infoE infoB : Info}
    {e b : Handle K} (hfile : disk.existing = some file)
    (he : ambixOpen P disk .read infoE = .ok (some e)) (hE : infoE.fileformat = .extended)
    (hb : ambixOpen P disk .read infoB = .ok (some b)) (hB : infoB.fileformat = .basic)
    (hrecognised : e.info.fileformat ≠ .none) : ∃ M, ViewsAgree P file e b M := by
  obtain ⟨o, hback, hsfe, hle⟩ := ambixOpen_read_layout hfile he
  obtain ⟨o', hback', hsfb, hlb⟩ := ambixOpen_read_layout hfile hb
  obtain rfl : o = o' := Option.some.inj (Except.ok.inj (hback.symm.trans hback'))
  obtain ⟨hsf, hrows⟩ := backendOpen_read hfile hback
  rw [hE] at hle
  rw [hB] at hlb
  have hreads : e.sf.mode.canRead = true := by rw [hsfe]; rfl
  have hpos : e.sf.position = 0 := by rw [hsfe]
  have hch : e.sf.file = file := by rw [hsfe]
  have hfe : o.sf.file.channels = e.sf.file.channels := by rw [hsf, hsfe]
  rw [← hch]
  obtain ⟨hambix, hformat, hcols, hfull, hreal⟩ | ⟨-, hfull, hreal⟩ | ⟨-, hnone⟩ :=
    openedRealinfo_read infoE o
  · have hfresh : freshLayout .read infoE o = extendedLayout o.matrix e.sf.file.channels := by
      rw [freshLayout, hreal, hfe]
      rfl
    rw [hfe] at hcols
    refine ⟨o.matrix, viewsAgree_extended P hreads hpos (hsfb.trans hsfe.symm) ?_ ?_
      (hrows hambix hformat) hfull hcols⟩
    · rw [hle, hfresh]
      rfl
    · rw [hlb, show freshLayout .read infoB o = freshLayout .read infoE o from rfl, hfresh]
      rfl
  · have hfresh : freshLayout .read infoE o = basicLayout o.matrix e.sf.file.channels := by
      rw [freshLayout, hreal, hfe]
      rfl
    rw [hfe] at hfull
    refine ⟨_, viewsAgree_basic P (M := o.matrix) hreads hpos (hsfb.trans hsfe.symm) ?_ ?_ hfull⟩
    · rw [hle, hfresh]
      rfl
    · rw [hlb, show freshLayout .read infoB o = freshLayout .read infoE o from rfl, hfresh]
      rfl
  · refine absurd ?_ hrecognised
    obtain ⟨hno, -⟩ | ⟨-, hno, -⟩ | ⟨-, -, hp⟩ :=
      present_cases .extended (freshLayout .read infoE o)
    · cases hno
    · exact absurd (hnone.symm.trans hno) (by decide)
    · rw [hle, hp]
      exact hnone

def stereoFile : SoundFile ℚ where
  container := .caf
  order := .little
  channels := 2
  chunks := [⟨.uuid, uuidV1 ++ [1, 0, 0, 0, 1, 0, 0, 0, 0, 0, 0x80, 0x3f]⟩]
  frames := [[1, 0], [0, 1]]
  channels_pos := by decide
  channels_int := by decide
  width := by decide

theorem viewsAgree_stereo : ∃ e b : Handle ℚ,
    ambixOpen unitPlatform (unitDisk (some stereoFile)) .read ⟨.extended, 0, 0⟩ = .ok (some e) ∧
    ambixOpen unitPlatform (unitDisk (some stereoFile)) .read ⟨.basic, 0, 0⟩ = .ok (some b) ∧
    ∃ M, ViewsAgree unitPlatform stereoFile e b M := by
  obtain ⟨e, b, he, hb, hrec⟩ : ∃ e b : Handle ℚ,
      ambixOpen unitPlatform (unitDisk (some stereoFile)) .read ⟨.extended, 0, 0⟩ = .ok (some e) ∧
      ambixOpen unitPlatform (unitDisk (some stereoFile)) .read ⟨.basic, 0, 0⟩ = .ok (some b) ∧
      e.info.fileformat = .extended := ⟨_, _, rfl, rfl, rfl⟩
  exact ⟨e, b, he, hb, viewsAgree rfl he rfl hb rfl (by rw [hrec]; decide)⟩

end Ambix
