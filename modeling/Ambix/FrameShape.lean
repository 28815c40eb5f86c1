import Ambix.SampleGuard
import Ambix.Views
import Ambix.Writing

/-! The shape of a layout: how both info records, the matrices and the channels of the file
go together on every handle that can be reached. -/
namespace Ambix
open Machine

/-! Shapes. -/

section shape
variable {K : Type} [Field K]

/-- The ambisonics samples a frame has on the caller's side of a read. -/
def Layout.stride (l : Layout K) : UInt32 :=
  (l.inUse.map AmbixMatrix.rows).getD l.info.ambichannels

/-- How frames go to the file, by the `switch` on `use_matrix`. -/
def Layout.coder (l : Layout K) : FrameCoder K :=
  match l.inUse with
  | none => rawCoder K l.info.ambichannels.toNat l.info.extrachannels.toNat
  | some A => matrixCoder A l.info.extrachannels.toNat

structure Shaped (l : Layout K) (channels : UInt32) : Prop where
  source : l.realinfo.ambichannels+l.realinfo.extrachannels = channels
  extra : l.info.extrachannels = l.realinfo.extrachannels
  raw : l.inUse = none → l.info.ambichannels = l.realinfo.ambichannels

structure ReadShape (l : Layout K) (channels : UInt32) : Prop extends Shaped l channels where
  reduced : l.realinfo.ambichannels ≤ channels
  stored : l.realinfo.fileformat = .extended → l.matrix.cols = l.realinfo.ambichannels
  columns : ∀ A, l.inUse = some A → A.cols = l.realinfo.ambichannels

/-- Until a matrix is accepted, a file written through the full set has no encoder. -/
structure WriteShape (l : Layout K) (channels : UInt32) : Prop extends Shaped l channels where
  unset : l.useMatrix = .matrix → l.info.fileformat = .basic ∧ l.realinfo.fileformat = .extended
  encodes : l.useMatrix = .matrix2 → l.matrix2.rows = l.realinfo.ambichannels

theorem takes_coder (l : Layout K) : Takes l l.coder := by
  unfold Layout.coder
  split
  · rename_i hnone
    exact takes_raw (inUse_none.mp hnone)
  · rename_i A hA
    exact takes_matrix hA

/-- The channels on disk, counted without bound. -/
def Layout.realChannels (l : Layout K) : Nat :=
  l.realinfo.ambichannels.toNat+l.realinfo.extrachannels.toNat

theorem Shaped.channels_eq {l : Layout K} {channels : UInt32} (hs : Shaped l channels)
    (hwrap : l.realChannels < 2^32) : channels.toNat = l.realChannels := by
  rw [← hs.source, UInt32.toNat_add]
  exact Nat.mod_eq_of_lt hwrap

theorem Layout.realChannels_le (l : Layout K) : l.realChannels ≤ l.bufferChannels :=
  Nat.add_le_add (Nat.le_max_right _ _) (Nat.le_max_right _ _)

theorem Shaped.wrapped_lt {l : Layout K} {channels : UInt32} (hs : Shaped l channels)
    (hwrap : 2^32 ≤ l.bufferChannels) : l.bufferChannels%2^32 < l.realChannels := by
  have hambi := l.info.ambichannels.toNat_lt
  have hreal := l.realinfo.ambichannels.toNat_lt
  have hextra := l.realinfo.extrachannels.toNat_lt
  rw [Layout.bufferChannels, hs.extra, Nat.max_self] at hwrap ⊢
  rw [Layout.realChannels]
  omega

theorem WriteShape.coder_real {l : Layout K} {channels : UInt32} (hs : WriteShape l channels)
    (hready : l.useMatrix ≠ .matrix) : l.coder.channels = l.realChannels := by
  rw [Layout.realChannels, Layout.coder]
  cases hmatrix : l.useMatrix with
  | none =>
    have hnone := inUse_none.mpr hmatrix
    rw [hnone, ← hs.raw hnone, ← hs.extra]
    rfl
  | matrix => exact absurd hmatrix hready
  | matrix2 =>
    have hsome : l.inUse = some l.matrix2 := by rw [Layout.inUse, hmatrix]
    rw [hsome, ← hs.encodes hmatrix, ← hs.extra]
    rfl

theorem WriteShape.coder_channels {l : Layout K} {channels : UInt32} (hs : WriteShape l channels)
    (hwrap : l.realChannels < 2^32) (hready : l.useMatrix ≠ .matrix) :
    l.coder.channels = channels.toNat := by
  rw [hs.channels_eq hwrap, hs.coder_real hready]

end shape

/-! Opening. -/

section opening
variable {K : Type} [Field K] {P : Platform K} {disk : Disk K} {info : Info}

theorem openedRealinfo_shape (ambixinfo : Info) (o : Opened K) :
    (openedRealinfo .read ambixinfo o).ambichannels+
        (openedRealinfo .read ambixinfo o).extrachannels = o.sf.file.channels ∧
      (openedRealinfo .read ambixinfo o).ambichannels ≤ o.sf.file.channels ∧
      ((openedRealinfo .read ambixinfo o).fileformat = .extended →
        o.matrix.cols = (openedRealinfo .read ambixinfo o).ambichannels) := by
  have hnone : (infoSet .none o.sf.file.channels 0).ambichannels+
      (infoSet .none o.sf.file.channels 0).extrachannels = o.sf.file.channels ∧
      (infoSet .none o.sf.file.channels 0).ambichannels ≤ o.sf.file.channels ∧
      ((infoSet .none o.sf.file.channels 0).fileformat = .extended →
        o.matrix.cols = (infoSet .none o.sf.file.channels 0).ambichannels) :=
    ⟨UInt32.zero_add _, UInt32.zero_le, fun h => by cases h⟩
  unfold openedRealinfo
  dsimp only
  split
  swap
  · exact hnone
  rw [if_neg (by decide)]
  unfold readRealinfo
  split
  · split
    · rename_i hm
      exact ⟨reduced_add_extra, hm.1, fun _ => rfl⟩
    · exact hnone
  · split
    · exact ⟨UInt32.add_zero _, UInt32.le_refl _, fun h => by cases h⟩
    · exact hnone

theorem sfOpen_read {channels : UInt32} {o : Opened K}
    (hback : backendOpen P disk .read channels = .ok (some o)) :
    ∃ file, disk.existing = some file := by
  cases hfile : disk.existing with
  | some file => exact ⟨file, rfl⟩
  | none =>
    simp only [backendOpen, sfOpen, hfile] at hback
    cases hback

theorem ambixOpen_read_shape {h : Handle K} (hopen : ambixOpen P disk .read info = .ok (some h)) :
    h.filemode = .read ∧ h.sf.mode = .read ∧ h.sf.position = 0 ∧
      ReadShape h.toLayout h.sf.file.channels := by
  obtain ⟨ambixinfo, wantformat, o, markers, regions, hformats, hback, -, hres⟩ :=
    ambixOpen_eq_some.mp hopen
  obtain ⟨file, hfile⟩ := sfOpen_read hback
  obtain ⟨hsf, -⟩ := backendOpen_read hfile hback
  obtain ⟨size, rfl⟩ := resize_eq hres
  obtain ⟨hsource, hreduced, hstored⟩ := openedRealinfo_shape ambixinfo o
  have hfresh : ReadShape (freshLayout .read ambixinfo o) o.sf.file.channels :=
    ⟨⟨hsource, rfl, fun _ => rfl⟩, hreduced, hstored, fun A hA => by cases hA⟩
  change ((freshLayout .read ambixinfo o).present wantformat).filemode = .read ∧ o.sf.mode = .read ∧
    o.sf.position = 0 ∧
    ReadShape ((freshLayout .read ambixinfo o).present wantformat) o.sf.file.channels
  obtain ⟨-, hreal, hp⟩ | ⟨-, hreal, hp⟩ | ⟨-, -, hp⟩ :=
    present_cases wantformat (freshLayout .read ambixinfo o)
  · rw [hp]
    refine ⟨rfl, by rw [hsf], by rw [hsf],
      ⟨hsource, rfl, fun h => by cases h⟩, hreduced, hstored, fun A hA => ?_⟩
    rw [← Option.some.inj hA]
    exact hstored hreal
  · rw [hp]
    refine ⟨rfl, by rw [hsf], by rw [hsf], ⟨hsource, rfl, fun _ => rfl⟩, hreduced, fun hext => ?_,
      fun A hA => by cases hA⟩
    exact absurd (hreal.symm.trans hext) (by decide)
  · rw [hp]
    exact ⟨rfl, by rw [hsf], by rw [hsf], hfresh⟩

theorem ambixOpen_write_shape {h : Handle K} (hopen : ambixOpen P disk .write info = .ok (some h)) :
    h.filemode = .write ∧ h.sf.mode = .write ∧ WriteShape h.toLayout h.sf.file.channels := by
  obtain ⟨ambixinfo, wantformat, size, ha, hformats, rfl⟩ := ambixOpen_write hopen
  have hsource : (writeRealinfo ambixinfo (ambixinfo.ambichannels+
        ambixinfo.extrachannels)).ambichannels+(writeRealinfo ambixinfo
        (ambixinfo.ambichannels+ambixinfo.extrachannels)).extrachannels =
      ambixinfo.ambichannels+ambixinfo.extrachannels := by
    unfold writeRealinfo
    split
    · exact UInt32.zero_add _
    · exact UInt32.add_zero _
    · rfl
  change ((freshLayout .write ambixinfo (created P disk _ ha)).present wantformat).filemode =
      .write ∧ FileMode.write = .write ∧
    WriteShape ((freshLayout .write ambixinfo (created P disk _ ha)).present wantformat)
      (ambixinfo.ambichannels+ambixinfo.extrachannels)
  obtain ⟨-, hreal, hp⟩ | ⟨rfl, hreal, -⟩ | ⟨-, -, hp⟩ :=
    present_cases wantformat (freshLayout .write ambixinfo (created P disk _ ha))
  · rw [hp]
    exact ⟨rfl, rfl, ⟨hsource, rfl, fun h => by cases h⟩, fun _ => ⟨rfl, hreal⟩,
      fun h => by cases h⟩
  · exact absurd hreal (openedRealinfo_write rfl (openFormats_extended hformats))
  · rw [hp]
    exact ⟨rfl, rfl, ⟨hsource, rfl, fun _ => rfl⟩, fun h => (by cases h), fun h => by cases h⟩

end opening

/-! Runs. -/

section runs
variable {K : Type} [Field K] [LinearOrder K] {P : Platform K} {disk : Disk K} {info : Info}
  {h h' h0 : Handle K} {events : List (Event (Handle K) (Call K) (Answer K))}

theorem ReadShape.set {channels : UInt32} (hs : ReadShape h.toLayout channels)
    (hmode : h.filemode = .read) (A : AmbixMatrix K) :
    ReadShape (h.setAdaptormatrix A).2.toLayout channels := by
  have hout := setAdaptormatrix_outcome h A
  have hnowrite : ¬ h.filemode.canWrite = true := by
    rw [hmode]
    decide
  generalize h.setAdaptormatrix A = r at hout
  cases hout with
  | refused => exact hs
  | multiplied hread hinfo hreal hmtx =>
    refine ⟨⟨hs.source, hs.extra, fun h => by cases h⟩, hs.reduced, hs.stored, fun B hB => ?_⟩
    obtain ⟨m, hm, -, hcols⟩ := matrixMultiply_some A h.matrix h.matrix2
      ((matrixMultiply_isSome A h.matrix h.matrix2).mp (by rw [hmtx]; rfl))
    rw [← Option.some.inj hB, ← Option.some.inj (hm.symm.trans hmtx), hcols]
    exact hs.stored hreal
  | fellThrough hread hinfo hreal hcols =>
    refine ⟨⟨hs.source, hs.extra, fun h => by cases h⟩, hs.reduced, hs.stored, fun B hB => ?_⟩
    rw [← Option.some.inj hB]
    exact hcols
  | encoded _ hwrite => exact absurd hwrite hnowrite
  | stored hwrite => exact absurd hwrite hnowrite

theorem WriteShape.set {channels : UInt32} (hs : WriteShape h.toLayout channels)
    (hmode : h.filemode = .write) (A : AmbixMatrix K) :
    WriteShape (h.setAdaptormatrix A).2.toLayout channels := by
  have hout := setAdaptormatrix_outcome h A
  have hnoread : ¬ h.filemode.canRead = true := by
    rw [hmode]
    decide
  generalize h.setAdaptormatrix A = r at hout
  cases hout with
  | refused => exact hs
  | multiplied hread => exact absurd hread hnoread
  | fellThrough hread => exact absurd hread hnoread
  | encoded hread hwrite hinfo hfull hcols hpinv =>
    refine ⟨⟨hs.source, hs.extra, fun h => by cases h⟩, fun h => (by cases h), fun _ => ?_⟩
    obtain ⟨m, hm, hrows, -⟩ := matrixPinv_some A none
    rw [hcols, ← hrows, ← Option.some.inj (hm.symm.trans hpinv)]
  | stored hwrite hinfo hfull =>
    refine ⟨⟨hs.source, hs.extra, fun hnone => hs.raw ?_⟩, hs.unset, hs.encodes⟩
    rw [inUse_none] at hnone ⊢
    exact hnone

structure ReadHandle (h : Handle K) : Prop where
  filemode : h.filemode = .read
  mode : h.sf.mode = .read
  shape : ReadShape h.toLayout h.sf.file.channels

omit [LinearOrder K] in
theorem ReadShape.extra_eq {l : Layout K} {channels : UInt32} (hs : ReadShape l channels) :
    channels.toNat-l.realinfo.ambichannels.toNat = l.info.extrachannels.toNat := by
  have hsub := UInt32.toNat_sub_of_le _ _ hs.reduced
  rw [hs.extra, ← hsub, ← hs.source, UInt32.add_comm, UInt32.add_sub_cancel]

/-- A view of what a handle delivers, as wide as its destinations. -/
structure Delivers (h : Handle K) (V : FrameView K) : Prop extends Presents h V where
  ambi : V.ambi = h.stride.toNat
  extra : V.extra = h.info.extrachannels.toNat

omit [LinearOrder K] in
theorem ReadHandle.reads (hr : ReadHandle h) : h.sf.mode.canRead = true := by
  rw [hr.mode]
  rfl

omit [LinearOrder K] in
theorem ReadHandle.delivers_raw (hr : ReadHandle h) (hnone : h.inUse = none) :
    Delivers h (rawView K (UInt32.le_iff_toNat_le.mp hr.shape.reduced)) := by
  refine ⟨presents_raw hr.reads hnone hr.shape.source hr.shape.reduced, ?_, hr.shape.extra_eq⟩
  rw [Layout.stride, hnone, Option.map_none, Option.getD_none, hr.shape.raw hnone]
  rfl

omit [LinearOrder K] in
theorem ReadHandle.columns_le (hr : ReadHandle h) {A : AmbixMatrix K} (hA : h.inUse = some A) :
    A.cols ≤ h.sf.file.channels := by
  rw [hr.shape.columns A hA]
  exact hr.shape.reduced

omit [LinearOrder K] in
theorem ReadHandle.delivers_matrix (hr : ReadHandle h) {A : AmbixMatrix K}
    (hA : h.inUse = some A) :
    Delivers h (decodedView A (UInt32.le_iff_toNat_le.mp (hr.columns_le hA))) := by
  refine ⟨presents_decoded hr.reads hA hr.shape.source (hr.columns_le hA), ?_, ?_⟩
  · rw [Layout.stride, hA]
    rfl
  · rw [← hr.shape.extra_eq]
    exact congrArg (fun n : UInt32 => h.sf.file.channels.toNat-n.toNat) (hr.shape.columns A hA)

omit [LinearOrder K] in
theorem ReadHandle.delivers (hr : ReadHandle h) : ∃ V, Delivers h V := by
  cases hA : h.inUse with
  | none => exact ⟨_, hr.delivers_raw hA⟩
  | some A => exact ⟨_, hr.delivers_matrix hA⟩

/-- Read requests one after the other: the frames they deliver, as wide as the matrix in
use makes them. -/
def Handle.readOut (P : Platform K) (ts : List (Transfer K)) (h : Handle K) :
    Option (List (Frame K)) :=
  h.readAllIn P h.stride.toNat h.info.extrachannels.toNat ts

omit [LinearOrder K] in
theorem readOut_eq {V : FrameView K} (hV : Delivers h V) (ts : List (Transfer K)) :
    h.readOut P ts = h.readAllIn P V.ambi V.extra ts := by
  rw [Handle.readOut, hV.ambi, hV.extra]

theorem readHandle_run {call : Call K} {answer : Answer K} (hr : ReadHandle h)
    (hcall : call.run P h = .ok (answer, h')) : ReadHandle h' := by
  have hsame := run_sameFile hcall
  refine ⟨hsame.filemode.trans hr.filemode, hsame.mode.trans hr.mode, ?_⟩
  rw [hsame.channels]
  by_cases hset : ∃ A, call = .setAdaptormatrix A
  · obtain ⟨A, rfl⟩ := hset
    rw [← answered_state hcall]
    exact hr.shape.set hr.filemode A
  · rw [run_layout hcall fun A hA => hset ⟨A, hA⟩]
    exact hr.shape

theorem session_readHandle (hopen : ambixOpen P disk .read info = .ok (some h0))
    (hrun : Session P h0 events h) : ReadHandle h := by
  obtain ⟨hfilemode, hmode, -, hshape⟩ := ambixOpen_read_shape hopen
  exact hrun.preserves ReadHandle ⟨hfilemode, hmode, hshape⟩
    fun _ _ _ _ hcall hr => readHandle_run hr hcall

structure WriteHandle (h : Handle K) : Prop where
  filemode : h.filemode = .write
  mode : h.sf.mode = .write
  shape : WriteShape h.toLayout h.sf.file.channels

theorem writeHandle_run {call : Call K} {answer : Answer K} (hw : WriteHandle h)
    (hcall : call.run P h = .ok (answer, h')) : WriteHandle h' := by
  have hsame := run_sameFile hcall
  refine ⟨hsame.filemode.trans hw.filemode, hsame.mode.trans hw.mode, ?_⟩
  rw [hsame.channels]
  by_cases hset : ∃ A, call = .setAdaptormatrix A
  · obtain ⟨A, rfl⟩ := hset
    rw [← answered_state hcall]
    exact hw.shape.set hw.filemode A
  · rw [run_layout hcall fun A hA => hset ⟨A, hA⟩]
    exact hw.shape

theorem session_writeHandle (hopen : ambixOpen P disk .write info = .ok (some h0))
    (hrun : Session P h0 events h) : WriteHandle h := by
  obtain ⟨hfilemode, hmode, hshape⟩ := ambixOpen_write_shape hopen
  exact hrun.preserves WriteHandle ⟨hfilemode, hmode, hshape⟩
    fun _ _ _ _ hcall hw => writeHandle_run hw hcall

def Accepted (events : List (Event (Handle K) (Call K) (Answer K))) : Prop :=
  ∃ e ∈ events, ∃ A, e.call = .setAdaptormatrix A ∧ e.answer = .err .success

omit [LinearOrder K] in
theorem accepted_append {A : AmbixMatrix K} :
    Accepted (events ++ [⟨h, .setAdaptormatrix A, .err .success⟩]) :=
  ⟨_, List.mem_append_right _ List.mem_cons_self, A, rfl, rfl⟩

theorem setAdaptormatrix_useMatrix (h : Handle K) (A : AmbixMatrix K) :
    (h.setAdaptormatrix A).2.useMatrix = h.useMatrix ∨
      (h.setAdaptormatrix A).2.useMatrix = .matrix2 := by
  have hout := setAdaptormatrix_outcome h A
  generalize h.setAdaptormatrix A = r at hout
  cases hout with
  | refused => exact Or.inl rfl
  | multiplied => exact Or.inr rfl
  | fellThrough => exact Or.inr rfl
  | encoded => exact Or.inr rfl
  | stored => exact Or.inl rfl

theorem WriteShape.accepted {channels : UInt32} (hs : WriteShape h.toLayout channels)
    {A : AmbixMatrix K} (hset : (h.setAdaptormatrix A).1 = .success) :
    (h.setAdaptormatrix A).2.useMatrix ≠ .matrix := by
  have hout := setAdaptormatrix_outcome h A
  generalize h.setAdaptormatrix A = r at hout hset
  cases hout with
  | refused herr => exact absurd hset herr
  | multiplied => exact fun h => by cases h
  | fellThrough => exact fun h => by cases h
  | encoded => exact fun h => by cases h
  | stored hwrite hinfo hfull =>
    intro hmatrix
    exact absurd (hinfo.symm.trans (hs.unset hmatrix).1) (by decide)

theorem run_useMatrix {call : Call K} {answer : Answer K} (hne : h.useMatrix ≠ .matrix)
    (hcall : call.run P h = .ok (answer, h')) : h'.useMatrix ≠ .matrix := by
  by_cases hset : ∃ A, call = .setAdaptormatrix A
  · obtain ⟨A, rfl⟩ := hset
    rw [← answered_state hcall]
    cases setAdaptormatrix_useMatrix h A with
    | inl hsame => exact fun hmatrix => hne (hsame.symm.trans hmatrix)
    | inr hmatrix2 => exact fun hmatrix => by cases hmatrix2.symm.trans hmatrix
  · rw [congrArg Layout.useMatrix (run_layout hcall fun A hA => hset ⟨A, hA⟩)]
    exact hne

/-- With an accepted matrix a writing handle is ready to encode. -/
theorem encoder_of_accepted (hopen : ambixOpen P disk .write info = .ok (some h0))
    (hrun : Session P h0 events h) (hacc : Accepted events) : h.useMatrix ≠ .matrix := by
  obtain ⟨hfilemode, hmode, hshape⟩ := ambixOpen_write_shape hopen
  refine (hrun.invariant (fun events h => WriteHandle h ∧ (Accepted events → h.useMatrix ≠ .matrix))
    ⟨⟨hfilemode, hmode, hshape⟩, ?_⟩ ?_).2 hacc
  · rintro ⟨e, he, -⟩
    cases he
  · rintro events h call answer h' hcall ⟨hw, hacc⟩
    refine ⟨writeHandle_run hw hcall, ?_⟩
    rintro ⟨e, he, A, hset, hanswer⟩
    cases List.mem_append.mp he with
    | inl hold => exact run_useMatrix (hacc ⟨e, hold, A, hset, hanswer⟩) hcall
    | inr hnew =>
      rw [List.mem_singleton] at hnew
      subst hnew
      dsimp only at hset hanswer
      subst hset hanswer
      rw [← answered_state hcall]
      exact hw.shape.accepted (Answer.err.inj (congrArg Prod.fst (Except.ok.inj hcall)))

end runs
end Ambix
