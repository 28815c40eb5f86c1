import Ambix.AdaptorMatrix
import Ambix.Views
import Ambix.Writing

/-! From the frames a caller writes to the frames a caller reads: EXTENDED files written
and read as EXTENDED, and EXTENDED files written through the BASIC interface. -/
namespace Ambix
open Machine

/-! Reopening a recorded file. -/

section reopening
variable {K : Type} [Field K] {P Q : Platform K} {A : AmbixMatrix K} {channels : UInt32}
  {frames : List (List K)} {file : SoundFile K} {disk : Disk K}

/-- The entries are floats: their bit patterns give them back. -/
def Exact (P Q : Platform K) (A : AmbixMatrix K) : Prop :=
  ∀ r c, r < A.rows.toNat → c < A.cols.toNat → Q.number (P.word (A.data r c)) = A.data r c

/-- The stored matrix as the library finds it again: an empty one is not recognised. -/
theorem readUuidchunk_stored (order : ByteOrder)
    (hsize : 24+4*(A.rows.toNat*A.cols.toNat) < 2^64) (hexact : Exact P Q A) :
    readUuidchunk Q (decide (Q.host ≠ order)) [uuid1Bytes order P.word A] matrixNull =
      if 0 < A.rows.toNat ∧ 0 < A.cols.toNat then (.success, A) else (.unknown, matrixNull) := by
  have hlen := uuid1Bytes_length order P.word A
  have hholds := holds_payload order P.word A Q.behind
  rw [readUuidchunk, if_neg (by rw [hlen]; omega), if_pos (checkUUID_uuid1Bytes order P.word A)]
  by_cases hpos : 0 < A.rows.toNat ∧ 0 < A.cols.toNat
  · have hacc := accepts_encoded hholds _ hpos.1 hpos.2 (payload_toNat order P.word A hsize).ge
    rw [if_pos hpos, uuid1ToMatrix_accepts _ _ _ _ _ _ (by rwa [ByteOrder.swapIf_ne]),
      ByteOrder.swapIf_ne, payloadMatrix_encoded Q.number hholds hexact]
    rfl
  · have hrej := uuid1ToMatrix_rejects Q.host Q.number
      (view ((uuid1Bytes order P.word A).drop 16) Q.behind)
      (UInt64.ofNat ((uuid1Bytes order P.word A).length-16)) (some matrixNull)
      (decide (Q.host ≠ order)) fun hacc => by
        rw [ByteOrder.swapIf_ne] at hacc
        obtain ⟨-, hr, hc, -⟩ := hacc
        rw [payloadRows_encoded hholds] at hr
        rw [payloadCols_encoded hholds] at hc
        exact hpos ⟨hr, hc⟩
    rw [if_neg hpos]
    dsimp only
    rw [hrej.1, hrej.2]
    rfl

def reopened (Q : Platform K) (disk : Disk K) (file : SoundFile K) (A : AmbixMatrix K) :
    Opened K where
  sf := ⟨file, .read, 0, disk.chunkOk, 0⟩
  isAmbix := true
  format := if 0 < A.rows.toNat ∧ 0 < A.cols.toNat then .extended else .basic
  byteswap := decide (Q.host ≠ file.order)
  matrix := if 0 < A.rows.toNat ∧ 0 < A.cols.toNat then A else matrixNull

theorem backendOpen_recorded (hrec : Recorded P A channels frames file)
    (hfile : disk.existing = some file) (hsize : 24+4*(A.rows.toNat*A.cols.toNat) < 2^64)
    (hexact : Exact P Q A) (c : UInt32) :
    backendOpen Q disk .read c = .ok (some (reopened Q disk file A)) := by
  have hchunks : chunksOf .uuid file.chunks = [uuid1Bytes file.order P.word A] := by
    rw [hrec.chunks]
    rfl
  simp only [backendOpen, sfOpen, hfile, Option.map_some, hrec.container, hchunks,
    readUuidchunk_stored file.order hsize hexact, reopened]
  split <;> rfl

theorem ambixOpen_of_opened (hgrants : ∀ size, Q.grants size = true) (info : Info) {o : Opened K}
    (hback : backendOpen Q disk .read (info.ambichannels+info.extrachannels) = .ok (some o))
    (hann : readAnnotations Q o = .ok ([], [])) :
    ∃ h, ambixOpen Q disk .read info = .ok (some h) ∧ h.sf = o.sf ∧
      h.toLayout = (freshLayout .read info o).present info.fileformat := by
  have hsucc := adaptorbufferResize_granted hgrants
    ((freshLayout .read info o).present info.fileformat).info
    ((freshLayout .read info o).present info.fileformat).realinfo
    defaultAdaptorbufferSize 4 0 (by decide) (by decide) (by decide)
  exact ⟨_, ambixOpen_eq_some.mpr ⟨info, info.fileformat, o, [], [], rfl, hback, hann,
    Prod.ext hsucc rfl⟩, rfl, rfl⟩

theorem ambixOpen_recorded (hgrants : ∀ size, Q.grants size = true)
    (hrec : Recorded P A channels frames file) (hfile : disk.existing = some file)
    (hsize : 24+4*(A.rows.toNat*A.cols.toNat) < 2^64) (hexact : Exact P Q A) (info : Info) :
    ∃ h, ambixOpen Q disk .read info = .ok (some h) ∧ h.sf = ⟨file, .read, 0, disk.chunkOk, 0⟩ ∧
      h.toLayout = (freshLayout .read info (reopened Q disk file A)).present info.fileformat := by
  have hback := backendOpen_recorded hrec hfile hsize hexact (info.ambichannels+info.extrachannels)
  have hann : readAnnotations Q (reopened Q disk file A) = .ok ([], []) := by
    simp only [readAnnotations, reopened, hrec.chunks, if_true]
    rfl
  exact ambixOpen_of_opened hgrants info hback hann

theorem freshLayout_recorded (Q : Platform K) (disk : Disk K) (file : SoundFile K) (info : Info)
    (hfull : isFullset A.rows = true) :
    (0 < A.rows.toNat ∧ 0 < A.cols.toNat ∧ A.cols ≤ file.channels ∧
      freshLayout .read info (reopened Q disk file A) = extendedLayout A file.channels) ∨
    (¬ (0 < A.rows.toNat ∧ 0 < A.cols.toNat) ∧
      freshLayout .read info (reopened Q disk file A) = basicLayout matrixNull file.channels) ∨
    ((¬ (0 < A.rows.toNat ∧ 0 < A.cols.toNat) ∨ ¬ A.cols ≤ file.channels) ∧
      (freshLayout .read info (reopened Q disk file A)).realinfo.fileformat = .none) := by
  by_cases hpos : 0 < A.rows.toNat ∧ 0 < A.cols.toNat
  · have hformat : (reopened Q disk file A).format = .extended := if_pos hpos
    have hmatrix : (reopened Q disk file A).matrix = A := if_pos hpos
    obtain ⟨-, -, hcols, -, hreal⟩ | ⟨hno, -⟩ | ⟨hno, hreal⟩ :=
      openedRealinfo_read info (reopened Q disk file A)
    · rw [hmatrix] at hcols hreal
      refine Or.inl ⟨hpos.1, hpos.2, hcols, ?_⟩
      rw [freshLayout, hreal, hmatrix]
      rfl
    · exact absurd hformat hno
    · refine Or.inr (Or.inr ⟨Or.inr fun hcols => hno ⟨rfl, hformat, ?_, ?_⟩, hreal⟩)
      · rw [hmatrix]
        exact hcols
      · rw [hmatrix]
        exact hfull
  · have hformat : (reopened Q disk file A).format = .basic := if_neg hpos
    have hmatrix : (reopened Q disk file A).matrix = matrixNull := if_neg hpos
    obtain ⟨-, hext, -⟩ | ⟨-, -, hreal⟩ | ⟨-, hreal⟩ :=
      openedRealinfo_read info (reopened Q disk file A)
    · cases hformat.symm.trans hext
    · refine Or.inr (Or.inl ⟨hpos, ?_⟩)
      rw [freshLayout, hreal, hmatrix]
      rfl
    · exact Or.inr (Or.inr ⟨Or.inl hpos, hreal⟩)

/-- Read requests get `fs` from its start on, in whatever portions they ask for it, and they are
answered if the channels can be counted. -/
def ReadsBack (Q : Platform K) (h : Handle K) (fs : List (Frame K)) : Prop :=
  (∀ ts gs, h.readAll Q ts = some gs → gs = fs.take (total ts)) ∧
    (h.bufferChannels < 2^32 → ∀ ts : List (Transfer K), (∀ t ∈ ts, t.frames < 2^29) →
      ∃ gs, h.readAll Q ts = some gs)

theorem recorded_view {V : FrameView K} {h : Handle K} (hgrants : ∀ size, Q.grants size = true)
    (hrec : Recorded P A channels frames file) (hsf : h.sf = ⟨file, .read, 0, disk.chunkOk, 0⟩)
    (hcovered : h.sf.file.channels.toNat ≤ h.bufferChannels) (hs : Shows h V) :
    ReadsBack Q h (frames.map V.decode) := by
  have hpos : h.sf.position = 0 := by rw [hsf]
  have hframes : h.sf.file.frames = frames := by rw [hsf, hrec.frames]
  refine ⟨fun ts gs hgs => ?_,
    fun hwrap ts hts => readAll_answered hgrants ts h ⟨hcovered, hwrap⟩ hts⟩
  rw [readAll_shows hs hgs, hpos, hframes, List.drop_zero, List.map_take]

structure Fits (P Q : Platform K) (A : AmbixMatrix K) (channels : UInt32) : Prop where
  grants : ∀ size, Q.grants size = true
  exact : Exact P Q A
  size : 24+4*(A.rows.toNat*A.cols.toNat) < 2^64
  fullset : isFullset A.rows = true
  rows : 0 < A.rows.toNat
  cols : 0 < A.cols.toNat
  reduced : A.cols ≤ channels

theorem recorded_layout (hfit : Fits P Q A channels) (hrec : Recorded P A channels frames file)
    (hfile : disk.existing = some file) (info : Info) : ∃ g,
      ambixOpen Q disk .read info = .ok (some g) ∧ g.sf = ⟨file, .read, 0, disk.chunkOk, 0⟩ ∧
      g.toLayout = (extendedLayout A channels).present info.fileformat := by
  obtain ⟨g, hopen, hsf, hl⟩ := ambixOpen_recorded hfit.grants hrec hfile hfit.size hfit.exact info
  refine ⟨g, hopen, hsf, ?_⟩
  have hcols := hfit.reduced
  rw [← hrec.channels] at hcols ⊢
  obtain ⟨-, -, -, hfresh⟩ | ⟨hno, -⟩ | ⟨hno, -⟩ :=
    freshLayout_recorded Q disk file info hfit.fullset
  · rw [hl, hfresh]
  · exact absurd ⟨hfit.rows, hfit.cols⟩ hno
  · exact absurd (hno.resolve_left (not_not_intro ⟨hfit.rows, hfit.cols⟩)) (not_not_intro hcols)

theorem recorded_extended (hfit : Fits P Q A channels) (hrec : Recorded P A channels frames file)
    (hfile : disk.existing = some file) {info : Info} (hinfo : info.fileformat = .extended) : ∃ g,
      ambixOpen Q disk .read info = .ok (some g) ∧ g.toLayout = extendedLayout A channels ∧
      ReadsBack Q g (frames.map fun fr => (fr.take A.cols.toNat, fr.drop A.cols.toNat)) := by
  obtain ⟨g, hopen, hsf, hl⟩ := recorded_layout hfit hrec hfile info
  rw [hinfo] at hl
  have hch : g.sf.file.channels = channels := by rw [hsf, hrec.channels]
  have hshows := shows_extended (by rw [hsf]; rfl) (by rw [hch]; exact hl)
    (by rw [hch]; exact hfit.reduced)
  have hcovered : channels.toNat ≤ g.bufferChannels :=
    source_covered (by rw [hl]; exact reduced_add_extra)
  exact ⟨g, hopen, hl, recorded_view hfit.grants hrec hsf (hch ▸ hcovered) hshows⟩

theorem recorded_basic (hfit : Fits P Q A channels) (hrec : Recorded P A channels frames file)
    (hfile : disk.existing = some file) {info : Info} (hinfo : info.fileformat = .basic) : ∃ g,
      ambixOpen Q disk .read info = .ok (some g) ∧ g.toLayout = decodedLayout A channels ∧
      ReadsBack Q g (frames.map fun fr => (mix id id A fr, fr.drop A.cols.toNat)) := by
  obtain ⟨g, hopen, hsf, hl⟩ := recorded_layout hfit hrec hfile info
  rw [hinfo] at hl
  have hch : g.sf.file.channels = channels := by rw [hsf, hrec.channels]
  have hshows := shows_decodedLayout (by rw [hsf]; rfl) (by rw [hch]; exact hl)
    (by rw [hch]; exact hfit.reduced)
  have hcovered : channels.toNat ≤ g.bufferChannels :=
    source_covered (by rw [hl]; exact reduced_add_extra)
  exact ⟨g, hopen, hl, recorded_view hfit.grants hrec hsf (hch ▸ hcovered) hshows⟩

end reopening

/-! Opening for writing and setting a matrix. -/

section start
variable {K : Type} [Field K] {P : Platform K} {disk : Disk K} {C : FrameCoder K}

theorem writing_start {ambixinfo : Info} {size : UInt64} {l : Layout K} {h1 : Handle K}
    {ha : disk.accepts (ambixinfo.ambichannels+ambixinfo.extrachannels) = true}
    (hchunks : ∀ k, disk.chunkOk k = true)
    (hmode : l.filemode.canWrite = true) (hreal : l.realinfo.fileformat = .extended)
    (htakes : Takes l C) (hcols : l.matrix.Columned)
    (hsize : 24+4*(l.matrix.rows.toNat*l.matrix.cols.toNat) < 2^64)
    (hwidth : (ambixinfo.ambichannels+ambixinfo.extrachannels).toNat = C.channels)
    (hh : h1 = { freshHandle .write ambixinfo (created P disk _ ha) [] [] with
      adaptorbuffersize := size
      toLayout := l
      pendingHeaders := true }) :
    Writing P l C (ambixinfo.ambichannels+ambixinfo.extrachannels) h1 [] := by
  subst hh
  exact {
    layout := rfl
    extended := ⟨hmode, hreal⟩
    takes := htakes
    columned := hcols
    size := hsize
    markers := rfl
    regions := rfl
    writes := rfl
    chunkOk := hchunks
    byteswap := rfl
    width := hwidth
    container := rfl
    channels := rfl
    chunks := rfl
    frames := rfl
    position := rfl }

end start

/-! EXTENDED files. -/

section extended
variable {K : Type} [Field K] {P Q : Platform K} {disk : Disk K} {a e : UInt32}
  {A : AmbixMatrix K} {h h0 h1 h2 : Handle K} {ts : List (Transfer K)} {C : FrameCoder K}
  {fs : List (Frame K)}

/-- Closing `h` leaves a file that reads, opened as EXTENDED, as `a` ambisonics and `e`
extra channels with the matrix `A` and the frames `fs`. -/
def KeepsLayout (P Q : Platform K) (h : Handle K) (a e : UInt32) (A : AmbixMatrix K)
    (fs : List (Frame K)) : Prop :=
  ∃ file, h.close P = .ok (.success, file) ∧ ∀ (disk : Disk K) (info : Info),
    disk.existing = some file → info.fileformat = .extended → ∃ g,
      ambixOpen Q disk .read info = .ok (some g) ∧ g.info = ⟨.extended, e, a⟩ ∧
      g.getAdaptormatrix = some A ∧ g.bufferChannels < 2^32 ∧ ReadsBack Q g fs

def writtenLayout (a e : UInt32) (A : AmbixMatrix K) : Layout K :=
  ⟨.write, ⟨.extended, e, a⟩, ⟨.extended, e, a⟩, A, matrixNull, .none⟩

def plainLayout (n : UInt32) : Layout K :=
  ⟨.write, ⟨.basic, 0, n⟩, ⟨.basic, 0, n⟩, matrixNull, matrixNull, .none⟩

theorem toNat_channels (hwrap : a.toNat+e.toNat < 2^32) : (a+e).toNat = a.toNat+e.toNat := by
  rw [UInt32.toNat_add, Nat.mod_eq_of_lt hwrap]

theorem toNat_pos {n : UInt32} : 0 < n.toNat ↔ n ≠ 0 := by
  rw [Nat.pos_iff_ne_zero, ne_eq, ne_eq, ← UInt32.toNat_inj]
  rfl

omit [Field K] in
theorem raw_decode :
    ((rawCoder K a.toNat e.toNat).code (sent a.toNat e.toNat ts)).map
      (fun fr => (fr.take a.toNat, fr.drop a.toNat)) = sent a.toNat e.toNat ts := by
  rw [FrameCoder.code, List.map_map]
  refine (List.map_congr_left fun f hf => ?_).trans (List.map_id _)
  obtain ⟨t, -, hf⟩ := List.mem_flatMap.mp hf
  obtain ⟨hx, -⟩ := sent_width hf
  change ((f.1 ++ f.2).take a.toNat, (f.1 ++ f.2).drop a.toNat) = f
  rw [List.take_left' hx, List.drop_left' hx]

theorem stored_channels (hwrap : a.toNat+e.toNat < 2^32) :
    max a.toNat a.toNat+max e.toNat e.toNat < 2^32 := by
  rwa [Nat.max_self, Nat.max_self]

theorem keepsLayout_of (hwrap : a.toNat+e.toNat < 2^32)
    (hfit : Fits P Q A (a+e)) (hcols : A.cols = a)
    (hw : Writing P (writtenLayout a e A) (rawCoder K a.toNat e.toNat) (a+e) h
      (sent a.toNat e.toNat ts)) :
    KeepsLayout P Q h a e A (sent a.toNat e.toNat ts) := by
  subst hcols
  obtain ⟨file, hclose, hrec⟩ := close_writing hw
  refine ⟨file, hclose, fun disk info hfile hinfo => ?_⟩
  obtain ⟨g, hopen, hl, hback⟩ := recorded_extended hfit hrec hfile hinfo
  rw [raw_decode] at hback
  have hextra : A.cols+e-A.cols = e := by rw [UInt32.add_comm, UInt32.add_sub_cancel]
  refine ⟨g, hopen, ?_, ?_, ?_, hback⟩
  · rw [hl, extendedLayout, hextra]
  · rw [Handle.getAdaptormatrix, hl]
    rfl
  · rw [hl, extendedLayout, hextra]
    exact stored_channels hwrap

def Disk.holding (file : SoundFile K) : Disk K where
  existing := some file
  accepts _ := false
  accepts_int _ h := by cases h
  order := file.order
  chunkOk _ := false

theorem matrix_of_keepsLayout (hgrants : ∀ size, Q.grants size = true) (hexact : Exact P Q A)
    (hfull : isFullset A.rows = true) (hw : Writing P (writtenLayout a e A) C (a+e) h fs)
    (hkeep : KeepsLayout P Q h a e A fs) : A.cols = a ∧ A.rows ≠ 0 := by
  obtain ⟨file, hclose, hrec⟩ := close_writing hw
  obtain ⟨file', hclose', hreads⟩ := hkeep
  obtain rfl : file = file' := congrArg Prod.snd (Except.ok.inj (hclose.symm.trans hclose'))
  obtain ⟨g, hopen, hinfo, hmatrix, -⟩ := hreads (.holding file) ⟨.extended, 0, 0⟩ rfl rfl
  obtain ⟨g', hopen', -, hl⟩ :=
    ambixOpen_recorded hgrants hrec (show (Disk.holding file).existing = some file from rfl)
      hw.size hexact ⟨.extended, 0, 0⟩
  obtain rfl : g = g' := Option.some.inj (Except.ok.inj (hopen.symm.trans hopen'))
  change g.toLayout = (freshLayout .read ⟨.extended, 0, 0⟩
    (reopened Q (.holding file) file A)).present .extended at hl
  obtain ⟨hrows, -, -, hfresh⟩ | ⟨hempty, hfresh⟩ | ⟨-, hnone⟩ :=
    freshLayout_recorded Q (.holding file) file ⟨.extended, 0, 0⟩ hfull
  · rw [hfresh] at hl
    refine ⟨?_, toNat_pos.mp hrows⟩
    have hambi := congrArg (fun l => l.info.ambichannels) hl
    rw [hinfo] at hambi
    exact hambi.symm
  · -- the identity that stands for no matrix has rows and columns
    have hid : g.getAdaptormatrix =
        some (fillIdentity (matrixInit file.channels file.channels)) := by
      rw [Handle.getAdaptormatrix, hl, hfresh]
      rfl
    have hA := Option.some.inj (hid.symm.trans hmatrix)
    have hpos := file.channels_pos
    have hr : A.rows = file.channels := by rw [← hA]; exact (fillEntries_size _ _).1
    have hc : A.cols = file.channels := by rw [← hA]; exact (fillEntries_size _ _).2
    rw [hr, hc] at hempty
    exact absurd ⟨hpos, hpos⟩ hempty
  · obtain ⟨hno, -⟩ | ⟨-, hno, -⟩ | ⟨-, -, hp⟩ := present_cases .extended
      (freshLayout .read ⟨.extended, 0, 0⟩ (reopened Q (.holding file) file A))
    · cases hno
    · exact absurd (hnone.symm.trans hno) (by decide)
    · rw [hp] at hl
      have hformat := congrArg (fun l => l.info.fileformat) hl
      rw [hinfo] at hformat
      cases hformat.trans hnone

variable [LinearOrder K]

omit [LinearOrder K] in
theorem columned_of_close (hpending : h.pendingHeaders = true)
    (hmode : h.filemode.canWrite = true) (hreal : h.realinfo.fileformat = .extended)
    (hsize : 24+4*(h.matrix.rows.toNat*h.matrix.cols.toNat) < 2^64)
    (hwrite : h.writeAll P ts = .ok (some h2)) {r : Err × SoundFile K}
    (hclose : h2.close P = .ok r) : h.matrix.Columned := by
  have hheader {g : Err × Handle K} (hg : h.writePending P = .ok g) : h.matrix.Columned := by
    rw [Handle.writePending, if_pos hpending] at hg
    exact writeHeader_columned hg hmode hreal hsize
  cases ts with
  | nil =>
    obtain rfl : h = h2 := Option.some.inj (Except.ok.inj hwrite)
    rw [Handle.close, if_pos hmode] at hclose
    obtain ⟨g, hg, -⟩ := bind_eq_ok.mp hclose
    exact hheader hg
  | cons t ts =>
    obtain ⟨⟨result, g⟩, hg, hrest⟩ := bind_eq_ok.mp hwrite
    cases result with
    | error err => cases hrest
    | ok k =>
      obtain ⟨g', size, hcheck, -⟩ := writef_ok hg
      obtain ⟨g'', hpend, -⟩ := checkWrite_success hcheck
      exact hheader hpend

theorem extended_set (hopen : ambixOpen P disk .write ⟨.extended, e, a⟩ = .ok (some h0))
    (hset : h0.setAdaptormatrix A = (.success, h1)) :
    h1.toLayout = writtenLayout a e A ∧ h1.pendingHeaders = true := by
  obtain ⟨ambixinfo, wantformat, size, ha, hformats, rfl⟩ := ambixOpen_write hopen
  obtain ⟨rfl, rfl⟩ := Prod.mk.inj (Option.some.inj hformats)
  obtain ⟨-, rfl⟩ := stored_of_success rfl hset
  exact ⟨rfl, rfl⟩

theorem extended_start (hopen : ambixOpen P disk .write ⟨.extended, e, a⟩ = .ok (some h0))
    (hset : h0.setAdaptormatrix A = (.success, h1)) (hchunks : ∀ k, disk.chunkOk k = true)
    (hwrap : a.toNat+e.toNat < 2^32) (hcols : A.Columned)
    (hsize : 24+4*(A.rows.toNat*A.cols.toNat) < 2^64) :
    isFullset A.rows = true ∧
      Writing P (writtenLayout a e A) (rawCoder K a.toNat e.toNat) (a+e) h1 [] := by
  obtain ⟨ambixinfo, wantformat, size, ha, hformats, rfl⟩ := ambixOpen_write hopen
  obtain ⟨rfl, rfl⟩ := Prod.mk.inj (Option.some.inj hformats)
  obtain ⟨hfull, hh⟩ := stored_of_success rfl hset
  exact ⟨hfull, writing_start hchunks rfl rfl (takes_raw rfl) hcols hsize (toNat_channels hwrap) hh⟩

/-- The round trip of an EXTENDED file holds exactly for the matrices that take its
ambisonics channels and are not empty. -/
theorem keepsLayout_iff (ha : a ≠ 0) (hwrap : a.toNat+e.toNat < 2^32)
    (hopen : ambixOpen P disk .write ⟨.extended, e, a⟩ = .ok (some h0))
    (hset : h0.setAdaptormatrix A = (.success, h1)) (hwrite : h1.writeAll P ts = .ok (some h2))
    (hchunks : ∀ k, disk.chunkOk k = true) (hgrants : ∀ size, Q.grants size = true)
    (hexact : Exact P Q A) (hsize : 24+4*(A.rows.toNat*A.cols.toNat) < 2^64) :
    KeepsLayout P Q h2 a e A (sent a.toNat e.toNat ts) ↔ A.cols = a ∧ A.rows ≠ 0 := by
  by_cases hcols : A.Columned
  swap
  · -- the header cannot be written
    obtain ⟨hl, hpending⟩ := extended_set hopen hset
    refine ⟨fun ⟨file, hclose, _⟩ => absurd ?_ hcols, fun hA => ?_⟩
    · have hcolumned := columned_of_close hpending (by rw [hl]; rfl) (by rw [hl]; rfl)
        (by rw [hl]; exact hsize) hwrite hclose
      rwa [hl] at hcolumned
    · exact absurd (fun _ => toNat_pos.mpr (hA.1 ▸ ha)) hcols
  obtain ⟨hfull, hstart⟩ := extended_start hopen hset hchunks hwrap hcols hsize
  have hw := writeAll_writing hstart hwrite
  rw [List.nil_append] at hw
  constructor
  · exact matrix_of_keepsLayout hgrants hexact hfull hw
  · rintro ⟨rfl, hrows⟩
    have hle : A.cols ≤ A.cols+e := by
      rw [UInt32.le_iff_toNat_le, toNat_channels hwrap]
      omega
    exact keepsLayout_of hwrap ⟨hgrants, hexact, hsize, hfull, toNat_pos.mpr hrows,
      toNat_pos.mpr ha, hle⟩ rfl hw

end extended

def unitTransfer : Transfer ℚ := ⟨.float32, fun _ => 1, fun _ => 0, 1⟩

theorem unitMatrix_exact (rows cols : UInt32) :
    Exact unitPlatform unitPlatform (unitMatrix rows cols) := by
  intro r c hr hc
  have hentry : (unitMatrix rows cols).data r c = 1 := AmbixMatrix.ofFn_data hr hc
  rw [hentry]
  rfl

theorem swapMatrix_exact : Exact unitPlatform unitPlatform swapMatrix := by
  intro r c hr hc
  rw [show swapMatrix.data r c = if r+c = 1 then 1 else 0 from AmbixMatrix.ofFn_data hr hc]
  split <;> rfl

def threeFrames : Transfer ℚ := ⟨.float32, fun i => i+1, fun i => -i, 3⟩

def twoRequests : List (Transfer ℚ) := [threeFrames, ⟨.int16, fun _ => 1, fun _ => 0, 1⟩]

/-- Two ambisonics channels and an extra one, with the matrix that swaps the former. -/
theorem keepsLayout_iff_reduced : ∃ h0 h1 h2 : Handle ℚ,
    ambixOpen unitPlatform (unitDisk none) .write ⟨.extended, 1, 2⟩ = .ok (some h0) ∧
    h0.setAdaptormatrix swapMatrix = (.success, h1) ∧
    h1.writeAll unitPlatform twoRequests = .ok (some h2) ∧
    KeepsLayout unitPlatform unitPlatform h2 2 1 swapMatrix (sent 2 1 twoRequests) := by
  obtain ⟨h0, h1, hopen, hset⟩ : ∃ h0 h1 : Handle ℚ,
      ambixOpen unitPlatform (unitDisk none) .write ⟨.extended, 1, 2⟩ = .ok (some h0) ∧
      h0.setAdaptormatrix swapMatrix = (.success, h1) := by
    with_unfolding_all exact ⟨_, _, rfl, rfl⟩
  obtain ⟨hfull, hstart⟩ := extended_start hopen hset (fun _ => rfl) (by decide)
    (fun _ => by decide) (by decide)
  obtain ⟨h2, hwrite⟩ := writeAll_answered twoRequests hstart hfull (fun _ => rfl) (by decide)
    (by decide) (by decide)
  exact ⟨h0, h1, h2, hopen, hset, hwrite, (keepsLayout_iff (by decide) (by decide) hopen hset hwrite
    (fun _ => rfl) (fun _ => rfl) swapMatrix_exact (by decide)).mpr ⟨rfl, by decide⟩⟩

/-- A 1 by 2 matrix on a file of one ambisonics and one extra channel. -/
theorem keepsLayout_fails : ∃ h0 h1 h2 : Handle ℚ,
    ambixOpen unitPlatform (unitDisk none) .write ⟨.extended, 1, 1⟩ = .ok (some h0) ∧
    h0.setAdaptormatrix (unitMatrix 1 2) = (.success, h1) ∧
    h1.writeAll unitPlatform [unitTransfer] = .ok (some h2) ∧
    ¬ KeepsLayout unitPlatform unitPlatform h2 1 1 (unitMatrix 1 2)
      (sent 1 1 [unitTransfer]) := by
  obtain ⟨h0, h1, h2, hopen, hset, hwrite⟩ : ∃ h0 h1 h2 : Handle ℚ,
      ambixOpen unitPlatform (unitDisk none) .write ⟨.extended, 1, 1⟩ = .ok (some h0) ∧
      h0.setAdaptormatrix (unitMatrix 1 2) = (.success, h1) ∧
      h1.writeAll unitPlatform [unitTransfer] = .ok (some h2) := ⟨_, _, _, rfl, rfl, rfl⟩
  obtain ⟨hfull, hstart⟩ := extended_start hopen hset (fun _ => rfl) (by decide)
    (fun _ => by decide) (by decide)
  refine ⟨h0, h1, h2, hopen, hset, hwrite, fun hkeep => ?_⟩
  have hcols := (matrix_of_keepsLayout (fun _ => rfl) (unitMatrix_exact 1 2) hfull
    (writeAll_writing hstart hwrite) hkeep).1
  exact absurd hcols (by decide)

/-! EXTENDED files through the BASIC interface. -/

section basic
variable {K : Type} [Field K] {P Q : Platform K} {disk : Disk K} {a e : UInt32}
  {A pinv : AmbixMatrix K} {h h0 h1 h2 : Handle K} {ts : List (Transfer K)} {fs : List (Frame K)}

/-- Closing `h` leaves a file of `a+e` channels. Read as EXTENDED it gives back `A` and the
frames encoded by the pseudo-inverse of `A`, read as BASIC these frames decoded by `A`. -/
def EncodesDecodes [LinearOrder K] (P Q : Platform K) (h : Handle K) (a e : UInt32)
    (A : AmbixMatrix K) (fs : List (Frame K)) : Prop :=
  ∃ file pinv, h.close P = .ok (.success, file) ∧ (matrixPinv A none).ret = some pinv ∧
    file.channels.toNat = a.toNat+e.toNat ∧ ∀ (disk : Disk K) (info : Info),
      disk.existing = some file →
      (info.fileformat = .extended → ∃ g, ambixOpen Q disk .read info = .ok (some g) ∧
        g.info = ⟨.extended, e, a⟩ ∧ g.getAdaptormatrix = some A ∧ g.bufferChannels < 2^32 ∧
        ReadsBack Q g (fs.map fun f => (mix id id pinv f.1, f.2))) ∧
      (info.fileformat = .basic → ∃ g, ambixOpen Q disk .read info = .ok (some g) ∧
        g.info = ⟨.basic, e, A.rows⟩ ∧ g.bufferChannels = max A.rows.toNat a.toNat+e.toNat ∧
        ReadsBack Q g (fs.map fun f => (mix id id A (mix id id pinv f.1), f.2)))

def encodedLayout (a e : UInt32) (A pinv : AmbixMatrix K) : Layout K :=
  ⟨.write, ⟨.basic, e, A.rows⟩, ⟨.extended, e, a⟩, A, pinv, .matrix2⟩

theorem encoder_room (hp : pinv.rows = a) :
    (matrixCoder pinv e.toNat).channels ≤ (encodedLayout a e A pinv).bufferChannels := by
  rw [← hp]
  exact Nat.add_le_add (Nat.le_max_right _ _) (Nat.le_max_left _ _)

theorem encoded_decode (g : List K → List K) (hp : pinv.rows = a) :
    ((matrixCoder pinv e.toNat).code fs).map (fun fr => (g (fr.take a.toNat), fr.drop a.toNat)) =
      fs.map fun f => (g (mix id id pinv f.1), f.2) := by
  rw [FrameCoder.code, List.map_map]
  refine List.map_congr_left fun f _ => ?_
  have hlen : (mix id id pinv f.1).length = a.toNat := by rw [mix_length, hp]
  change (g ((mix id id pinv f.1 ++ f.2).take a.toNat),
    (mix id id pinv f.1 ++ f.2).drop a.toNat) = _
  rw [List.take_left' hlen, List.drop_left' hlen]

variable [LinearOrder K]

theorem encodesDecodes_of (hwrap : a.toNat+e.toNat < 2^32) (hfit : Fits P Q A (a+e))
    (hcols : A.cols = a) (hpinv : (matrixPinv A none).ret = some pinv) (hp : pinv.rows = a)
    (hw : Writing P (encodedLayout a e A pinv) (matrixCoder pinv e.toNat) (a+e) h fs) :
    EncodesDecodes P Q h a e A fs := by
  subst hcols
  obtain ⟨file, hclose, hrec⟩ := close_writing hw
  have hextra : A.cols+e-A.cols = e := by rw [UInt32.add_comm, UInt32.add_sub_cancel]
  refine ⟨file, pinv, hclose, hpinv, by rw [hrec.channels, toNat_channels hwrap],
    fun disk info hfile => ⟨fun hinfo => ?_, fun hinfo => ?_⟩⟩
  · obtain ⟨g, hopen, hl, hback⟩ := recorded_extended hfit hrec hfile hinfo
    rw [encoded_decode (fun x => x) hp] at hback
    refine ⟨g, hopen, ?_, ?_, ?_, hback⟩
    · rw [hl, extendedLayout, hextra]
    · rw [Handle.getAdaptormatrix, hl]
      rfl
    · rw [hl, extendedLayout, hextra]
      exact stored_channels hwrap
  · obtain ⟨g, hopen, hl, hback⟩ := recorded_basic hfit hrec hfile hinfo
    have htake : (fun fr => (mix id id A fr, fr.drop A.cols.toNat)) =
        fun fr => (mix id id A (fr.take A.cols.toNat), fr.drop A.cols.toNat) :=
      funext fun fr => by rw [mix_take]
    rw [htake, encoded_decode (mix id id A) hp] at hback
    refine ⟨g, hopen, by rw [hl, decodedLayout, hextra], ?_, hback⟩
    rw [hl, decodedLayout, hextra, Layout.bufferChannels, Nat.max_self]

theorem openFormats_basic {ambixinfo : Info} {wantformat : FileFormat}
    (hf : openFormats .write ⟨.basic, e, a⟩ = some (ambixinfo, wantformat)) : wantformat = .basic ∧
      (e = 0 ∧ ambixinfo = ⟨.basic, 0, a⟩ ∨ ambixinfo = ⟨.extended, e, a⟩) := by
  by_cases hcheck : checkWriteAmbixinfo ⟨.basic, e, a⟩ = .success
  · have hr : openFormats .write ⟨.basic, e, a⟩ = some (⟨.basic, e, a⟩, .basic) := if_pos hcheck
    obtain ⟨rfl, rfl⟩ := Prod.mk.inj (Option.some.inj (hf.symm.trans hr))
    have he : e = 0 := by
      by_contra hne
      rw [checkWriteAmbixinfo, if_pos (UInt32.pos_iff_ne_zero.mpr hne)] at hcheck
      cases hcheck
    exact ⟨rfl, Or.inl ⟨he, by rw [he]⟩⟩
  · have hr : openFormats .write ⟨.basic, e, a⟩ = some (⟨.extended, e, a⟩, .basic) := if_neg hcheck
    obtain ⟨rfl, rfl⟩ := Prod.mk.inj (Option.some.inj (hf.symm.trans hr))
    exact ⟨rfl, Or.inr rfl⟩

/-- Both ways of `ambix_open` into a handle that encodes end in one layout once the matrix
is set. -/
theorem basic_start (hopen : ambixOpen P disk .write ⟨.basic, e, a⟩ = .ok (some h0))
    (hset : h0.setAdaptormatrix A = (.success, h1)) (hchunks : ∀ k, disk.chunkOk k = true)
    (hwrap : a.toNat+e.toNat < 2^32) (ha : a ≠ 0)
    (hsize : 24+4*(A.rows.toNat*A.cols.toNat) < 2^64) :
    isFullset A.rows = true ∧ A.cols = a ∧ ∃ pinv, (matrixPinv A none).ret = some pinv ∧
      pinv.rows = a ∧ pinv.cols = A.rows ∧
      Writing P (encodedLayout a e A pinv) (matrixCoder pinv e.toNat) (a+e) h1 [] := by
  obtain ⟨m, hm, hmrows, hmcols⟩ := matrixPinv_some A none
  obtain ⟨ambixinfo, wantformat, size, haccepts, hformats, rfl⟩ := ambixOpen_write hopen
  obtain ⟨rfl, hcases⟩ := openFormats_basic hformats
  have hwidth (hA : A.cols = a) : (a+e).toNat = (matrixCoder m e.toNat).channels := by
    change _ = m.rows.toNat+e.toNat
    rw [toNat_channels hwrap, hmrows, hA]
  have hcolumned (hA : A.cols = a) : A.Columned := fun _ => toNat_pos.mpr (hA ▸ ha)
  obtain ⟨rfl, rfl⟩ | rfl := hcases
  · obtain ⟨hfull, hcols, pinv, hpinv, hh⟩ := encoded_of_success rfl rfl hset
    obtain rfl : m = pinv := Option.some.inj (hm.symm.trans hpinv)
    have hA : A.cols = a := hcols.symm.trans (UInt32.add_zero a)
    have hw : Writing P (encodedLayout (a+0) 0 A m) (matrixCoder m (UInt32.toNat 0)) (a+0) h1 [] :=
      writing_start hchunks rfl rfl (takes_matrix2 rfl) (hcolumned hA) hsize (hwidth hA) hh
    have hl : encodedLayout (a+0) 0 A m = encodedLayout a 0 A m := by rw [UInt32.add_zero]
    rw [hl] at hw
    exact ⟨hfull, hA, m, hpinv, hmrows.trans hA, hmcols, hw⟩
  · obtain ⟨hfull, hcols, pinv, hpinv, hh⟩ := encoded_of_success rfl rfl hset
    obtain rfl : m = pinv := Option.some.inj (hm.symm.trans hpinv)
    exact ⟨hfull, hcols.symm, m, hpinv, hmrows.trans hcols.symm, hmcols,
      writing_start hchunks rfl rfl (takes_matrix2 rfl) (hcolumned hcols.symm) hsize
        (hwidth hcols.symm) hh⟩

/-- Writing through the BASIC interface, without a channel count that wraps. -/
theorem encodesDecodes (ha : a ≠ 0) (hwrap : a.toNat+e.toNat < 2^32)
    (hopen : ambixOpen P disk .write ⟨.basic, e, a⟩ = .ok (some h0)) (hrows : A.rows ≠ 0)
    (hset : h0.setAdaptormatrix A = (.success, h1)) (hwrite : h1.writeAll P ts = .ok (some h2))
    (hchunks : ∀ k, disk.chunkOk k = true) (hgrants : ∀ size, Q.grants size = true)
    (hexact : Exact P Q A) (hsize : 24+4*(A.rows.toNat*A.cols.toNat) < 2^64) :
    EncodesDecodes P Q h2 a e A (sent A.rows.toNat e.toNat ts) := by
  obtain ⟨hfull, rfl, pinv, hpinv, hp, hpcols, hstart⟩ :=
    basic_start hopen hset hchunks hwrap ha hsize
  have hw := writeAll_writing hstart hwrite
  have hsent : [] ++ sent (matrixCoder pinv e.toNat).ambi (matrixCoder pinv e.toNat).extra ts =
      sent A.rows.toNat e.toNat ts := by
    rw [List.nil_append, ← hpcols]
    rfl
  rw [hsent] at hw
  have hle : A.cols ≤ A.cols+e := by
    rw [UInt32.le_iff_toNat_le, toNat_channels hwrap]
    omega
  exact encodesDecodes_of hwrap ⟨hgrants, hexact, hsize, hfull, toNat_pos.mpr hrows,
    toNat_pos.mpr ha, hle⟩ rfl hpinv hp hw

end basic

/-- The full set encoded into two channels beside an extra one. -/
theorem swapMatrix_encodes : ∃ h0 h1 : Handle ℚ,
    ambixOpen unitPlatform (unitDisk none) .write ⟨.basic, 1, 2⟩ = .ok (some h0) ∧
    h0.setAdaptormatrix swapMatrix = (.success, h1) := by
  obtain ⟨h0, hopen, hread, hwrite, hinfo, hstarted, hambi⟩ : ∃ h0 : Handle ℚ,
      ambixOpen unitPlatform (unitDisk none) .write ⟨.basic, 1, 2⟩ = .ok (some h0) ∧
      h0.filemode.canRead = false ∧ h0.filemode.canWrite = true ∧ h0.info.fileformat = .basic ∧
      h0.startedWriting = false ∧ h0.realinfo.ambichannels = swapMatrix.cols := by
    with_unfolding_all exact ⟨_, rfl, rfl, rfl, rfl, rfl, rfl⟩
  obtain ⟨_, -, hset⟩ := setAdaptormatrix_encodes hread hwrite hinfo hstarted
    (by decide +kernel : isFullset swapMatrix.rows = true) hambi
  exact ⟨h0, _, hopen, hset⟩

theorem encodesDecodes_reduced : ∃ h0 h1 h2 : Handle ℚ,
    ambixOpen unitPlatform (unitDisk none) .write ⟨.basic, 1, 2⟩ = .ok (some h0) ∧
    h0.setAdaptormatrix swapMatrix = (.success, h1) ∧
    h1.writeAll unitPlatform twoRequests = .ok (some h2) ∧
    EncodesDecodes unitPlatform unitPlatform h2 2 1 swapMatrix (sent 4 1 twoRequests) := by
  obtain ⟨h0, h1, hopen, hset⟩ := swapMatrix_encodes
  obtain ⟨hfull, -, pinv, -, hp, -, hstart⟩ :=
    basic_start hopen hset (fun _ => rfl) (by decide) (by decide) (by decide)
  obtain ⟨h2, hall⟩ := writeAll_answered twoRequests hstart hfull (fun _ => rfl) (encoder_room hp)
    (show 5 < 2^32 by decide) (by decide)
  exact ⟨h0, h1, h2, hopen, hset, hall, encodesDecodes (by decide) (by decide) hopen (by decide)
    hset hall (fun _ => rfl) (fun _ => rfl) swapMatrix_exact (by decide)⟩

/-- Two ambisonics and 2^32-1 extra channels make a file of one channel. -/
theorem encodesDecodes_fails : ∃ h0 h1 h2 : Handle ℚ,
    ambixOpen unitPlatform (unitDisk none) .write ⟨.basic, 0xffffffff, 2⟩ = .ok (some h0) ∧
    h0.setAdaptormatrix (unitMatrix 1 2) = (.success, h1) ∧
    h1.writeAll unitPlatform [] = .ok (some h2) ∧
    ¬ EncodesDecodes unitPlatform unitPlatform h2 2 0xffffffff (unitMatrix 1 2)
      (sent 1 0xffffffff []) := by
  obtain ⟨h0, hopen, ⟨hread, hwrite, hinfo, hstarted, hambi⟩, hchannels, hmarkers, hregions, hswap,
      hchunk⟩ : ∃ h0 : Handle ℚ,
      ambixOpen unitPlatform (unitDisk none) .write ⟨.basic, 0xffffffff, 2⟩ = .ok (some h0) ∧
      (h0.filemode.canRead = false ∧ h0.filemode.canWrite = true ∧ h0.info.fileformat = .basic ∧
        h0.startedWriting = false ∧ h0.realinfo.ambichannels = (unitMatrix 1 2).cols) ∧
      h0.sf.file.channels = 1 ∧ h0.markers = [] ∧ h0.regions = [] ∧
      h0.byteswap = decide (unitPlatform.host ≠ h0.sf.file.order) ∧
      h0.sf.chunkOk h0.sf.asked = true :=
    ⟨_, rfl, ⟨rfl, rfl, rfl, rfl, rfl⟩, rfl, rfl, rfl, rfl, rfl⟩
  obtain ⟨_, -, hset⟩ := setAdaptormatrix_encodes hread hwrite hinfo hstarted rfl hambi
  refine ⟨h0, _, _, hopen, hset, rfl, ?_⟩
  rintro ⟨file, _, hclose, -, hcount, -⟩
  have hsize : 24+4*((unitMatrix 1 2).rows.toNat*(unitMatrix 1 2).cols.toNat) < 2^64 := by decide
  have hclosed := hclose.symm.trans
    (close_extended hwrite rfl hmarkers hregions (fun _ => Nat.two_pos) hsize hswap hchunk rfl)
  have hone : file.channels = 1 :=
    (congrArg (fun r : Err × SoundFile ℚ => r.2.channels) (Except.ok.inj hclosed)).trans hchannels
  rw [hone] at hcount
  exact absurd hcount (by decide)

end Ambix
