import Ambix.FrameView
import Ambix.UuidCodec

/-! Writing: a handle that takes frames through a coder appends them to its file, and
puts its matrix into the file once, before the first frame or when it is closed. -/
namespace Ambix
open Machine

/-- How the two streams of a caller become file frames of `channels` samples. -/
structure FrameCoder (K : Type) where
  ambi : Nat
  extra : Nat
  channels : Nat
  encode : List K → List K → List K
  width : ∀ x y, x.length = ambi → y.length = extra → (encode x y).length = channels

def rawCoder (K : Type) (ambi extra : Nat) : FrameCoder K where
  ambi := ambi
  extra := extra
  channels := ambi+extra
  encode x y := x ++ y
  width x y hx hy := by rw [List.length_append, hx, hy]

section coder
variable {K : Type}

def Transfer.sent (t : Transfer K) (ambi extra : Nat) : List (Frame K) :=
  (framesOf t.ambidata ambi t.frames).zip (framesOf t.otherdata extra t.frames)

def sent (ambi extra : Nat) (ts : List (Transfer K)) : List (Frame K) :=
  ts.flatMap fun t => t.sent ambi extra

def FrameCoder.code (C : FrameCoder K) (fs : List (Frame K)) : List (List K) :=
  fs.map fun f => C.encode f.1 f.2

theorem sent_width {t : Transfer K} {ambi extra : Nat} {f : Frame K} (hf : f ∈ t.sent ambi extra) :
    f.1.length = ambi ∧ f.2.length = extra :=
  ⟨framesOf_width f.1 (List.of_mem_zip hf).1, framesOf_width f.2 (List.of_mem_zip hf).2⟩

theorem code_width {C : FrameCoder K} {t : Transfer K} :
    ∀ fr ∈ C.code (t.sent C.ambi C.extra), fr.length = C.channels := by
  intro fr hfr
  obtain ⟨f, hf, rfl⟩ := List.mem_map.mp hfr
  exact C.width f.1 f.2 (sent_width hf).1 (sent_width hf).2

theorem code_sent_length (C : FrameCoder K) (t : Transfer K) :
    (C.code (t.sent C.ambi C.extra)).length = t.frames := by
  simp [FrameCoder.code, Transfer.sent]

end coder

section merge
variable {K : Type} [Field K]

def matrixCoder (matrix : AmbixMatrix K) (extra : Nat) : FrameCoder K where
  ambi := matrix.cols.toNat
  extra := extra
  channels := matrix.rows.toNat+extra
  encode x y := mix id id matrix x ++ y
  width x y _ hy := by rw [List.length_append, mix_length, hy]

/-- A layout merges by `C`. -/
def Takes (l : Layout K) (C : FrameCoder K) : Prop :=
  ∀ t : Transfer K, ∀ adaptorbuffer, l.merge t.ambidata t.otherdata adaptorbuffer t.frames =
    (Cursor.start adaptorbuffer).putAll (C.code (t.sent C.ambi C.extra)).flatten

theorem takes_raw {l : Layout K} (hnone : l.useMatrix = .none) :
    Takes l (rawCoder K l.info.ambichannels.toNat l.info.extrachannels.toNat) := by
  intro t adaptorbuffer
  rw [Layout.merge, hnone]
  dsimp only
  rw [mergeAdaptor_eq, FrameCoder.code, Transfer.sent, List.map_zip_eq_zipWith]
  rfl

theorem takes_matrix {l : Layout K} {A : AmbixMatrix K} (hA : l.inUse = some A) :
    Takes l (matrixCoder A l.info.extrachannels.toNat) := by
  intro t adaptorbuffer
  have hmerge : l.merge t.ambidata t.otherdata adaptorbuffer t.frames =
      mergeAdaptormatrix (.exact id id) t.ambidata A t.otherdata l.info.extrachannels adaptorbuffer
        t.frames := by
    rw [Layout.inUse] at hA
    rw [Layout.merge]
    cases hmatrix : l.useMatrix with
    | none =>
      rw [hmatrix] at hA
      cases hA
    | matrix =>
      rw [hmatrix] at hA
      rw [← Option.some.inj hA]
    | matrix2 =>
      rw [hmatrix] at hA
      rw [← Option.some.inj hA]
  rw [hmerge, mergeAdaptormatrix_eq, FrameCoder.code, Transfer.sent, List.map_zip_eq_zipWith]
  rfl

theorem takes_matrix2 {l : Layout K} (hmatrix : l.useMatrix = .matrix2) :
    Takes l (matrixCoder l.matrix2 l.info.extrachannels.toNat) :=
  takes_matrix (by rw [Layout.inUse, hmatrix])

end merge

/-! The headers. -/

section writing
variable {K : Type} [Field K] {P : Platform K}

theorem writeHeader_extended {h : Handle K} (hmode : h.filemode.canWrite = true)
    (hreal : h.realinfo.fileformat = .extended) (hmarkers : h.markers = [])
    (hregions : h.regions = []) (hcols : h.matrix.Columned)
    (hsize : 24+4*(h.matrix.rows.toNat*h.matrix.cols.toNat) < 2^64)
    (hswap : h.byteswap = decide (P.host ≠ h.sf.file.order))
    (hchunk : h.sf.chunkOk h.sf.asked = true) :
    h.writeHeader P = .ok (.success, { h with
      sf := { h.sf with
        file := { h.sf.file with chunks := h.sf.file.chunks ++
          [⟨.uuid, uuid1Bytes h.sf.file.order P.word h.matrix⟩] }
        asked := h.sf.asked+1 }
      pendingHeaders := false }) := by
  have hwrites : markersregionsChunks P.host h.byteswap h.markers h.regions = .ok [] := by
    rw [hmarkers, hregions]
    rfl
  rw [writeHeader_uuid hmode hreal hwrites (by simp) hcols hsize hswap]
  simp only [List.map_nil, SndFile.setChunks, List.foldl_nil, sfSetChunk, hchunk, if_true]

theorem close_extended {h : Handle K} (hmode : h.filemode.canWrite = true)
    (hreal : h.realinfo.fileformat = .extended) (hmarkers : h.markers = [])
    (hregions : h.regions = []) (hcols : h.matrix.Columned)
    (hsize : 24+4*(h.matrix.rows.toNat*h.matrix.cols.toNat) < 2^64)
    (hswap : h.byteswap = decide (P.host ≠ h.sf.file.order))
    (hchunk : h.sf.chunkOk h.sf.asked = true) (hpending : h.pendingHeaders = true) :
    h.close P = .ok (.success, { h.sf.file with chunks := h.sf.file.chunks ++
      [⟨.uuid, uuid1Bytes h.sf.file.order P.word h.matrix⟩] }) := by
  rw [Handle.close, if_pos hmode, Handle.writePending, if_pos hpending,
    writeHeader_extended hmode hreal hmarkers hregions hcols hsize hswap hchunk]
  rfl

/-! Requests. -/

/-- Requests one after the other, as long as each is answered with frames. -/
def Handle.writeAll (P : Platform K) : List (Transfer K) → Handle K → Checked (Option (Handle K))
  | [], h => .ok (some h)
  | t :: ts, h => do
    let (result, h) ← h.writef P t.type t.ambidata t.otherdata t.frames
    match result with
    | .ok _ => writeAll P ts h
    | .error _ => .ok none

/-- A CAF file of `channels` channels that holds the matrix `A` and the frames `frames`. -/
structure Recorded (P : Platform K) (A : AmbixMatrix K) (channels : UInt32)
    (frames : List (List K)) (file : SoundFile K) : Prop where
  container : file.container = .caf
  channels : file.channels = channels
  chunks : file.chunks = [⟨.uuid, uuid1Bytes file.order P.word A⟩]
  frames : file.frames = frames

/-- A handle with the layout `l` that writes an EXTENDED file by the coder `C`, `fs` being
written so far. The matrix is pending or in the file. -/
structure Writing (P : Platform K) (l : Layout K) (C : FrameCoder K) (channels : UInt32)
    (h : Handle K) (fs : List (Frame K)) : Prop where
  layout : h.toLayout = l
  extended : l.filemode.canWrite = true ∧ l.realinfo.fileformat = .extended
  takes : Takes l C
  columned : l.matrix.Columned
  size : 24+4*(l.matrix.rows.toNat*l.matrix.cols.toNat) < 2^64
  markers : h.markers = []
  regions : h.regions = []
  writes : h.sf.mode.canWrite = true
  chunkOk : ∀ k, h.sf.chunkOk k = true
  byteswap : h.byteswap = decide (P.host ≠ h.sf.file.order)
  width : channels.toNat = C.channels
  container : h.sf.file.container = .caf
  channels : h.sf.file.channels = channels
  chunks : h.sf.file.chunks = if h.pendingHeaders then []
    else [⟨.uuid, uuid1Bytes h.sf.file.order P.word l.matrix⟩]
  frames : h.sf.file.frames = C.code fs
  position : h.sf.position = fs.length

variable {l : Layout K} {C : FrameCoder K} {channels : UInt32} {h h' : Handle K}
  {fs : List (Frame K)}

theorem writePending_writing (hw : Writing P l C channels h fs) : ∃ g,
    h.writePending P = .ok (.success, g) ∧ Writing P l C channels g fs ∧
      g.pendingHeaders = false := by
  have hl := hw.layout
  subst hl
  by_cases hpending : h.pendingHeaders = true
  · have hchunks := hw.chunks
    rw [if_pos hpending] at hchunks
    refine ⟨_, (if_pos hpending).trans (writeHeader_extended hw.extended.1 hw.extended.2 hw.markers
      hw.regions hw.columned hw.size hw.byteswap (hw.chunkOk _)), ?_, rfl⟩
    refine { hw with chunks := ?_ }
    dsimp only
    rw [hchunks]
    rfl
  · exact ⟨h, if_neg hpending, hw, Bool.not_eq_true _ ▸ hpending⟩

theorem checkWrite_success {g : Handle K} (hc : h.checkWrite P = .ok (.success, g)) :
    ∃ g', h.writePending P = .ok (.success, g') ∧ g = { g' with startedWriting := true } := by
  unfold Handle.checkWrite at hc
  split at hc
  · cases hc
  · obtain ⟨⟨err, g'⟩, hg, hc⟩ := bind_eq_ok.mp hc
    dsimp only at hc
    split at hc
    · rename_i hne
      exact absurd (congrArg Prod.fst (Except.ok.inj hc)) hne
    · rename_i hs
      rw [not_not.mp hs] at hg
      exact ⟨g', hg, (answered_state hc).symm⟩

theorem writef_ok {type : SampleType} {ambidata otherdata : Nat → K} {frames k : Nat}
    (hr : h.writef P type ambidata otherdata frames = .ok (.ok k, h')) : ∃ g size,
      h.checkWrite P = .ok (.success, g) ∧
      adaptorbufferResize P.grants g.info g.realinfo (UInt64.ofNat frames) type.size
        g.adaptorbuffersize = (.success, size) ∧
      h' = { g with
        adaptorbuffersize := size
        adaptorbuffer := (g.merge ambidata otherdata g.adaptorbuffer frames).data
        sf := (sfWritef g.sf (g.merge ambidata otherdata g.adaptorbuffer frames).data
          frames).2 } := by
  obtain ⟨err, g, hg, ⟨-, hno, -⟩ | ⟨rfl, size, ⟨e, hno, -⟩ | ⟨hres, -, -, -, hh⟩⟩⟩ :=
    writef_cases hr
  · cases hno
  · cases hno
  · exact ⟨g, size, hg, hres, hh⟩

/-- What an answered request hands to the backend, and where that is stored. -/
structure Hands (C : FrameCoder K) (t : Transfer K) (h h' : Handle K) : Prop where
  samples : window h'.adaptorbuffer 0 (t.frames*h'.sf.file.channels.toNat) =
    (C.code (t.sent C.ambi C.extra)).flatten
  frames : h'.sf.file.frames = overwritten h.sf.file.frames h.sf.position
    (C.code (t.sent C.ambi C.extra))
  position : h'.sf.position = h.sf.position+t.frames

theorem writef_buffer (htakes : Takes h.toLayout C) (t : Transfer K) {k : Nat}
    (hr : h.writef P t.type t.ambidata t.otherdata t.frames = .ok (.ok k, h')) :
    h'.adaptorbuffer = ((Cursor.start h.adaptorbuffer).putAll
      (C.code (t.sent C.ambi C.extra)).flatten).data := by
  obtain ⟨g, size, hcheck, -, rfl⟩ := writef_ok hr
  obtain ⟨chunks, asked, pending, started, rfl⟩ := checkWrite_frame hcheck
  rw [← htakes t h.adaptorbuffer]

theorem writef_hands (htakes : Takes h.toLayout C) (hwidth : C.channels = h.sf.file.channels.toNat)
    (hmode : h.sf.mode.canWrite = true) (t : Transfer K) {k : Nat}
    (hr : h.writef P t.type t.ambidata t.otherdata t.frames = .ok (.ok k, h')) :
    Hands C t h h' := by
  obtain ⟨g, size, hcheck, -, rfl⟩ := writef_ok hr
  obtain ⟨chunks, asked, pending, started, rfl⟩ := checkWrite_frame hcheck
  have hlength : (C.code (t.sent C.ambi C.extra)).flatten.length =
      t.frames*h.sf.file.channels.toNat := by
    rw [← hwidth, ← code_sent_length C t, ← putAll_count h.adaptorbuffer code_width,
      ← Cursor.items_length, Cursor.start_putAll_items]
  have hsamples := window_written h.adaptorbuffer (C.code (t.sent C.ambi C.extra)).flatten
    hlength.ge
  have hframes := framesOf_written (code_width (t := t))
    (Cursor.start_putAll_items h.adaptorbuffer (C.code (t.sent C.ambi C.extra)).flatten)
  rw [code_sent_length, hwidth] at hframes
  rw [← hlength, List.take_length, hlength] at hsamples
  dsimp only
  rw [htakes t h.adaptorbuffer, sfWritef_writes (by exact hmode)]
  refine ⟨hsamples, ?_, rfl⟩
  exact congrArg (overwritten h.sf.file.frames h.sf.position) hframes

theorem writef_writing (hw : Writing P l C channels h fs) (t : Transfer K) {k : Nat}
    (hr : h.writef P t.type t.ambidata t.otherdata t.frames = .ok (.ok k, h')) :
    Writing P l C channels h' (fs ++ t.sent C.ambi C.extra) := by
  have hhands := writef_hands (by rw [hw.layout]; exact hw.takes)
    (by rw [hw.channels, hw.width]) hw.writes t hr
  have hend : h.sf.position = h.sf.file.frames.length := by
    rw [hw.position, hw.frames, FrameCoder.code, List.length_map]
  have hframes := hhands.frames
  have hposition := hhands.position
  rw [overwritten_end hend, hw.frames] at hframes
  rw [hw.position] at hposition
  obtain ⟨g, size, hcheck, -, rfl⟩ := writef_ok hr
  obtain ⟨g', hpending, rfl⟩ := checkWrite_success hcheck
  obtain ⟨g, hg, hw, -⟩ := writePending_writing hw
  obtain rfl : g' = g := congrArg Prod.snd (Except.ok.inj (hpending.symm.trans hg))
  rw [sfWritef_writes (by exact hw.writes)] at hframes hposition ⊢
  refine { hw with frames := ?_, position := ?_ }
  · rw [hframes, FrameCoder.code, FrameCoder.code, FrameCoder.code, List.map_append]
  · rw [hposition, List.length_append, Transfer.sent, List.length_zip, framesOf_length,
      framesOf_length, Nat.min_self]

theorem writeAll_writing {ts : List (Transfer K)} (hw : Writing P l C channels h fs)
    (hr : h.writeAll P ts = .ok (some h')) :
    Writing P l C channels h' (fs ++ sent C.ambi C.extra ts) := by
  induction ts generalizing h fs with
  | nil =>
    rw [← Option.some.inj (Except.ok.inj hr), sent, List.flatMap_nil, List.append_nil]
    exact hw
  | cons t ts ih =>
    obtain ⟨⟨result, g⟩, hg, hr⟩ := bind_eq_ok.mp hr
    cases result with
    | error err => cases hr
    | ok k =>
      have hnext := ih (writef_writing hw t hg) hr
      rwa [List.append_assoc] at hnext

/-- Closing leaves a file with the matrix and all frames. -/
theorem close_writing (hw : Writing P l C channels h fs) :
    ∃ file, h.close P = .ok (.success, file) ∧
      Recorded P l.matrix channels (C.code fs) file := by
  obtain ⟨g, hg, hw', hpending⟩ := writePending_writing hw
  have hmode : h.filemode.canWrite = true := by
    rw [hw.layout]
    exact hw.extended.1
  refine ⟨g.sf.file, ?_, hw'.container, hw'.channels, ?_, hw'.frames⟩
  · rw [Handle.close, if_pos hmode, hg, ok_bind]
  · rw [hw'.chunks, hpending]
    rfl

theorem writef_of_checkWrite {g : Handle K} (hcheck : h.checkWrite P = .ok (.success, g))
    (hgrants : ∀ size, P.grants size = true) (htakes : Takes h.toLayout C)
    (hwidth : C.channels ≤ h.bufferChannels) (hcounted : Counted h) (t : Transfer K)
    (ht : h.bytes t.frames t.type.size < 2^64) :
    ∃ k h', h.writef P t.type t.ambidata t.otherdata t.frames = .ok (.ok k, h') := by
  obtain ⟨chunks, asked, pending, started, rfl⟩ := checkWrite_frame hcheck
  have hcount : (h.merge t.ambidata t.otherdata h.adaptorbuffer t.frames).count =
      t.frames*C.channels := by
    rw [htakes t h.adaptorbuffer, putAll_count _ code_width, code_sent_length]
  obtain ⟨h', hw⟩ := writef_answers hcheck hgrants ⟨hcounted.covered, hcounted.unwrapped⟩ ht
    t.ambidata t.otherdata hcount hwidth
  exact ⟨_, h', hw⟩

theorem writef_all {g : Handle K} (hcheck : h.checkWrite P = .ok (.success, g))
    (hgrants : ∀ size, P.grants size = true) (htakes : Takes h.toLayout C)
    (hwidth : C.channels ≤ h.bufferChannels) (hcounted : Counted h)
    (hmode : h.sf.mode.canWrite = true) (t : Transfer K)
    (ht : h.bytes t.frames t.type.size < 2^64) :
    ∃ h', h.writef P t.type t.ambidata t.otherdata t.frames = .ok (.ok t.frames, h') := by
  obtain ⟨k, h', hw⟩ := writef_of_checkWrite hcheck hgrants htakes hwidth hcounted t ht
  obtain ⟨err, g, hg, ⟨-, hno, -⟩ | ⟨-, size, ⟨e, hno, -⟩ | ⟨-, -, -, hk, -⟩⟩⟩ := writef_cases hw
  · cases hno
  · cases hno
  · rw [sfWritef_writes (by rw [(checkWrite_sameFile hg).mode]; exact hmode)] at hk
    rw [Except.ok.inj hk] at hw
    exact ⟨h', hw⟩

theorem checkWrite_writing (hw : Writing P l C channels h fs)
    (hfull : isFullset l.matrix.rows = true) : ∃ g, h.checkWrite P = .ok (.success, g) := by
  obtain ⟨g, hg, -⟩ := writePending_writing hw
  have hrows : isFullset h.matrix.rows = true := by
    rw [hw.layout]
    exact hfull
  refine ⟨{ g with startedWriting := true }, ?_⟩
  rw [Handle.checkWrite, if_neg fun hno => hno.2 hrows, hg]
  rfl

theorem writef_answered (hw : Writing P l C channels h fs) (hfull : isFullset l.matrix.rows = true)
    (hgrants : ∀ size, P.grants size = true) (hwidth : C.channels ≤ l.bufferChannels)
    (hwrap : l.bufferChannels < 2^32) (t : Transfer K) (ht : t.frames < 2^29) :
    ∃ h', h.writef P t.type t.ambidata t.otherdata t.frames = .ok (.ok t.frames, h') := by
  obtain ⟨g, hcheck⟩ := checkWrite_writing hw hfull
  have hl := hw.layout
  have hcounted : Counted h := by
    refine ⟨?_, by rw [hl]; exact hwrap⟩
    rw [hw.channels, hl, hw.width]
    exact hwidth
  refine writef_all hcheck hgrants (by rw [hl]; exact hw.takes) (by rw [hl]; exact hwidth)
    hcounted hw.writes t ?_
  rw [hl]
  exact bytes_lt hwrap ht t.type

theorem writeAll_answered (ts : List (Transfer K)) (hw : Writing P l C channels h fs)
    (hfull : isFullset l.matrix.rows = true) (hgrants : ∀ size, P.grants size = true)
    (hwidth : C.channels ≤ l.bufferChannels) (hwrap : l.bufferChannels < 2^32)
    (hts : ∀ t ∈ ts, t.frames < 2^29) : ∃ h', h.writeAll P ts = .ok (some h') := by
  induction ts generalizing h fs with
  | nil => exact ⟨h, rfl⟩
  | cons t ts ih =>
    obtain ⟨g, hg⟩ := writef_answered hw hfull hgrants hwidth hwrap t (hts t List.mem_cons_self)
    obtain ⟨h', hh⟩ := ih (writef_writing hw t hg) fun t' ht' => hts t' (List.mem_cons_of_mem t ht')
    refine ⟨h', ?_⟩
    rw [Handle.writeAll, hg, ok_bind]
    exact hh

end writing
end Ambix
