import Ambix.BlockSize
import Ambix.DeinterleaveCopy
import Ambix.InterleaveCopy
import Ambix.RoundTrip

/-! The file that ambix-interleave leaves, and what ambix-deinterleave finds in it. -/
namespace Ambix
open Machine Interleave

variable {K : Type} [Field K] {P Q : Platform K} {M : AmbixMatrix K} {place : Disk K}
  {file : SoundFile K}

/-! EXTENDED files. -/

section extended
variable {a e : UInt32} {h : Handle K} {fs : List (Frame K)}

theorem bufferChannels_written (h : a.toNat+e.toNat < 2^32) (M : AmbixMatrix K) :
    (writtenLayout a e M).bufferChannels = a.toNat+e.toNat ∧
      (writtenLayout a e M).bufferChannels < 2^32 := by
  have hroom : (writtenLayout a e M).bufferChannels = a.toNat+e.toNat :=
    congrArg₂ (· + ·) (Nat.max_self _) (Nat.max_self _)
  exact ⟨hroom, hroom ▸ h⟩

theorem records_extended (hgrants : ∀ size, P.grants size = true) (hwrap : a.toNat+e.toNat < 2^32)
    (hfull : isFullset M.rows = true) : Records P ⟨.extended, e, a⟩ fun h fs =>
      Writing P (writtenLayout a e M) (rawCoder K a.toNat e.toNat) (a+e) h fs := by
  intro h fs ambidata otherdata n hw hn
  obtain ⟨g, hcheck⟩ := checkWrite_writing hw hfull
  obtain ⟨hroom, hless⟩ := bufferChannels_written hwrap M
  rw [← hw.layout] at hroom hless
  have hcounted : Counted h := by
    refine ⟨?_, hless⟩
    rw [hw.channels, hw.width, hroom]
    exact le_rfl
  obtain ⟨h', hr⟩ := writef_all hcheck hgrants (by rw [hw.layout]; exact hw.takes) hroom.ge hcounted
    hw.writes ⟨.float32, ambidata, otherdata, n⟩ (by rw [Layout.bytes, hroom]; exact hn)
  exact ⟨h', hr, writef_writing hw ⟨.float32, ambidata, otherdata, n⟩ hr⟩

theorem plays_recorded {channels : UInt32} {frames : List (List K)} (hfit : Fits P Q M channels)
    (hrec : Recorded P M channels frames file) (hfile : place.existing = some file)
    (hrows : M.rows.toNat < 2^31) :
    ∃ g, Deinterleave.Plays Q place M g ∧ g.sf.file.frames = frames ∧
      g.sf.file.channels = channels := by
  obtain ⟨g, hopen, hsf, hl⟩ := recorded_layout hfit hrec hfile ⟨.extended, 0, 0⟩
  have hl : g.toLayout = extendedLayout M channels := hl
  have hch : g.sf.file.channels = channels := by rw [hsf, hrec.channels]
  have hint := g.sf.file.channels_int
  have hle := UInt32.le_iff_toNat_le.mp hfit.reduced
  refine ⟨g, ⟨hopen, by rw [hsf], ?_, ?_, toNat_pos.mp hfit.cols, hrows, ?_, ?_, ?_, ?_⟩, ?_, hch⟩
  · rw [hl, hch]
    rfl
  · rw [Handle.getAdaptormatrix, hl]
    rfl
  · rw [hch]
    exact hfit.reduced
  · exact (shows_extended (by rw [hsf]; rfl) (by rw [hch]; exact hl)
      (by rw [hch]; exact hfit.reduced)).presents
  · refine counted_stored (by rw [hl]; rfl) (by rw [hl]; rfl) ?_ ?_
    · rw [hl, hch]
      exact reduced_add_extra
    · rw [hl, hch]
      exact hfit.reduced
  · rw [hl, Layout.bufferChannels, hch]
    change max M.cols.toNat M.cols.toNat+max (channels-M.cols).toNat (channels-M.cols).toNat = _
    rw [Nat.max_self, Nat.max_self, UInt32.toNat_sub_of_le _ _ hfit.reduced]
    omega
  · rw [hsf, hrec.frames]

end extended

/-! BASIC files. -/

section basic
variable {n : UInt32} {h h' : Handle K} {fs : List (Frame K)}

structure Plain (n : UInt32) (frames : List (List K)) (file : SoundFile K) : Prop where
  container : file.container = .caf
  channels : file.channels = n
  chunks : file.chunks = []
  frames : file.frames = frames

structure PlainWriting (n : UInt32) (h : Handle K) (fs : List (Frame K)) : Prop where
  layout : h.toLayout = plainLayout n
  pending : h.pendingHeaders = false
  writes : h.sf.mode.canWrite = true
  file : Plain n ((rawCoder K n.toNat 0).code fs) h.sf.file
  position : h.sf.position = fs.length

theorem plainWriting_start {disk : Disk K}
    (hopen : ambixOpen P disk .write ⟨.basic, 0, n⟩ = .ok (some h)) (hfull : isFullset n = true) :
    PlainWriting n h [] := by
  obtain ⟨ambixinfo, wantformat, size, ha, hformats, rfl⟩ := ambixOpen_write hopen
  have hcheck : checkWriteAmbixinfo ⟨.basic, 0, n⟩ = .success := by
    rw [checkWriteAmbixinfo]
    dsimp only
    rw [if_neg (show ¬ (0 : UInt32) < 0 by decide), if_pos hfull]
  have hf : openFormats .write ⟨.basic, 0, n⟩ = some (⟨.basic, 0, n⟩, .basic) := if_pos hcheck
  obtain ⟨rfl, rfl⟩ := Prod.mk.inj (Option.some.inj (hf.symm.trans hformats))
  have hn : n+0 = n := UInt32.add_zero n
  refine ⟨?_, rfl, rfl, ⟨rfl, hn, rfl, rfl⟩, rfl⟩
  change (⟨.write, ⟨.basic, 0, n+0⟩, ⟨.basic, 0, n+0⟩, matrixNull, matrixNull, .none⟩ :
    Layout K) = _
  rw [hn]
  rfl

theorem records_basic (hgrants : ∀ size, P.grants size = true) :
    Records P ⟨.basic, 0, n⟩ (PlainWriting n (K := K)) := by
  intro h fs ambidata otherdata k hw hk
  have hstarted : Started h := by
    refine ⟨?_, hw.pending⟩
    rw [hw.layout]
    intro hno
    cases hno.1
  have hroom : h.bufferChannels = n.toNat := by
    rw [hw.layout]
    exact Nat.max_self n.toNat
  have htakes : Takes h.toLayout (rawCoder K n.toNat 0) := by
    rw [hw.layout]
    exact takes_raw rfl
  let t : Transfer K := ⟨.float32, ambidata, otherdata, k⟩
  have hcounted : Counted h :=
    ⟨by rw [hroom, hw.file.channels], by rw [hroom]; exact n.toNat_lt⟩
  obtain ⟨h', hr⟩ := writef_all hstarted.checkWrite hgrants htakes hroom.ge hcounted hw.writes t
    (by rw [Layout.bytes, hroom]; exact hk)
  have hhands : Hands (rawCoder K n.toNat 0) t h h' :=
    writef_hands htakes (by rw [hw.file.channels]; rfl) hw.writes t hr
  have hframes := hhands.frames
  have hposition := hhands.position
  have hend : h.sf.position = h.sf.file.frames.length := by
    rw [hw.position, hw.file.frames, FrameCoder.code, List.length_map]
  rw [overwritten_end hend, hw.file.frames] at hframes
  have hsame := writef_sameFile hr
  have hlayout := (writef_layout hr).trans hw.layout
  obtain ⟨g, size, hcheck, -, rfl⟩ := writef_ok hr
  obtain rfl : _ = g := congrArg Prod.snd (Except.ok.inj (hstarted.checkWrite.symm.trans hcheck))
  refine ⟨_, hr, hlayout, hw.pending, ?_, ⟨hsame.container.trans hw.file.container,
    hsame.channels.trans hw.file.channels, ?_, ?_⟩, ?_⟩
  · rw [hsame.mode]
    exact hw.writes
  · dsimp only
    rw [sfWritef_writes (by exact hw.writes)]
    exact hw.file.chunks
  · rw [hframes, FrameCoder.code, FrameCoder.code, FrameCoder.code, List.map_append]
    rfl
  · rw [hposition, hw.position, List.length_append, Transfer.sent, List.length_zip, framesOf_length,
      framesOf_length, Nat.min_self]

theorem close_plain (hw : PlainWriting n h fs) : h.close P = .ok (.success, h.sf.file) := by
  have hmode : h.filemode.canWrite = true := by
    rw [hw.layout]
    rfl
  rw [Handle.close, if_pos hmode, Handle.writePending, if_neg (by rw [hw.pending]; decide), ok_bind]

def plainOpened (Q : Platform K) (place : Disk K) (file : SoundFile K) : Opened K where
  sf := ⟨file, .read, 0, place.chunkOk, 0⟩
  isAmbix := true
  format := .basic
  byteswap := decide (Q.host ≠ file.order)
  matrix := matrixNull

theorem freshLayout_plain {frames : List (List K)} (hplain : Plain n frames file)
    (hfull : isFullset n = true) (info : Info) :
    freshLayout .read info (plainOpened Q place file) = basicLayout matrixNull n := by
  have hreal : openedRealinfo .read info (plainOpened Q place file) = ⟨.basic, 0, n⟩ := by
    change (if isFullset file.channels then infoSet .basic 0 file.channels
      else infoSet .none file.channels 0) = _
    rw [hplain.channels, if_pos hfull]
    rfl
  rw [freshLayout, hreal]
  rfl

theorem ambixOpen_plain {frames : List (List K)} (hgrants : ∀ size, Q.grants size = true)
    (hplain : Plain n frames file) (hfile : place.existing = some file)
    (hfull : isFullset n = true) :
    ∃ g, ambixOpen Q place .read ⟨.extended, 0, 0⟩ = .ok (some g) ∧
      g.sf = ⟨file, .read, 0, place.chunkOk, 0⟩ ∧ g.toLayout = identityLayout n := by
  have hback : backendOpen Q place .read (0+0) = .ok (some (plainOpened Q place file)) := by
    simp only [backendOpen, sfOpen, hfile, Option.map_some, hplain.container, hplain.chunks]
    rfl
  have hann : readAnnotations Q (plainOpened Q place file) = .ok ([], []) := by
    simp only [readAnnotations, plainOpened, hplain.chunks, if_true]
    rfl
  obtain ⟨g, hopen, hsf, hl⟩ := ambixOpen_of_opened hgrants ⟨.extended, 0, 0⟩ hback hann
  rw [freshLayout_plain hplain hfull] at hl
  exact ⟨g, hopen, hsf, hl⟩

theorem presents_ambi {channels a b : Nat} {ha : a ≤ channels} {hb : b ≤ channels} (hab : a = b)
    (hp : Presents h (rawView K ha)) : Presents h (rawView K hb) := by
  subst hab
  exact hp

theorem plays_plain {frames : List (List K)} (hgrants : ∀ size, Q.grants size = true)
    (hplain : Plain n frames file) (hfile : place.existing = some file)
    (hfull : isFullset n = true) :
    ∃ g, Deinterleave.Plays Q place (fillIdentity (matrixInit n n)) g ∧
      g.sf.file.frames = frames ∧ g.sf.file.channels = n := by
  obtain ⟨g, hopen, hsf, hl⟩ := ambixOpen_plain hgrants hplain hfile hfull
  have hch : g.sf.file.channels = n := by rw [hsf, hplain.channels]
  have hint := g.sf.file.channels_int
  have hpos := g.sf.file.channels_pos
  rw [hch] at hint hpos
  have hrows : (fillIdentity (matrixInit n n : AmbixMatrix K)).rows = n := (fillEntries_size _ _).1
  have hcols : (fillIdentity (matrixInit n n : AmbixMatrix K)).cols = n := (fillEntries_size _ _).2
  have hreal : g.realinfo = ⟨.basic, 0, g.sf.file.channels⟩ := by
    rw [hl, hch]
    rfl
  have hroom : g.bufferChannels = n.toNat := by
    rw [hl]
    exact Nat.max_self n.toNat
  refine ⟨g, ⟨hopen, by rw [hsf], ?_, ?_, ?_, ?_, ?_, ?_, ⟨?_, ?_⟩, ?_⟩, by rw [hsf, hplain.frames],
    hch⟩
  · rw [hl, hch, hcols, UInt32.sub_self]
    rfl
  · rw [Handle.getAdaptormatrix, hl]
    rfl
  · rw [hcols]
    exact toNat_pos.mp hpos
  · rw [hrows]
    exact hint
  · rw [hcols, hch]
    exact UInt32.le_refl n
  · have hshows := shows_basic (by rw [hsf]; rfl) (congrArg Layout.useMatrix hl) hreal
      (by rw [hl, hch]; rfl) (by rw [hl]; rfl)
    exact presents_ambi (by rw [hcols, hch]) hshows.presents
  · rw [hroom, hch]
  · rw [hroom]
    exact n.toNat_lt
  · rw [hroom, hch]

end basic
end Ambix
