import Ambix.InterleaveFile
import Ambix.InterleaveOptions

/-! From the input files of ambix-interleave to the mono files of ambix-deinterleave. -/
namespace Ambix
open Machine Interleave

section roundtrip
variable {K : Type} [Field K] [LinearOrder K] {P Q : Platform K} {disk : Disk K} {fresh : Nat → K}
  {args : Arguments K} {ai : Ai K} {h h0 : Handle K} {M : AmbixMatrix K} {total : Nat}

/-! The output of ambix-interleave. -/

theorem aiOpenOutput_some (hout : aiOpenOutput P disk ai = .ok (some h)) :
    ∃ h0, ambixOpen P disk .write ai.info = .ok (some h0) ∧
      (ai.info.fileformat = .extended →
        h0.setAdaptormatrix (ai.matrix.getD matrixNull) = (.success, h)) ∧
      (ai.info.fileformat ≠ .extended → h = h0) := by
  obtain ⟨opened, hopen, hout⟩ := bind_eq_ok.mp hout
  cases opened with
  | none => cases hout
  | some h0 =>
    refine ⟨h0, hopen, ?_⟩
    dsimp only at hout
    split at hout
    · rename_i hformat
      refine ⟨fun _ => ?_, fun hno => absurd hformat hno⟩
      split at hout
      · rename_i herr
        exact Prod.ext herr (Option.some.inj (Except.ok.inj hout))
      · cases hout
    · rename_i hformat
      exact ⟨fun hext => absurd hext hformat,
        fun _ => (Option.some.inj (Except.ok.inj hout)).symm⟩

theorem accepted_some (hacc : accepted P disk fresh args = .ok (some (ai, h))) :
    Settled P args ai ∧ aiOpenOutput P disk ai = .ok (some h) := by
  obtain ⟨asked, hcmd, hacc⟩ := bind_eq_ok.mp hacc
  cases asked with
  | none => cases hacc
  | some ai₀ =>
    obtain ⟨opened, hinput, hacc⟩ := bind_eq_ok.mp hacc
    cases opened with
    | none => cases hacc
    | some ai₁ =>
      obtain ⟨out, houtput, hacc⟩ := bind_eq_ok.mp hacc
      obtain ⟨h₁, rfl, heq⟩ := Option.map_eq_some_iff.mp (Except.ok.inj hacc)
      cases heq
      exact ⟨aiOpenInput_settled hcmd hinput, houtput⟩

theorem ambixInterleave_copied {W : Handle K → List (Frame K) → Prop} {R : SoundFile K → Prop}
    (hacc : accepted P disk fresh args = .ok (some (ai, h))) (hW : Records P ai.info W)
    (htotal : ∀ file ∈ args.infiles, file.frames.length = total)
    (hwidth : (args.infiles.map fun file => file.channels.toNat).sum =
      ai.info.ambichannels.toNat+ai.info.extrachannels.toNat)
    (hblock : (args.infiles.map fun file => file.channels.toNat).sum*
      (copySize ai.blocksize).val*4 < 2^64) (hstart : W h [])
    (hclose : ∀ g, W g ((joined total args.infiles).map (cutAt ai.info.ambichannels)) →
      ∃ file, g.close P = .ok (.success, file) ∧ R file) :
    ∃ file, ambixInterleave P disk fresh args = .ok (some file) ∧ R file := by
  obtain ⟨hset, -⟩ := accepted_some hacc
  have hframes : ai.frames = total := by rw [hset.frames, inputFrames_eq hset.nonempty htotal]
  have hinfiles := hset.infiles
  rw [hwidth] at hblock
  rw [← hinfiles] at htotal hwidth hclose
  obtain ⟨s, hcopy, hs⟩ := aiCopy_copied fresh hW hframes htotal hwidth hblock hstart
  obtain ⟨file, hfile, hR⟩ := hclose s.outhandle hs
  refine ⟨file, ?_, hR⟩
  rw [ambixInterleave, hacc, ok_bind]
  dsimp only
  rw [hcopy, ok_bind]
  dsimp only
  rw [hfile]
  rfl

omit [Field K] [LinearOrder K] in
theorem rawCoder_cutAt (a : UInt32) (extra : Nat) (frames : List (List K)) :
    (rawCoder K a.toNat extra).code (frames.map (cutAt a)) = frames := by
  rw [FrameCoder.code, List.map_map]
  refine (List.map_congr_left fun fr _ => ?_).trans (List.map_id frames)
  exact List.take_append_drop a.toNat fr

/-! Both tools. -/

/-- What interleaving `args` and then deinterleaving comes to, in blocks that can be addressed: mono
files of `total` frames, `M` times the first input channels and the other input channels
unchanged. -/
def Undoes (P Q : Platform K) (disk : Disk K) (fresh : Nat → K) (args : Arguments K) (total : Nat)
    (M : AmbixMatrix K) : Prop :=
  ∃ file, ambixInterleave P disk fresh args = .ok (some file) ∧
    ∀ (place : Disk K) (places : Nat → Disk K) (fresh : Nat → K) (blocksize : Option UInt32),
      place.existing = some file → (∀ n, (places n).accepts 1 = true) →
      (args.infiles.map fun file => file.channels.toNat).sum*
        (copySize (blocksize.getD 0)).val*4 < 2^64 → ∃ outs,
        Deinterleave.ambixDeinterleave Q place places fresh blocksize = .ok (some outs) ∧
        (∀ file ∈ outs.ambi ++ outs.extra, file.channels = 1 ∧ file.frames.length = total) ∧
        outs.ambi.map SoundFile.frames = (List.range M.rows.toNat).map (fun r =>
          channelOf r ((joined total args.infiles).map (mix id id M))) ∧
        outs.extra.map SoundFile.frames =
          (List.range ((args.infiles.map fun file => file.channels.toNat).sum-M.cols.toNat)).map
            fun k => channelOf k ((joined total args.infiles).map (List.drop M.cols.toNat))

/-- A file with the joined frames that plays by the matrix `M` is taken apart again. -/
theorem undoes_of_plays {R : SoundFile K → Prop} {n : UInt32}
    (hrun : ∃ file, ambixInterleave P disk fresh args = .ok (some file) ∧ R file)
    (hplays : ∀ (place : Disk K) file, place.existing = some file → R file →
      ∃ g, Deinterleave.Plays Q place M g ∧ g.sf.file.frames = joined total args.infiles ∧
        g.sf.file.channels = n)
    (hn : n.toNat = (args.infiles.map fun file => file.channels.toNat).sum)
    (hgrants : ∀ size, Q.grants size = true)
    (htotal : ∀ file ∈ args.infiles, file.frames.length = total) :
    Undoes P Q disk fresh args total M := by
  obtain ⟨file, hrun, hR⟩ := hrun
  refine ⟨file, hrun, fun place places fresh blocksize hfile hplaces hblock => ?_⟩
  obtain ⟨g, hg, hframes, hchannels⟩ := hplays place file hfile hR
  rw [← hn, ← hchannels] at hblock
  obtain ⟨outs, hout, hmono, hambi, hextra⟩ :=
    Deinterleave.ambixDeinterleave_channels hg hgrants hplaces fresh blocksize hblock
  rw [hframes] at hambi hextra
  rw [hchannels, hn] at hextra
  have hlength : (joined total args.infiles).length = total := by
    refine sideBySide_length fun frames hmem => ?_
    obtain ⟨file, hfile, rfl⟩ := List.mem_map.mp hmem
    exact htotal file hfile
  have hall : ∀ file ∈ outs.ambi ++ outs.extra, file.frames.length = total := by
    intro file hfile
    cases List.mem_append.mp hfile with
    | inl hfile =>
      have hmem := List.mem_map_of_mem (f := SoundFile.frames) hfile
      rw [hambi] at hmem
      obtain ⟨r, -, hr⟩ := List.mem_map.mp hmem
      rw [← hr, channelOf, List.length_map, List.length_map, hlength]
    | inr hfile =>
      have hmem := List.mem_map_of_mem (f := SoundFile.frames) hfile
      rw [hextra] at hmem
      obtain ⟨k, -, hk⟩ := List.mem_map.mp hmem
      rw [← hk, channelOf, List.length_map, List.length_map, hlength]
  exact ⟨outs, hout, fun file hfile => ⟨hmono file hfile, hall file hfile⟩, hambi, hextra⟩

omit [Field K] [LinearOrder K] in
theorem matrix_size {r c : Nat} (hr : r < 2^31) (hc : c < 2^31) : 24+4*(r*c) < 2^64 := by
  have hmul : r*c ≤ (2^31-1)*(2^31-1) := Nat.mul_le_mul (by omega) (by omega)
  omega

theorem undoes_extended {n : UInt32} (hacc : accepted P disk fresh args = .ok (some (ai, h)))
    (hle : M.cols ≤ n) (hmatrix : ai.matrix = some M)
    (hinfo : ai.info = ⟨.extended, n-M.cols, M.cols⟩)
    (htotal : ∀ file ∈ args.infiles, file.frames.length = total)
    (hn : n.toNat = (args.infiles.map fun file => file.channels.toNat).sum) (hint : n.toNat < 2^31)
    (hblock : (args.infiles.map fun file => file.channels.toNat).sum*
      (copySize ai.blocksize).val*4 < 2^64)
    (hcols : M.cols ≠ 0) (hrows : 0 < M.rows.toNat ∧ M.rows.toNat < 2^31)
    (hchunks : ∀ k, disk.chunkOk k = true) (hgrants : ∀ size, P.grants size = true)
    (hgrants' : ∀ size, Q.grants size = true) (hexact : Exact P Q M) :
    Undoes P Q disk fresh args total M := by
  have hcle := UInt32.le_iff_toNat_le.mp hle
  have hsplit : M.cols.toNat+(n-M.cols).toNat = n.toNat := by
    rw [UInt32.toNat_sub_of_le _ _ hle]
    omega
  have hwhole : M.cols+(n-M.cols) = n := by rw [UInt32.add_comm, UInt32.sub_add_cancel]
  obtain ⟨h0, hopen, hset, -⟩ := aiOpenOutput_some (accepted_some hacc).2
  rw [hinfo] at hopen
  rw [hmatrix, Option.getD_some] at hset
  have hsize := matrix_size hrows.2 (hcle.trans_lt hint)
  obtain ⟨hfull, hstart⟩ := extended_start hopen (hset (by rw [hinfo])) hchunks (by omega)
    (fun _ => toNat_pos.mpr hcols) hsize
  have hrecords := records_extended (e := n-M.cols) (a := M.cols) hgrants (by omega) hfull
  rw [← hinfo] at hrecords
  have hwidth : (args.infiles.map fun file => file.channels.toNat).sum =
      ai.info.ambichannels.toNat+ai.info.extrachannels.toNat := by
    rw [hinfo, ← hn]
    exact hsplit.symm
  refine undoes_of_plays (ambixInterleave_copied (R := Recorded P M n (joined total args.infiles))
    hacc hrecords htotal hwidth hblock hstart fun g hg => ?_) (fun place file hfile hrec => ?_) hn
    hgrants' htotal
  · obtain ⟨file, hclose, hrec⟩ := close_writing hg
    refine ⟨file, hclose, ?_⟩
    rw [hinfo, rawCoder_cutAt, hwhole] at hrec
    exact hrec
  · exact plays_recorded ⟨hgrants', hexact, hsize, hfull, hrows.1, toNat_pos.mpr hcols, hle⟩ hrec
      hfile hrows.2

theorem undoes_basic {n : UInt32} (hacc : accepted P disk fresh args = .ok (some (ai, h)))
    (hinfo : ai.info = ⟨.basic, 0, n⟩) (hfull : isFullset n = true)
    (htotal : ∀ file ∈ args.infiles, file.frames.length = total)
    (hn : n.toNat = (args.infiles.map fun file => file.channels.toNat).sum)
    (hblock : (args.infiles.map fun file => file.channels.toNat).sum*
      (copySize ai.blocksize).val*4 < 2^64) (hgrants : ∀ size, P.grants size = true)
    (hgrants' : ∀ size, Q.grants size = true) :
    Undoes P Q disk fresh args total (fillIdentity (matrixInit n n)) := by
  obtain ⟨h0, hopen, -, hsame⟩ := aiOpenOutput_some (accepted_some hacc).2
  obtain rfl := hsame (by rw [hinfo]; nofun)
  rw [hinfo] at hopen
  have hstart := plainWriting_start hopen hfull
  have hrecords := records_basic (n := n) hgrants
  rw [← hinfo] at hrecords
  have hwidth : (args.infiles.map fun file => file.channels.toNat).sum =
      ai.info.ambichannels.toNat+ai.info.extrachannels.toNat := by
    rw [hinfo, ← hn]
    rfl
  refine undoes_of_plays (ambixInterleave_copied (R := Plain n (joined total args.infiles)) hacc
    hrecords htotal hwidth hblock hstart fun g hg => ⟨_, close_plain hg, ?_⟩)
    (fun place file hfile hplain => plays_plain hgrants' hplain hfile hfull) hn hgrants' htotal
  have hfile := hg.file
  rw [hinfo, rawCoder_cutAt] at hfile
  exact hfile

omit [LinearOrder K] in
theorem accepts_extended {a e : UInt32}
    (hopen : ambixOpen P disk .write ⟨.extended, e, a⟩ = .ok (some h0)) :
    0 < (a+e).toNat ∧ (a+e).toNat < 2^31 := by
  obtain ⟨ambixinfo, wantformat, size, ha, hformats, rfl⟩ := ambixOpen_write hopen
  obtain ⟨rfl, rfl⟩ := Prod.mk.inj (Option.some.inj hformats)
  exact disk.accepts_int _ ha

/-- Deinterleaving undoes interleaving up to the adaptor matrix, whatever the input files and
the block sizes, as long as the matrix has columns and the channels and the bytes of a block can
be counted. -/
theorem deinterleave_undoes (hacc : accepted P disk fresh args = .ok (some (ai, h)))
    (htotal : ∀ file ∈ args.infiles, file.frames.length = total)
    (hwrap : (args.infiles.map fun file => file.channels.toNat).sum < 2^32)
    (hblock : (args.infiles.map fun file => file.channels.toNat).sum*
      (copySize ai.blocksize).val*4 < 2^64)
    (hcols : ai.adaptorMatrix.cols ≠ 0) (hfull : isFullset ai.adaptorMatrix.rows = true)
    (hchunks : ∀ k, disk.chunkOk k = true) (hgrants : ∀ size, P.grants size = true)
    (hgrants' : ∀ size, Q.grants size = true) (hexact : Exact P Q ai.adaptorMatrix) :
    Chosen P args ai.adaptorMatrix ∧ Undoes P Q disk fresh args total ai.adaptorMatrix := by
  obtain ⟨hset, hout⟩ := accepted_some hacc
  have hn := inputChannels_toNat hwrap
  refine ⟨hset.chosen, ?_⟩
  cases hset.format with
  | inl hextended =>
    obtain ⟨hle, hmatrix, hinfo⟩ := hextended
    obtain ⟨h0, hopen, -⟩ := aiOpenOutput_some hout
    rw [hinfo] at hopen
    have hint := accepts_extended hopen
    have hwhole : ai.adaptorMatrix.cols+(inputChannels args.infiles-ai.adaptorMatrix.cols) =
        inputChannels args.infiles := by rw [UInt32.add_comm, UInt32.sub_add_cancel]
    rw [hwhole] at hint
    have hrows := hset.chosen.rows hcols hint.1 hint.2 hle
    exact undoes_extended hacc hle hmatrix hinfo htotal hn hint.2 hblock hcols hrows hchunks
      hgrants hgrants' hexact
  | inr hbasic =>
    obtain ⟨hidentity, hinfo⟩ := hbasic
    have hrows : ai.adaptorMatrix.rows = inputChannels args.infiles := by
      rw [hidentity]
      exact (fillEntries_size _ _).1
    rw [hrows] at hfull
    rw [hidentity]
    exact undoes_basic hacc hinfo hfull htotal hn hblock hgrants hgrants'

end roundtrip

/-! Runs. -/

def inputFile (channels : UInt32) (frames : List (List ℚ))
    (h : 0 < channels.toNat ∧ channels.toNat < 2^31 ∧
      ∀ fr ∈ frames, fr.length = channels.toNat) : SoundFile ℚ where
  container := .other
  order := .little
  channels := channels
  chunks := []
  frames := frames
  channels_pos := h.1
  channels_int := h.2.1
  width := h.2.2

/-- A file whose channels and frames are the rows and columns of `swapMatrix`. -/
def swapFile : SoundFile ℚ := inputFile 4 [[0, 1, 0, 0], [1, 0, 0, 0]] (by decide)

def stereoInput : SoundFile ℚ := inputFile 2 [[1, 2], [3, 4], [5, 6]] (by decide)

def monoInput : SoundFile ℚ := inputFile 1 [[7], [8], [9]] (by decide)

def reducedArguments : Arguments ℚ :=
  ⟨none, some 2, some (.file swapFile), [stereoInput, monoInput]⟩

theorem deinterleave_undoes_reduced : ∃ (ai : Ai ℚ) (h : Handle ℚ),
    accepted unitPlatform (unitDisk none) (fun _ => 0) reducedArguments = .ok (some (ai, h)) ∧
    (∀ r < 4, ∀ c < 2, ai.adaptorMatrix.data r c = swapMatrix.data r c) ∧
    Chosen unitPlatform reducedArguments ai.adaptorMatrix ∧
    Undoes unitPlatform unitPlatform (unitDisk none) (fun _ => 0) reducedArguments 3
      ai.adaptorMatrix := by
  obtain ⟨ai, h, hacc, hrows, hcols, hentries, hsize⟩ : ∃ (ai : Ai ℚ) (h : Handle ℚ),
      accepted unitPlatform (unitDisk none) (fun _ => 0) reducedArguments = .ok (some (ai, h)) ∧
      ai.adaptorMatrix.rows = 4 ∧ ai.adaptorMatrix.cols = 2 ∧
      (∀ r < 4, ∀ c < 2, ai.adaptorMatrix.data r c = swapMatrix.data r c) ∧ ai.blocksize = 2 := by
    with_unfolding_all exact ⟨_, _, rfl, rfl, rfl, by decide +kernel, rfl⟩
  have hexact : Exact unitPlatform unitPlatform ai.adaptorMatrix := by
    intro r c hr hc
    rw [hrows] at hr
    rw [hcols] at hc
    rw [hentries r hr c hc]
    exact swapMatrix_exact r c hr hc
  refine ⟨ai, h, hacc, hentries, deinterleave_undoes hacc ?_ (by decide) ?_ ?_ ?_ (fun _ => rfl)
    (fun _ => rfl) (fun _ => rfl) hexact⟩
  · decide
  · rw [hsize]
    decide
  · rw [hcols]
    decide
  · rw [hrows]
    decide +kernel

theorem Undoes.outputs {P Q : Platform ℚ} {args : Arguments ℚ} {total : Nat} {M : AmbixMatrix ℚ}
    {file : SoundFile ℚ} {outs : Deinterleave.Outputs ℚ}
    (h : Undoes P Q (unitDisk none) (fun _ => 0) args total M)
    (hfile : ambixInterleave P (unitDisk none) (fun _ => 0) args = .ok (some file))
    (houts : Deinterleave.ambixDeinterleave Q (.holding file) (fun _ => unitDisk none) (fun _ => 0)
      none = .ok (some outs))
    (hblock : (args.infiles.map fun file => file.channels.toNat).sum*1024*4 < 2^64) :
    outs.ambi.map SoundFile.frames = (List.range M.rows.toNat).map (fun r =>
      channelOf r ((joined total args.infiles).map (mix id id M))) ∧
    outs.extra.length = (args.infiles.map fun file => file.channels.toNat).sum-M.cols.toNat := by
  obtain ⟨file', hfile', hall⟩ := h
  obtain rfl : file = file' := Option.some.inj (Except.ok.inj (hfile.symm.trans hfile'))
  obtain ⟨outs', houts', -, hambi, hextra⟩ :=
    hall (.holding file) (fun _ => unitDisk none) (fun _ => 0) none rfl (fun _ => rfl) hblock
  obtain rfl : outs = outs' := Option.some.inj (Except.ok.inj (houts.symm.trans houts'))
  have hlength := congrArg List.length hextra
  rw [List.length_map, List.length_map, List.length_range] at hlength
  exact ⟨hambi, hlength⟩

/-- A platform that knows the float next to the square root of 2 besides 0 and 1. -/
def rootPlatform : Platform ℚ where
  host := .little
  word x := if x = 11863283/8388608 then 0x3fb504f3 else if x = 1 then 0x3f800000 else 0
  number w := if w = 0x3fb504f3 then 11863283/8388608 else if w = 0x3f800000 then 1 else 0
  sqrt x := if x = 2 then 11863283/8388608 else x
  grants _ := true
  behind _ := 0

def ambFile : SoundFile ℚ := { unitFile with container := .wavexAmbisonic }

def emptyFile (channels : UInt32) (h : 0 < channels.toNat ∧ channels.toNat < 2^31) :
    SoundFile ℚ := inputFile channels [] ⟨h.1, h.2, by simp⟩

def ambArguments : Arguments ℚ := ⟨none, none, none, [ambFile]⟩

def emptyArguments : Arguments ℚ :=
  ⟨none, none, some (.file (emptyFile 1 (by decide))), [unitFile]⟩

def wrapArguments : Arguments ℚ :=
  ⟨none, none, none, [emptyFile 0x7fffffff (by decide), emptyFile 0x7fffffff (by decide),
    emptyFile 3 (by decide)]⟩

/-- An AMB file is decoded without being asked for, a matrix without columns ends the run, and
channels beyond the count are lost. -/
theorem deinterleave_undoes_fails :
    (∃ (ai : Ai ℚ) (h : Handle ℚ),
      accepted rootPlatform (unitDisk none) (fun _ => 0) ambArguments = .ok (some (ai, h)) ∧
      ¬ Undoes rootPlatform rootPlatform (unitDisk none) (fun _ => 0) ambArguments 1
        (fillIdentity (matrixInit 1 1))) ∧
    (∃ (ai : Ai ℚ) (h : Handle ℚ),
      accepted unitPlatform (unitDisk none) (fun _ => 0) emptyArguments = .ok (some (ai, h)) ∧
      ¬ Undoes unitPlatform unitPlatform (unitDisk none) (fun _ => 0) emptyArguments 1
        ai.adaptorMatrix) ∧
    ∃ (ai : Ai ℚ) (h : Handle ℚ),
      accepted unitPlatform (unitDisk none) (fun _ => 0) wrapArguments = .ok (some (ai, h)) ∧
      ¬ Undoes unitPlatform unitPlatform (unitDisk none) (fun _ => 0) wrapArguments 0
        ai.adaptorMatrix := by
  refine ⟨?_, ?_, ?_⟩
  · obtain ⟨ai, h, file, outs, hacc, hfile, houts, hframes⟩ :
        ∃ (ai : Ai ℚ) (h : Handle ℚ) (file : SoundFile ℚ) (outs : Deinterleave.Outputs ℚ),
        accepted rootPlatform (unitDisk none) (fun _ => 0) ambArguments = .ok (some (ai, h)) ∧
        ambixInterleave rootPlatform (unitDisk none) (fun _ => 0) ambArguments = .ok (some file) ∧
        Deinterleave.ambixDeinterleave rootPlatform (.holding file) (fun _ => unitDisk none)
          (fun _ => 0) none = .ok (some outs) ∧ outs.ambi.map SoundFile.frames ≠ [[[1]]] :=
      ⟨_, _, _, _, rfl, rfl, rfl, by decide +kernel⟩
    have hone : (List.range 1).map (fun r => channelOf r ((joined 1 ambArguments.infiles).map
        (mix id id (fillIdentity (matrixInit 1 1))))) = [[[1]]] := by decide +kernel
    exact ⟨ai, h, hacc, fun hall => hframes ((hall.outputs hfile houts (by decide)).1.trans hone)⟩
  · obtain ⟨ai, h, fault, hacc, hrun⟩ : ∃ (ai : Ai ℚ) (h : Handle ℚ) (fault : Stop),
        accepted unitPlatform (unitDisk none) (fun _ => 0) emptyArguments = .ok (some (ai, h)) ∧
        ambixInterleave unitPlatform (unitDisk none) (fun _ => 0) emptyArguments =
          .error fault := ⟨_, _, _, rfl, rfl⟩
    refine ⟨ai, h, hacc, fun ⟨file, hfile, _⟩ => ?_⟩
    cases hrun.symm.trans hfile
  · obtain ⟨ai, h, file, outs, hacc, hfile, houts, hcols, hextra⟩ :
        ∃ (ai : Ai ℚ) (h : Handle ℚ) (file : SoundFile ℚ) (outs : Deinterleave.Outputs ℚ),
        accepted unitPlatform (unitDisk none) (fun _ => 0) wrapArguments = .ok (some (ai, h)) ∧
        ambixInterleave unitPlatform (unitDisk none) (fun _ => 0) wrapArguments =
          .ok (some file) ∧
        Deinterleave.ambixDeinterleave unitPlatform (.holding file) (fun _ => unitDisk none)
          (fun _ => 0) none = .ok (some outs) ∧ ai.adaptorMatrix.cols = 1 ∧ outs.extra = [] :=
      ⟨_, _, _, _, rfl, rfl, rfl, rfl, rfl⟩
    refine ⟨ai, h, hacc, fun hall => ?_⟩
    have hlength := (hall.outputs hfile houts (by decide)).2
    have hsum : (wrapArguments.infiles.map fun file => file.channels.toNat).sum = 2^32+1 := by
      decide
    rw [hextra, hcols, hsum] at hlength
    exact absurd hlength (by decide)

end Ambix
