import Ambix.KeptFrames
import Ambix.PseudoInverse

/-! Files written as BASIC through a matrix of full rank. What the matrix can make of a reduced
set is written as that reduced set and read back as it was sent. -/
namespace Ambix
open Machine

/-! The pseudo-inverse on frames. -/

section frames
variable {K : Type} [Field K] {A P : AmbixMatrix K} {r c : Nat}

theorem mix_undone (hr : A.rows.toNat = r) (hc : A.cols.toNat = c) (hpr : P.rows.toNat = c)
    (hpc : P.cols.toNat = r) (hsmall : c < 2^31) (hone : P.block c r*A.block r c = 1)
    {fr : List K} (hfr : fr.length = c) : mix id id P (mix id id A fr) = fr := by
  have hidentity : (fillIdentity (matrixInit A.cols A.cols : AmbixMatrix K)).block c c = 1 :=
    fillIdentity_block hc hc hsmall
  obtain ⟨hir, hic⟩ : Square (fillIdentity (matrixInit A.cols A.cols : AmbixMatrix K)) c :=
    fillIdentity_square ⟨hc, hc⟩
  have hproduct : matrixMultiply P A matrixNull = some (fillIdentity (matrixInit A.cols A.cols)) :=
    matrixMultiply_eq_of_block matrixNull hpr hpc hr hc hir hic (hone.trans hidentity.symm)
  rw [← mix_product hproduct, mix_identity (hc ▸ hsmall) (hfr.trans hc.symm)]

theorem mix_kept (hr : A.rows.toNat = r) (hc : A.cols.toNat = c) (hpr : P.rows.toNat = c)
    (hpc : P.cols.toNat = r) (hpenrose : Penrose (A.block r c) (P.block c r)) (fr : List K) :
    mix id id A (mix id id P (mix id id A fr)) = mix id id A fr := by
  obtain ⟨B, hB, hbr, hbc, hblock⟩ := matrixMultiply_block matrixNull hr hc hpr hpc
  have hproduct : matrixMultiply B A matrixNull = some A := by
    refine matrixMultiply_eq_of_block matrixNull (hbr ▸ hr) (hbc ▸ hpc) hr hc hr hc ?_
    rw [hblock, hpenrose.keeps]
  rw [← mix_product hB, ← mix_product hproduct]

end frames

section pinv
variable {K : Type} [Field K] [LinearOrder K] [IsStrictOrderedRing K] {A : AmbixMatrix K}

omit [LinearOrder K] [IsStrictOrderedRing K] in
theorem InMemory.cols_lt (hmem : InMemory A) (hle : A.cols ≤ A.rows) : A.cols.toNat < 2^31 := by
  have hsquare : A.cols.toNat*A.cols.toNat ≤ A.rows.toNat*A.cols.toNat :=
    Nat.mul_le_mul_right _ (UInt32.le_iff_toNat_le.mp hle)
  unfold InMemory at hmem
  by_contra hlarge
  have hlarge : 2^31*2^31 ≤ A.cols.toNat*A.cols.toNat :=
    Nat.mul_le_mul (Nat.le_of_not_lt hlarge) (Nat.le_of_not_lt hlarge)
  omega

/-- The pseudo-inverse of a matrix of full rank keeps all that the matrix can make, and finds
the reduced set it has been made of if no channel of it is too many. -/
theorem pinv_frames (hmem : InMemory A) (hrank : FullRank A) (hlarge : LargePivots A) :
    ∃ P, (matrixPinv A none).ret = some P ∧
      (∀ fr, mix id id A (mix id id P (mix id id A fr)) = mix id id A fr) ∧
      (A.cols ≤ A.rows → ∀ fr : List K, fr.length = A.cols.toNat →
        mix id id P (mix id id A fr) = fr) := by
  by_cases htall : A.rows > A.cols
  · obtain ⟨P, hP, hrows, hcols, hone, hpenrose⟩ := pinv_tall rfl rfl hmem hrank hlarge none htall
    refine ⟨P, hP, mix_kept rfl rfl (congrArg _ hrows) (congrArg _ hcols) hpenrose,
      fun hle fr hfr => ?_⟩
    exact mix_undone rfl rfl (congrArg _ hrows) (congrArg _ hcols) (hmem.cols_lt hle) hone hfr
  · obtain ⟨P, hP, hrows, hcols, hone, hpenrose⟩ := pinv_wide rfl rfl hmem hrank hlarge none htall
    refine ⟨P, hP, mix_kept rfl rfl (congrArg _ hrows) (congrArg _ hcols) hpenrose,
      fun hle fr hfr => ?_⟩
    have hsquare : A.rows = A.cols := UInt32.le_antisymm (UInt32.not_lt.mp htall) hle
    have hr : A.rows.toNat = A.cols.toNat := congrArg _ hsquare
    rw [hr] at hone
    exact mix_undone hr rfl (congrArg _ hrows) ((congrArg _ hcols).trans hr) (hmem.cols_lt hle)
      (mul_eq_one_comm.mp hone) hfr

end pinv

/-! Files. -/

section files
variable {K : Type} [Field K] [LinearOrder K] [IsStrictOrderedRing K] {P Q : Platform K}
  {disk : Disk K} {info : Info} {h h0 : Handle K}
  {events : List (Event (Handle K) (Call K) (Answer K))} {file : SoundFile K} {res : Err}
  {A : AmbixMatrix K}

omit [IsStrictOrderedRing K] in
theorem GivesBack.congr {view view' : FileFormat → Frame K → Frame K}
    {stored : Nat → Option (Frame K)} (hgives : GivesBack Q file view stored)
    (hviews : ∀ i f, stored i = some f → ∀ format, view format f = view' format f) :
    GivesBack Q file view' stored := by
  intro disk info g0 g before after e n got split hfile hopen hrun hplain k hk
  rw [hgives disk info g0 g before after e n got split hfile hopen hrun hplain k hk]
  exact Option.map_congr fun f hf => hviews _ f hf _

/-- What has been sent is what the matrix makes of reduced sets. An EXTENDED view gives back the
reduced sets, a BASIC one what has been sent. -/
theorem reduced_kept (hopen : ambixOpen P disk .write info = .ok (some h0))
    (hok : ∀ k, disk.chunkOk k = true) (hrun : Session P h0 events h)
    (hmem : ∀ e ∈ events, ∀ A, e.call = .setAdaptormatrix A → Addressable A)
    (hlast : lastAccepted events = some A) (hrows : A.rows ≠ 0) (hcols : A.cols ≠ 0)
    (hfits : A.cols = h.realinfo.ambichannels) (hwrap : h.realChannels < 2^32)
    (hexact : Exact P Q A) (hinside : Tape.Inside (events.map tapeOp) ⟨[], 0⟩)
    (hclose : h.close P = .ok (res, file)) (hbasic : h.info.fileformat = .basic)
    (hmatrix : InMemory A) (hrank : FullRank A) (hlarge : LargePivots A)
    (hmade : ∀ i f, Tape.lastStored i (events.map (sentOp h.coder)) ⟨[], 0⟩ = some f →
      ∃ reduced, f.1 = mix id id A reduced) : ∃ reduce : List K → List K,
      (A.cols ≤ A.rows → ∀ reduced : List K, reduced.length = A.cols.toNat →
        reduce (mix id id A reduced) = reduced) ∧
      GivesBack Q file (fun format f => (if format = .basic then f.1 else reduce f.1, f.2))
        fun i => Tape.lastStored i (events.map (sentOp h.coder)) ⟨[], 0⟩ := by
  obtain ⟨pinv, hpinv, hencode⟩ := (session_encode hopen hok hrun hmem hlast).2 hbasic
  obtain ⟨pinv', hpinv', hkept, hundone⟩ := pinv_frames hmatrix hrank hlarge
  obtain rfl : pinv = pinv' := Option.some.inj (hpinv.symm.trans hpinv')
  have hgives := extended_gives hopen hok hrun hmem hlast hrows hcols hfits hwrap hexact hinside
    hclose
  rw [hencode] at hgives
  refine ⟨mix id id pinv, hundone, hgives.congr fun i f hf format => ?_⟩
  obtain ⟨reduced, hreduced⟩ := hmade i f hf
  rw [hreduced, hkept]

/-! Frames through a matrix with more rows than columns. -/

theorem swapMatrix_fullRank : FullRank swapMatrix := by
  have hgram : (swapMatrix.block 4 2).transpose*swapMatrix.block 4 2 = 1 := by decide +kernel
  change (swapMatrix.block 4 2).rank = 2
  rw [← Matrix.rank_transpose_mul_self, hgram, Matrix.rank_one, Fintype.card_fin]

def fullFrames : Transfer ℚ :=
  ⟨.float32, fun i => if i%4 = 0 then (i/4 : Nat) else if i%4 = 1 then (i/4+7 : Nat) else 0,
    fun i => -i, 3⟩

theorem fullFrames_made {f : Frame ℚ} (hf : f ∈ fullFrames.sent 4 1) :
    ∃ reduced, f.1 = mix id id swapMatrix reduced := by
  have hmem : f.1 ∈ framesOf fullFrames.ambidata 4 3 := (List.of_mem_zip hf).1
  have hframes : framesOf fullFrames.ambidata 4 3 =
      [[7, 0], [8, 1], [9, 2]].map (mix id id swapMatrix) := by decide +kernel
  rw [hframes] at hmem
  obtain ⟨reduced, -, hreduced⟩ := List.mem_map.mp hmem
  exact ⟨reduced, hreduced.symm⟩

theorem reduced_kept_full : ∃ (h0 h1 h : Handle ℚ) (file : SoundFile ℚ)
      (reduce : List ℚ → List ℚ),
    ambixOpen unitPlatform (unitDisk none) .write ⟨.basic, 1, 2⟩ = .ok (some h0) ∧
    Session unitPlatform h0 (matrixEvents h0 h1 swapMatrix fullFrames) h ∧
    h.close unitPlatform = .ok (.success, file) ∧
    (∀ reduced : List ℚ, reduced.length = 2 →
      reduce (mix id id swapMatrix reduced) = reduced) ∧
    GivesBack unitPlatform file
      (fun format f => (if format = .basic then f.1 else reduce f.1, f.2))
      fun i => Tape.lastStored i
        ((matrixEvents h0 h1 swapMatrix fullFrames).map (sentOp h.coder)) ⟨[], 0⟩ := by
  obtain ⟨h0, h1, hopen, hset⟩ := swapMatrix_encodes
  obtain ⟨hfull, -, pinv, -, hrows, hcols, hstart⟩ :=
    basic_start hopen hset (fun _ => rfl) (by decide) (by decide) (by decide)
  obtain ⟨h, hwritef⟩ := writef_answered hstart hfull (fun _ => rfl) (encoder_room hrows)
    (show 5 < 2^32 by decide) fullFrames (show 3 < 2^29 by decide)
  have hwriting := writef_writing hstart _ hwritef
  obtain ⟨file, hclose, -⟩ := close_writing hwriting
  have hwrite : Call.run unitPlatform h1
      (.writef .float32 fullFrames.ambidata fullFrames.otherdata 3) =
      .ok (.written (.ok 3), h) := by
    change h1.writef unitPlatform fullFrames.type fullFrames.ambidata fullFrames.otherdata
      fullFrames.frames >>= _ = _
    rw [hwritef, ok_bind]
    rfl
  have hset' : Call.run unitPlatform h0 (.setAdaptormatrix swapMatrix) =
      .ok (.err .success, h1) := by
    rw [Call.run, hset]
  have hrun : Session unitPlatform h0 (matrixEvents h0 h1 swapMatrix fullFrames) h :=
    .call (.call .start hset') hwrite
  have hcoder : h.coder.ambi = 4 ∧ h.coder.extra = 1 := by
    rw [hwriting.layout]
    exact ⟨congrArg UInt32.toNat hcols, rfl⟩
  have hmade : ∀ i f, Tape.lastStored i
      ((matrixEvents h0 h1 swapMatrix fullFrames).map (sentOp h.coder)) ⟨[], 0⟩ = some f →
      ∃ reduced, f.1 = mix id id swapMatrix reduced := by
    intro i f hf
    obtain ⟨e, he, t, hcall, hf⟩ := stored_sent hf
    rw [hcoder.1, hcoder.2] at hf
    simp only [matrixEvents, List.mem_cons, List.not_mem_nil, or_false] at he
    rcases he with rfl | rfl
    · cases hcall
    · obtain ⟨htype, hambidata, hotherdata, hframes⟩ := Call.writef.inj hcall
      refine fullFrames_made ?_
      rwa [Transfer.sent, hambidata, hotherdata, hframes]
  obtain ⟨reduce, hreduce, hback⟩ := reduced_kept (A := swapMatrix) hopen (fun _ => rfl) hrun
    (matrixEvents_addressable h0 h1 swapMatrix_addressable fullFrames) rfl (by decide) (by decide)
    (by rw [hwriting.layout]; rfl) (by rw [hwriting.layout]; exact (by decide : 2+1 < 2^32))
    swapMatrix_exact (matrixEvents_inside h0 h1 swapMatrix fullFrames) hclose
    (by rw [hwriting.layout]; rfl) (Nat.lt_of_sub_eq_succ rfl) swapMatrix_fullRank
    (by unfold LargePivots; decide +kernel) hmade
  exact ⟨h0, h1, h, file, reduce, hopen, hrun, hclose, hreduce (by decide), hback⟩

end files
end Ambix
