import Ambix.AdaptorMatrix
import Ambix.Gram

/-! The check of `ambix_set_adaptormatrix` that a matrix is invertible. It asks whether the
inversion has returned a matrix. The rank that the decomposition has found is dropped on the
way, and the inversion always returns one. -/
namespace Ambix
open Machine

/-- A matrix of less than full rank is answered as one that cannot be inverted. -/
def RejectsSingular (h : Handle ℚ) (A : AmbixMatrix ℚ) : Prop :=
  ¬ FullRank A → h.setAdaptormatrix A = (.invalidMatrix, h)

/-- The handle of a writer that encodes the full set by `encoder`. -/
def Handle.installed (h : Handle ℚ) (A encoder : AmbixMatrix ℚ) : Handle ℚ :=
  { h with
    matrix2 := encoder
    matrix := A
    realinfo := { h.realinfo with fileformat := .extended }
    info := { h.info with ambichannels := A.rows }
    useMatrix := .matrix2
    pendingHeaders := true }

/-- Whatever its rank is, a matrix of the right size is inverted and installed. -/
theorem encoder_installed {h : Handle ℚ} {A : AmbixMatrix ℚ} (hmode : h.filemode = .write)
    (hinfo : h.info.fileformat = .basic) (hstarted : h.startedWriting = false)
    (hfull : isFullset A.rows = true) (hcols : h.realinfo.ambichannels = A.cols) :
    ∃ encoder, (matrixPinv A none).ret = some encoder ∧
      h.setAdaptormatrix A = (.success, h.installed A encoder) :=
  setAdaptormatrix_encodes (by rw [hmode]; decide) (by rw [hmode]; decide) hinfo hstarted hfull
    hcols

theorem RejectsSingular.fullRank {h h' : Handle ℚ} {A : AmbixMatrix ℚ} (hr : RejectsSingular h A)
    (hset : h.setAdaptormatrix A = (.success, h')) : FullRank A := by
  by_contra hsingular
  have herr := congrArg Prod.fst ((hr hsingular).symm.trans hset)
  cases herr

/-- A writer rejects no matrix for its rank: it installs the result of the failed inversion. -/
theorem rejectsSingular_iff {h : Handle ℚ} {A : AmbixMatrix ℚ} (hmode : h.filemode = .write)
    (hinfo : h.info.fileformat = .basic) (hstarted : h.startedWriting = false)
    (hfull : isFullset A.rows = true) (hcols : h.realinfo.ambichannels = A.cols) :
    (RejectsSingular h A ↔ FullRank A) ∧ ∃ encoder, (matrixPinv A none).ret = some encoder ∧
      h.setAdaptormatrix A = (.success, h.installed A encoder) := by
  obtain ⟨encoder, hpinv, hset⟩ := encoder_installed hmode hinfo hstarted hfull hcols
  exact ⟨⟨fun hr => hr.fullRank hset, fun hrank hsingular => absurd hrank hsingular⟩,
    encoder, hpinv, hset⟩

theorem unitWriter_opened : ∃ h : Handle ℚ,
    ambixOpen unitPlatform (unitDisk none) .write ⟨.basic, 0, 1⟩ = .ok (some h) ∧
    h.filemode = .write ∧ h.info.fileformat = .basic ∧ h.startedWriting = false ∧
    h.realinfo.ambichannels = 1 := ⟨_, rfl, rfl, rfl, rfl, rfl⟩

theorem rejectsSingular_iff_zero : ∃ h : Handle ℚ,
    ambixOpen unitPlatform (unitDisk none) .write ⟨.basic, 0, 1⟩ = .ok (some h) ∧
    (RejectsSingular h (matrixInit 1 1) ↔ FullRank (matrixInit 1 1 : AmbixMatrix ℚ)) := by
  obtain ⟨h, hopen, hmode, hinfo, hstarted, hambi⟩ := unitWriter_opened
  exact ⟨h, hopen, (rejectsSingular_iff hmode hinfo hstarted rfl hambi).1⟩

theorem matrixInit_singular : ¬ FullRank (matrixInit 1 1 : AmbixMatrix ℚ) := by
  have hzero : (matrixInit 1 1 : AmbixMatrix ℚ).block 1 1 = 0 := by
    ext i j
    exact ite_self _
  intro hrank
  have hone : ((matrixInit 1 1 : AmbixMatrix ℚ).block 1 1).rank = 1 := hrank
  rw [hzero, Matrix.rank_zero] at hone
  cases hone

/-- The single 0 is taken as an invertible matrix. -/
theorem rejectsSingular_fails : ∃ h : Handle ℚ,
    ambixOpen unitPlatform (unitDisk none) .write ⟨.basic, 0, 1⟩ = .ok (some h) ∧
    h.filemode = .write ∧ h.info.fileformat = .basic ∧ h.startedWriting = false ∧
    h.realinfo.ambichannels = 1 ∧ (h.setAdaptormatrix (matrixInit 1 1)).1 = .success ∧
    ¬ RejectsSingular h (matrixInit 1 1) := by
  obtain ⟨h, hopen, hmode, hinfo, hstarted, hambi⟩ := unitWriter_opened
  obtain ⟨encoder, -, hset⟩ := encoder_installed (A := matrixInit 1 1) hmode hinfo hstarted rfl
    hambi
  exact ⟨h, hopen, hmode, hinfo, hstarted, hambi, congrArg Prod.fst hset,
    fun hr => matrixInit_singular (hr.fullRank hset)⟩

end Ambix
