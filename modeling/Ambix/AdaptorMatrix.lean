import Ambix.Session

/-! `ambix_set_adaptormatrix`: what a call can do on a handle that has been reached
from `ambix_open`, and what has to precede the samples of an EXTENDED file. -/
namespace Ambix
open Machine
variable {K : Type} [Field K] [LinearOrder K]

/-- The calls made on an open handle. -/
abbrev Session (P : Platform K) (h : Handle K)
    (events : List (Event (Handle K) (Call K) (Answer K))) (h' : Handle K) : Prop :=
  Run (fun h call => Call.run P h call) h events h'

/-- Handles that can be met: opened somewhere, then used in any way. -/
def Reachable (P : Platform K) (h : Handle K) : Prop :=
  ∃ disk mode info h0 events, ambixOpen P disk mode info = .ok (some h0) ∧ Session P h0 events h

/-! The outcomes of a call. -/

/-- The ambisonics channels a matrix on a reading handle must take. -/
def decodedChannels (h : Handle K) : UInt32 :=
  if h.realinfo.fileformat = .extended then h.matrix.rows else h.realinfo.ambichannels

/-- Everything `ambix_set_adaptormatrix` can answer, and the handle it leaves then. -/
inductive SetOutcome (h : Handle K) (A : AmbixMatrix K) : Err × Handle K → Prop where
  | refused {err : Err} (herr : err ≠ .success)
      (hcols : h.filemode.canRead = true → h.info.fileformat = .basic →
        A.cols ≠ decodedChannels h) :
      SetOutcome h A (err, h)
  | multiplied {mtx : AmbixMatrix K} (hread : h.filemode.canRead = true)
      (hinfo : h.info.fileformat = .basic) (hreal : h.realinfo.fileformat = .extended)
      (hmtx : matrixMultiply A h.matrix h.matrix2 = some mtx) :
      SetOutcome h A (.success, { h with matrix2 := mtx, useMatrix := .matrix2 })
  | fellThrough (hread : h.filemode.canRead = true) (hinfo : h.info.fileformat = .basic)
      (hreal : h.realinfo.fileformat ≠ .extended) (hcols : A.cols = h.realinfo.ambichannels) :
      SetOutcome h A (.unknown, { h with matrix2 := A, useMatrix := .matrix2 })
  | encoded {pinv : AmbixMatrix K} (hread : h.filemode.canRead = false)
      (hwrite : h.filemode.canWrite = true) (hinfo : h.info.fileformat = .basic)
      (hfull : isFullset A.rows = true) (hcols : h.realinfo.ambichannels = A.cols)
      (hpinv : (matrixPinv A none).ret = some pinv) :
      SetOutcome h A (.success, { h with
        matrix2 := pinv
        matrix := A
        realinfo := { h.realinfo with fileformat := .extended }
        info := { h.info with ambichannels := A.rows }
        useMatrix := .matrix2
        pendingHeaders := true })
  | stored (hwrite : h.filemode.canWrite = true) (hinfo : h.info.fileformat = .extended)
      (hfull : isFullset A.rows = true) :
      SetOutcome h A (.success, { h with matrix := A, pendingHeaders := true })

theorem setAdaptormatrix_read {h : Handle K} (A : AmbixMatrix K) (hread : h.filemode.canRead = true)
    (hinfo : h.info.fileformat = .basic) : SetOutcome h A (h.setAdaptormatrix A) := by
  rw [Handle.setAdaptormatrix, if_pos ⟨hread, hinfo⟩]
  by_cases hreal : h.realinfo.fileformat = .extended
  · rw [if_pos hreal]
    split
    · rename_i hmtx
      refine .refused (by decide) fun _ _ => ?_
      rw [decodedChannels, if_pos hreal]
      intro hcols
      have hsome := (matrixMultiply_isSome A h.matrix h.matrix2).mpr hcols
      rw [hmtx] at hsome
      cases hsome
    · rename_i mtx hmtx
      exact .multiplied hread hinfo hreal hmtx
  · rw [if_neg hreal]
    by_cases hcols : A.cols = h.realinfo.ambichannels
    · rw [if_neg (not_not_intro hcols), matrixCopy_eq]
      exact .fellThrough hread hinfo hreal hcols
    · rw [if_pos hcols]
      refine .refused (by decide) fun _ _ => ?_
      rwa [decodedChannels, if_neg hreal]

theorem setAdaptormatrix_encodes {h : Handle K} {A : AmbixMatrix K}
    (hread : h.filemode.canRead = false) (hwrite : h.filemode.canWrite = true)
    (hinfo : h.info.fileformat = .basic) (hstarted : h.startedWriting = false)
    (hfull : isFullset A.rows = true) (hcols : h.realinfo.ambichannels = A.cols) :
    ∃ pinv, (matrixPinv A none).ret = some pinv ∧ h.setAdaptormatrix A = (.success, { h with
      matrix2 := pinv
      matrix := A
      realinfo := { h.realinfo with fileformat := .extended }
      info := { h.info with ambichannels := A.rows }
      useMatrix := .matrix2
      pendingHeaders := true }) := by
  obtain ⟨pinv, hpinv, -⟩ := matrixPinv_some A none
  refine ⟨pinv, hpinv, ?_⟩
  rw [Handle.setAdaptormatrix, if_neg (by rw [hread]; exact fun hr => by cases hr.1), if_pos hwrite,
    if_neg fun hno => hno.2 hinfo, if_neg (by rw [hstarted]; decide),
    if_neg (not_not_intro hfull), if_pos hinfo, if_neg (not_not_intro hcols), hpinv]
  dsimp only
  rw [matrixCopy_eq, matrixCopy_eq]

theorem setAdaptormatrix_write {h : Handle K} (A : AmbixMatrix K)
    (hread : ¬ (h.filemode.canRead = true ∧ h.info.fileformat = .basic)) :
    SetOutcome h A (h.setAdaptormatrix A) := by
  have hrefused (err : Err) (herr : err ≠ .success) : SetOutcome h A (err, h) :=
    .refused herr fun hr hi => absurd ⟨hr, hi⟩ hread
  by_cases hencodes : h.filemode.canWrite = true ∧ h.info.fileformat = .basic ∧
      h.startedWriting = false ∧ isFullset A.rows = true ∧ h.realinfo.ambichannels = A.cols
  · obtain ⟨hwrite, hinfo, hstarted, hfull, hcols⟩ := hencodes
    have hr : h.filemode.canRead = false := by
      rw [← Bool.not_eq_true]
      exact fun hr => hread ⟨hr, hinfo⟩
    obtain ⟨pinv, hpinv, hset⟩ := setAdaptormatrix_encodes hr hwrite hinfo hstarted hfull hcols
    rw [hset]
    exact .encoded hr hwrite hinfo hfull hcols hpinv
  rw [Handle.setAdaptormatrix, if_neg hread]
  by_cases hwrite : h.filemode.canWrite = true
  swap
  · rw [if_neg hwrite]
    exact hrefused _ (by decide)
  rw [if_pos hwrite]
  by_cases hnone : h.info.fileformat ≠ .extended ∧ h.info.fileformat ≠ .basic
  · rw [if_pos hnone]
    exact hrefused _ (by decide)
  rw [if_neg hnone]
  by_cases hstarted : h.startedWriting = true
  · rw [if_pos hstarted]
    exact hrefused _ (by decide)
  rw [if_neg hstarted]
  by_cases hfull : isFullset A.rows = true
  swap
  · rw [if_pos hfull]
    exact hrefused _ (by decide)
  rw [if_neg (not_not_intro hfull)]
  by_cases hinfo : h.info.fileformat = .basic
  · have hcols : h.realinfo.ambichannels ≠ A.cols := fun hcols =>
      hencodes ⟨hwrite, hinfo, Bool.not_eq_true _ ▸ hstarted, hfull, hcols⟩
    rw [if_pos hinfo, if_pos hcols]
    exact hrefused _ (by decide)
  · rw [if_neg hinfo, matrixCopy_eq]
    have hext : h.info.fileformat = .extended := by
      by_contra hext
      exact hnone ⟨hext, hinfo⟩
    exact .stored hwrite hext hfull

theorem setAdaptormatrix_outcome (h : Handle K) (A : AmbixMatrix K) :
    SetOutcome h A (h.setAdaptormatrix A) := by
  by_cases hread : h.filemode.canRead = true ∧ h.info.fileformat = .basic
  · exact setAdaptormatrix_read A hread.1 hread.2
  · exact setAdaptormatrix_write A hread

theorem encoded_of_success {h h' : Handle K} {A : AmbixMatrix K}
    (hread : h.filemode.canRead = false) (hinfo : h.info.fileformat = .basic)
    (hset : h.setAdaptormatrix A = (.success, h')) :
    isFullset A.rows = true ∧ h.realinfo.ambichannels = A.cols ∧
      ∃ pinv, (matrixPinv A none).ret = some pinv ∧ h' = { h with
        matrix2 := pinv
        matrix := A
        realinfo := { h.realinfo with fileformat := .extended }
        info := { h.info with ambichannels := A.rows }
        useMatrix := .matrix2
        pendingHeaders := true } := by
  have hout := setAdaptormatrix_outcome h A
  rw [hset] at hout
  generalize hr : ((Err.success, h') : Err × Handle K) = r at hout
  cases hout with
  | refused herr => exact absurd (congrArg Prod.fst hr).symm herr
  | multiplied hr' => exact absurd (hread.symm.trans hr') (by decide)
  | fellThrough hr' => exact absurd (hread.symm.trans hr') (by decide)
  | encoded _ _ _ hfull hcols hpinv => exact ⟨hfull, hcols, _, hpinv, congrArg Prod.snd hr⟩
  | stored _ hext => exact absurd (hinfo.symm.trans hext) (by decide)

theorem stored_of_success {h h' : Handle K} {A : AmbixMatrix K}
    (hinfo : h.info.fileformat = .extended) (hset : h.setAdaptormatrix A = (.success, h')) :
    isFullset A.rows = true ∧ h' = { h with matrix := A, pendingHeaders := true } := by
  have hout := setAdaptormatrix_outcome h A
  rw [hset] at hout
  generalize hr : ((Err.success, h') : Err × Handle K) = r at hout
  cases hout with
  | refused herr => exact absurd (congrArg Prod.fst hr).symm herr
  | multiplied _ hbasic => exact absurd (hinfo.symm.trans hbasic) (by decide)
  | fellThrough _ hbasic => exact absurd (hinfo.symm.trans hbasic) (by decide)
  | encoded _ _ hbasic => exact absurd (hinfo.symm.trans hbasic) (by decide)
  | stored _ _ hfull => exact ⟨hfull, congrArg Prod.snd hr⟩

theorem run_set {P : Platform K} {h h' : Handle K} {A : AmbixMatrix K} {answer : Answer K}
    (hcall : (Call.setAdaptormatrix A).run P h = .ok (answer, h')) :
    (h.setAdaptormatrix A).2 = h' ∧ answer = .err (h.setAdaptormatrix A).1 :=
  ⟨congrArg Prod.snd (Except.ok.inj hcall), (congrArg Prod.fst (Except.ok.inj hcall)).symm⟩

theorem setAdaptormatrix_sf (h : Handle K) (A : AmbixMatrix K) :
    (h.setAdaptormatrix A).2.sf = h.sf ∧ SameFile h (h.setAdaptormatrix A).2 := by
  have hout := setAdaptormatrix_outcome h A
  generalize h.setAdaptormatrix A = r at hout
  cases hout <;> exact ⟨rfl, rfl, rfl, rfl, rfl, rfl, rfl, rfl⟩

theorem run_sameFile {P : Platform K} {h h' : Handle K} {call : Call K} {answer : Answer K}
    (hcall : call.run P h = .ok (answer, h')) : SameFile h h' := by
  cases call with
  | writef type ambidata otherdata frames =>
    obtain ⟨⟨result, g⟩, hg, hcall⟩ := bind_eq_ok.mp hcall
    rw [← answered_state hcall]
    exact writef_sameFile hg
  | setAdaptormatrix matrix => exact answered_state hcall ▸ (setAdaptormatrix_sf h matrix).2
  | readf type ambidata otherdata frames =>
    obtain ⟨⟨result, g⟩, hg, hcall⟩ := bind_eq_ok.mp hcall
    rw [← answered_state hcall]
    exact readf_sameFile hg
  | seek position =>
    rw [← answered_state hcall]
    exact ⟨rfl, rfl, rfl, rfl, rfl, rfl, rfl⟩
  | addMarker marker => exact answered_state hcall ▸ (addMarker_annotates h marker).sameFile
  | addRegion region => exact answered_state hcall ▸ (addRegion_annotates h region).sameFile
  | deleteMarkers => exact answered_state hcall ▸ (deleteMarkers_annotates h).sameFile
  | deleteRegions => exact answered_state hcall ▸ (deleteRegions_annotates h).sameFile

theorem session_sameFile {P : Platform K} {h h' : Handle K}
    {events : List (Event (Handle K) (Call K) (Answer K))} (hrun : Session P h events h') :
    SameFile h h' :=
  hrun.preserves (SameFile h) (SameFile.refl h)
    fun _ _ _ _ hcall hs => hs.trans (run_sameFile hcall)

/-! What holds of every reachable handle. -/

structure Consistent (l : Layout K) : Prop where
  mode : l.filemode ≠ .rdrw
  readBasic : l.filemode.canRead = true → l.info.fileformat = .basic →
    (l.realinfo.fileformat = .extended ∧ l.info.ambichannels = l.matrix.rows) ∨
    (l.realinfo.fileformat = .basic ∧ l.info.ambichannels = l.realinfo.ambichannels)
  writeExtended : l.filemode.canWrite = true → l.info.fileformat = .extended →
    l.realinfo.fileformat = .extended

omit [LinearOrder K] in
theorem openFormats_mode {mode : FileMode} {info : Info} {r : Info × FileFormat}
    (h : openFormats mode info = some r) : mode ≠ .rdrw := by
  rintro rfl
  cases h

theorem openFormats_extended {mode : FileMode} {info ambixinfo : Info}
    (h : openFormats mode info = some (ambixinfo, .extended)) :
    ambixinfo.fileformat = .extended := by
  unfold openFormats at h
  split at h
  · split at h
    · cases h
    · split at h
      · obtain ⟨rfl, hf⟩ := Prod.mk.inj (Option.some.inj h)
        exact hf
      · split at h
        · dsimp only at h
          split at h
          · cases (Prod.mk.inj (Option.some.inj h)).2
          · cases h
        · cases h
  · obtain ⟨rfl, hf⟩ := Prod.mk.inj (Option.some.inj h)
    exact hf

omit [LinearOrder K] in
theorem openedRealinfo_write {mode : FileMode} {ambixinfo : Info} {o : Opened K}
    (hmode : mode.canWrite = true) (hext : ambixinfo.fileformat = .extended) :
    (openedRealinfo mode ambixinfo o).fileformat ≠ .basic := by
  unfold openedRealinfo
  dsimp only
  split
  · rw [writeRealinfo, hext]
    intro h
    cases h
  · intro h
    cases h

omit [LinearOrder K] in
theorem consistent_open {P : Platform K} {disk : Disk K} {mode : FileMode} {info : Info}
    {h : Handle K} (hopen : ambixOpen P disk mode info = .ok (some h)) : Consistent h.toLayout := by
  obtain ⟨ambixinfo, wantformat, o, markers, regions, hformats, -, -, hres⟩ :=
    ambixOpen_eq_some.mp hopen
  obtain ⟨size, rfl⟩ := resize_eq hres
  have hmode := openFormats_mode hformats
  obtain ⟨-, hreal, hp⟩ | ⟨rfl, hreal, hp⟩ | ⟨hbasic, hext, hp⟩ :=
    present_cases wantformat (freshLayout mode ambixinfo o)
  · change Consistent ((freshLayout mode ambixinfo o).present wantformat)
    rw [hp]
    exact ⟨hmode, fun _ _ => Or.inl ⟨hreal, rfl⟩, fun _ _ => hreal⟩
  · change Consistent ((freshLayout mode ambixinfo o).present .extended)
    rw [hp]
    refine ⟨hmode, fun _ hi => ?_, fun hw _ => absurd hreal ?_⟩
    · cases hi
    · exact openedRealinfo_write hw (openFormats_extended hformats)
  · change Consistent ((freshLayout mode ambixinfo o).present wantformat)
    rw [hp]
    exact ⟨hmode, fun _ hi => Or.inr ⟨hi, rfl⟩, fun _ hi => hi⟩

theorem consistent_set {h : Handle K} (A : AmbixMatrix K) (hc : Consistent h.toLayout) :
    Consistent (h.setAdaptormatrix A).2.toLayout := by
  have hout := setAdaptormatrix_outcome h A
  generalize h.setAdaptormatrix A = r at hout
  cases hout with
  | refused => exact hc
  | multiplied => exact ⟨hc.mode, hc.readBasic, hc.writeExtended⟩
  | fellThrough => exact ⟨hc.mode, hc.readBasic, hc.writeExtended⟩
  | encoded hread =>
    exact ⟨hc.mode, fun hr => absurd (hread.symm.trans hr) (by decide), fun _ _ => rfl⟩
  | stored hwrite hinfo hfull =>
    exact ⟨hc.mode, fun _ hi => absurd (hinfo.symm.trans hi) (by decide), hc.writeExtended⟩

theorem consistent_run {P : Platform K} {h h' : Handle K} {call : Call K} {answer : Answer K}
    (hcall : call.run P h = .ok (answer, h')) (hc : Consistent h.toLayout) :
    Consistent h'.toLayout := by
  by_cases hset : ∃ A, call = .setAdaptormatrix A
  · obtain ⟨A, rfl⟩ := hset
    rw [← answered_state hcall]
    exact consistent_set A hc
  · rw [run_layout hcall fun A hA => hset ⟨A, hA⟩]
    exact hc

theorem reachable_consistent {P : Platform K} {h : Handle K} (hr : Reachable P h) :
    Consistent h.toLayout := by
  obtain ⟨disk, mode, info, h0, events, hopen, hrun⟩ := hr
  exact hrun.preserves (fun h => Consistent h.toLayout) (consistent_open hopen)
    fun _ _ _ _ hcall => consistent_run hcall

/-! All or nothing. -/

/-- `A` is what the next transfers go through: on a reading handle in front of the full
set, on a writing handle as the stored matrix, encoding by its pseudo-inverse
when full-set frames are written. -/
def InEffect (A : AmbixMatrix K) (h h' : Handle K) : Prop :=
  if h.filemode.canRead = true then
    h'.useMatrix = .matrix2 ∧
      if h.realinfo.fileformat = .extended then
        matrixMultiply A h.matrix h.matrix2 = some h'.matrix2
      else h'.matrix2 = A
  else
    h'.matrix = A ∧ h'.realinfo.fileformat = .extended ∧ h'.pendingHeaders = true ∧
      (h.info.fileformat = .basic → h'.useMatrix = .matrix2 ∧ h'.info.ambichannels = A.rows ∧
        (matrixPinv A none).ret = some h'.matrix2)

/-- One call either succeeds with the matrix in effect or fails without a trace, and
does not fail for a matrix on the full set that is read. -/
structure AllOrNothing (h : Handle K) (A : AmbixMatrix K) : Prop where
  outcome :
    ((h.setAdaptormatrix A).1 = .success ∧ InEffect A h (h.setAdaptormatrix A).2) ∨
    ((h.setAdaptormatrix A).1 ≠ .success ∧ (h.setAdaptormatrix A).2.toLayout = h.toLayout ∧
      (h.setAdaptormatrix A).2.pendingHeaders = h.pendingHeaders)
  succeeds : h.filemode.canRead = true → h.info.fileformat = .basic →
    A.cols = h.info.ambichannels → (h.setAdaptormatrix A).1 = .success

/-- A fitting matrix for a BASIC file that is read as BASIC. -/
def FallsThrough (h : Handle K) (A : AmbixMatrix K) : Prop :=
  h.filemode.canRead = true ∧ h.info.fileformat = .basic ∧ h.realinfo.fileformat = .basic ∧
    A.cols = h.realinfo.ambichannels

omit [LinearOrder K] in
theorem cannotRead_of_write {h : Handle K} (hc : Consistent h.toLayout)
    (hw : h.filemode.canWrite = true) : ¬ h.filemode.canRead = true := by
  have hmode : h.filemode ≠ .rdrw := hc.mode
  cases hf : h.filemode with
  | read =>
    rw [hf] at hw
    cases hw
  | write => decide
  | rdrw => exact absurd hf hmode

theorem allOrNothing_of {h : Handle K} (hc : Consistent h.toLayout) (A : AmbixMatrix K)
    (hno : ¬ FallsThrough h A) : AllOrNothing h A := by
  have hout := setAdaptormatrix_outcome h A
  generalize hr : h.setAdaptormatrix A = r at hout
  have hsuccess (h' : Handle K) (hh : r = (.success, h')) (heff : InEffect A h h') :
      AllOrNothing h A := by
    rw [hh] at hr
    exact ⟨Or.inl (by rw [hr]; exact ⟨rfl, heff⟩), fun _ _ _ => by rw [hr]⟩
  cases hout with
  | refused herr hcols =>
    refine ⟨Or.inr (by rw [hr]; exact ⟨herr, rfl, rfl⟩), fun hread hinfo hA => ?_⟩
    refine absurd ?_ (hcols hread hinfo)
    obtain ⟨hreal, hambi⟩ | ⟨hreal, hambi⟩ := hc.readBasic hread hinfo
    · exact (hA.trans hambi).trans (if_pos hreal).symm
    · exact (hA.trans hambi).trans (if_neg fun he => absurd (hreal.symm.trans he) (by decide)).symm
  | multiplied hread hinfo hreal hmtx =>
    refine hsuccess _ rfl ?_
    rw [InEffect, if_pos hread, if_pos hreal]
    exact ⟨rfl, hmtx⟩
  | fellThrough hread hinfo hreal hcols =>
    obtain ⟨hext, -⟩ | ⟨hbasic, -⟩ := hc.readBasic hread hinfo
    · exact absurd hext hreal
    · exact absurd ⟨hread, hinfo, hbasic, hcols⟩ hno
  | encoded hread hwrite hinfo hfull hcols hpinv =>
    refine hsuccess _ rfl ?_
    rw [InEffect, if_neg (by rw [hread]; decide)]
    exact ⟨rfl, rfl, rfl, fun _ => ⟨rfl, rfl, hpinv⟩⟩
  | stored hwrite hinfo hfull =>
    refine hsuccess _ rfl ?_
    rw [InEffect, if_neg (cannotRead_of_write hc hwrite)]
    exact ⟨rfl, hc.writeExtended hwrite hinfo, rfl,
      fun hb => absurd (hinfo.symm.trans hb) (by decide)⟩

/-- The branch that stores the matrix and still ends in the error. -/
theorem setAdaptormatrix_fallsThrough {h : Handle K} {A : AmbixMatrix K} (hf : FallsThrough h A) :
    h.setAdaptormatrix A = (.unknown, { h with matrix2 := A, useMatrix := .matrix2 }) := by
  obtain ⟨hread, hinfo, hreal, hcols⟩ := hf
  rw [Handle.setAdaptormatrix, if_pos ⟨hread, hinfo⟩, hreal, if_neg (by decide),
    if_neg (not_not_intro hcols), matrixCopy_eq]

theorem not_allOrNothing {h : Handle K} (hc : Consistent h.toLayout) {A : AmbixMatrix K}
    (hf : FallsThrough h A) : ¬ AllOrNothing h A := by
  intro hall
  obtain ⟨hext, -⟩ | ⟨-, hambi⟩ := hc.readBasic hf.1 hf.2.1
  · exact absurd (hf.2.2.1.symm.trans hext) (by decide)
  · have hsucc := hall.succeeds hf.1 hf.2.1 (hf.2.2.2.trans hambi.symm)
    rw [setAdaptormatrix_fallsThrough hf] at hsucc
    cases hsucc

/-- On a reachable handle the call is all or nothing but for that branch. -/
theorem allOrNothing_iff {P : Platform K} {h : Handle K} (hr : Reachable P h) (A : AmbixMatrix K) :
    AllOrNothing h A ↔ ¬ FallsThrough h A :=
  ⟨fun hall hf => not_allOrNothing (reachable_consistent hr) hf hall,
    allOrNothing_of (reachable_consistent hr) A⟩

theorem unitFile_opened (format : FileFormat) : ∃ h : Handle ℚ,
    ambixOpen unitPlatform (unitDisk (some unitFile)) .read ⟨format, 0, 0⟩ = .ok (some h) ∧
    h.filemode = .read ∧ h.info.fileformat = (if format = .extended then .extended else .basic) ∧
    h.realinfo = ⟨.basic, 0, 1⟩ := by
  cases format <;> exact ⟨_, rfl, rfl, rfl, rfl⟩

theorem allOrNothing_iff_unit : ∃ h : Handle ℚ, Reachable unitPlatform h ∧
    (AllOrNothing h (unitMatrix 1 1) ↔
      ¬ FallsThrough h (unitMatrix 1 1)) := by
  obtain ⟨h, hopen, -⟩ := unitFile_opened .extended
  have hr : Reachable unitPlatform h := ⟨_, _, _, h, [], hopen, .start⟩
  exact ⟨h, hr, allOrNothing_iff hr _⟩

/-- The 1 by 1 identity on a BASIC file that is read as BASIC. -/
theorem allOrNothing_fails : ∃ h : Handle ℚ, Reachable unitPlatform h ∧
    ¬ AllOrNothing h (unitMatrix 1 1) := by
  obtain ⟨h, hopen, hread, hinfo, hreal⟩ := unitFile_opened .basic
  have hr : Reachable unitPlatform h := ⟨_, _, _, h, [], hopen, .start⟩
  refine ⟨h, hr, not_allOrNothing (reachable_consistent hr) ⟨?_, hinfo, ?_, ?_⟩⟩
  · rw [hread]
    rfl
  · rw [hreal]
  · rw [hreal]
    rfl

end Ambix
