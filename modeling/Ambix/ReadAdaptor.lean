import Ambix.BlockSize
import Mathlib.Algebra.BigOperators.Group.Finset.Sigma

/-! An adaptor set on a reading handle is put in front of what the file decodes by itself. -/
namespace Ambix
open Machine

/-! Products. -/

section product
variable {K : Type} [Field K]

theorem mix_getElem? (M : AmbixMatrix K) (fr : List K) {r : Nat} (hr : r < M.rows.toNat) :
    (mix id id M fr)[r]? =
      some (∑ c ∈ Finset.range M.cols.toNat, M.data r c*((fr[c]?).map id).getD 0) := by
  rw [mix, List.getElem?_map, List.getElem?_range hr]
  rfl

theorem mix_product {M R A dest : AmbixMatrix K} (h : matrixMultiply M R dest = some A)
    (fr : List K) : mix id id A fr = mix id id M (mix id id R fr) := by
  have hfit := (matrixMultiply_isSome M R dest).mp (by rw [h]; rfl)
  rw [matrixMultiply_eq M R dest hfit, Option.some.injEq] at h
  subst h
  refine List.map_congr_left fun r hr => congrArg id ?_
  have hrow : r < M.rows.toNat := List.mem_range.mp hr
  calc
    ∑ c ∈ Finset.range R.cols.toNat, (AmbixMatrix.ofFn M.rows R.cols fun r c =>
          ∑ i ∈ Finset.range M.cols.toNat, M.data r i*R.data i c).data r c*
        ((fr[c]?).map id).getD 0 =
      ∑ c ∈ Finset.range R.cols.toNat, ∑ i ∈ Finset.range M.cols.toNat,
        M.data r i*(R.data i c*((fr[c]?).map id).getD 0) := by
      refine Finset.sum_congr rfl fun c hc => ?_
      rw [AmbixMatrix.ofFn_data hrow (Finset.mem_range.mp hc), Finset.sum_mul]
      exact Finset.sum_congr rfl fun i _ => mul_assoc _ _ _
    _ = ∑ i ∈ Finset.range M.cols.toNat, M.data r i*
        ∑ c ∈ Finset.range R.cols.toNat, R.data i c*((fr[c]?).map id).getD 0 := by
      rw [Finset.sum_comm]
      exact Finset.sum_congr rfl fun i _ => (Finset.mul_sum _ _ _).symm
    _ = ∑ i ∈ Finset.range M.cols.toNat, M.data r i*
        (((mix id id R fr)[i]?).map id).getD 0 := by
      refine Finset.sum_congr rfl fun i hi => ?_
      rw [mix_getElem? R fr (by rw [← hfit]; exact Finset.mem_range.mp hi)]
      rfl

end product

/-! Runs on a handle that reads. -/

section runs
variable {K : Type} [Field K] [LinearOrder K] {P : Platform K} {disk : Disk K} {info : Info}
  {h h' h0 : Handle K} {events : List (Event (Handle K) (Call K) (Answer K))}

def Call.matrix? : Call K → Option (AmbixMatrix K)
  | .setAdaptormatrix A => some A
  | _ => none

def matricesSet (events : List (Event (Handle K) (Call K) (Answer K))) : List (AmbixMatrix K) :=
  events.filterMap fun e => e.call.matrix?

omit [LinearOrder K] in
theorem matricesSet_snoc (e : Event (Handle K) (Call K) (Answer K)) :
    matricesSet (events ++ [e]) = matricesSet events ++ e.call.matrix?.toList := by
  rw [matricesSet, List.filterMap_append, List.filterMap_cons, List.filterMap_nil]
  cases e.call.matrix? <;> rfl

omit [LinearOrder K] in
theorem checkWrite_reading {g : Handle K} {res : Err} (hmode : h.filemode = .read)
    (hw : h.checkWrite P = .ok (res, g)) : g.sf = h.sf := by
  unfold Handle.checkWrite at hw
  split at hw
  · rw [← answered_state hw]
  obtain ⟨⟨res', g'⟩, hg, hw⟩ := bind_eq_ok.mp hw
  have hsf : g'.sf = h.sf := by
    unfold Handle.writePending at hg
    split at hg
    · rw [Handle.writeHeader, if_neg (by rw [hmode]; decide)] at hg
      rw [← answered_state hg]
    · rw [← answered_state hg]
  dsimp only at hw
  split at hw
  · rw [← answered_state hw]
    exact hsf
  · rw [← answered_state hw]
    exact hsf

omit [LinearOrder K] in
theorem readf_file {type : SampleType} {ambidata otherdata : Nat → K} {frames : Nat}
    {result : Except Err (Nat × Split K)}
    (hr : h.readf P type ambidata otherdata frames = .ok (result, h')) :
    h'.sf.file = h.sf.file := by
  obtain ⟨size, ⟨-, -, rfl⟩ | ⟨-, -, -, rfl⟩⟩ := readf_cases hr
  · rfl
  · unfold sfReadf
    split <;> rfl

theorem run_reading (hr : ReadHandle h) {call : Call K} {answer : Answer K}
    (hcall : call.run P h = .ok (answer, h')) : h'.sf.file = h.sf.file := by
  cases call with
  | writef type ambidata otherdata frames =>
    obtain ⟨⟨result, g⟩, hg, hcall⟩ := bind_eq_ok.mp hcall
    obtain ⟨err, g', hcheck, hcases⟩ := writef_cases hg
    have hsf := checkWrite_reading hr.filemode hcheck
    have hnowrite : ¬ g'.sf.mode.canWrite = true := by
      rw [hsf, hr.mode]
      decide
    rw [← answered_state hcall]
    obtain ⟨-, -, rfl⟩ | ⟨-, size, ⟨-, -, rfl⟩ | ⟨-, -, -, -, rfl⟩⟩ := hcases
    · rw [hsf]
    · exact congrArg SndFile.file hsf
    · dsimp only
      rw [sfWritef, if_neg hnowrite, hsf]
  | setAdaptormatrix matrix =>
    rw [← answered_state hcall]
    exact congrArg SndFile.file (setAdaptormatrix_sf h matrix).1
  | readf type ambidata otherdata frames =>
    obtain ⟨⟨result, g⟩, hg, hcall⟩ := bind_eq_ok.mp hcall
    rw [← answered_state hcall]
    exact readf_file hg
  | seek position => rw [← answered_state hcall]
  | addMarker marker =>
    obtain ⟨_, _, _, ha⟩ := addMarker_annotates h marker
    rw [← answered_state hcall]
    exact congrArg (fun h => h.sf.file) ha
  | addRegion region =>
    obtain ⟨_, _, _, ha⟩ := addRegion_annotates h region
    rw [← answered_state hcall]
    exact congrArg (fun h => h.sf.file) ha
  | deleteMarkers =>
    obtain ⟨_, _, _, ha⟩ := deleteMarkers_annotates h
    rw [← answered_state hcall]
    exact congrArg (fun h => h.sf.file) ha
  | deleteRegions =>
    obtain ⟨_, _, _, ha⟩ := deleteRegions_annotates h
    rw [← answered_state hcall]
    exact congrArg (fun h => h.sf.file) ha

/-- `A` is `M` in front of what a file decodes by itself. -/
def Folds (l : Layout K) (M A : AmbixMatrix K) : Prop :=
  if l.realinfo.fileformat = .extended then ∃ dest, matrixMultiply M l.matrix dest = some A
  else A = M

/-- A handle on which only the matrix in use is not what it was at opening. -/
structure Adapted (h0 : Handle K) (events : List (Event (Handle K) (Call K) (Answer K)))
    (h : Handle K) : Prop where
  handle : ReadHandle h
  file : h.sf.file = h0.sf.file
  info : h.info = h0.info
  realinfo : h.realinfo = h0.realinfo
  matrix : h.matrix = h0.matrix
  inUse : ∀ M, (matricesSet events).getLast? = some M → ∃ A, h.inUse = some A ∧
    Folds h0.toLayout M A

theorem adapted_set {M : AmbixMatrix K} {answer : Answer K} (ha : Adapted h0 events h)
    (hc : Consistent h.toLayout) (hbasic : h0.info.fileformat = .basic)
    (hfit : M.cols = h0.info.ambichannels)
    (hcall : (Call.setAdaptormatrix M).run P h = .ok (answer, h')) :
    Adapted h0 (events ++ [⟨h, .setAdaptormatrix M, answer⟩]) h' := by
  have hread : h.filemode.canRead = true := by
    rw [ha.handle.filemode]
    rfl
  have hinfo : h.info.fileformat = .basic := by rw [ha.info, hbasic]
  have hhandle := readHandle_run ha.handle hcall
  have hlast (N : AmbixMatrix K) (hN : (matricesSet (events ++
      [(⟨h, .setAdaptormatrix M, answer⟩ : Event (Handle K) (Call K) (Answer K))])).getLast? =
      some N) : M = N := by
    rw [matricesSet_snoc, Call.matrix?, Option.toList_some, List.getLast?_append] at hN
    exact Option.some.inj hN
  have hstate := (run_set hcall).1
  have hout := setAdaptormatrix_outcome h M
  generalize h.setAdaptormatrix M = r at hout hstate
  cases hout with
  | refused herr hcols =>
    refine absurd ?_ (hcols hread hinfo)
    rw [decodedChannels]
    cases hc.readBasic hread hinfo with
    | inl hext => rw [if_pos hext.1, ← hext.2, hfit, ha.info]
    | inr hreal =>
      rw [if_neg (by rw [hreal.1]; decide), ← hreal.2, hfit, ha.info]
  | multiplied _ _ hreal hmtx =>
    subst hstate
    refine ⟨hhandle, ha.file, ha.info, ha.realinfo, ha.matrix, fun N hN => ⟨_, rfl, ?_⟩⟩
    rw [Folds, ← ha.realinfo, if_pos hreal, ← ha.matrix, ← hlast N hN]
    exact ⟨_, hmtx⟩
  | fellThrough _ _ hreal hcols =>
    subst hstate
    refine ⟨hhandle, ha.file, ha.info, ha.realinfo, ha.matrix, fun N hN => ⟨_, rfl, ?_⟩⟩
    rw [Folds, ← ha.realinfo, if_neg hreal]
    exact hlast N hN
  | encoded hno => exact absurd (hno.symm.trans hread) (by decide)
  | stored _ hext => exact absurd (hinfo.symm.trans hext) (by decide)

theorem adapted_run {call : Call K} {answer : Answer K} (ha : Adapted h0 events h)
    (hc : Consistent h.toLayout) (hbasic : h0.info.fileformat = .basic)
    (hfit : ∀ M, call.matrix? = some M → M.cols = h0.info.ambichannels)
    (hcall : call.run P h = .ok (answer, h')) :
    Adapted h0 (events ++ [⟨h, call, answer⟩]) h' := by
  by_cases hset : ∃ M, call = .setAdaptormatrix M
  · obtain ⟨M, rfl⟩ := hset
    exact adapted_set ha hc hbasic (hfit M rfl) hcall
  · have hl := run_layout hcall fun M hM => hset ⟨M, hM⟩
    have hnone : call.matrix? = none := by
      cases call with
      | setAdaptormatrix M => exact absurd ⟨M, rfl⟩ hset
      | _ => rfl
    refine ⟨readHandle_run ha.handle hcall, (run_reading ha.handle hcall).trans ha.file, ?_, ?_, ?_,
      fun M hM => ?_⟩
    · rw [hl, ha.info]
    · rw [hl, ha.realinfo]
    · rw [hl, ha.matrix]
    · rw [matricesSet_snoc, hnone, Option.toList_none, List.append_nil] at hM
      rw [hl]
      exact ha.inUse M hM

theorem session_adapted (hopen : ambixOpen P disk .read info = .ok (some h0))
    (hbasic : h0.info.fileformat = .basic) (hrun : Session P h0 events h)
    (hfit : ∀ M ∈ matricesSet events, M.cols = h0.info.ambichannels) : Adapted h0 events h := by
  refine (hrun.invariant (fun events h => Consistent h.toLayout ∧
    ((∀ M ∈ matricesSet events, M.cols = h0.info.ambichannels) → Adapted h0 events h))
    ⟨consistent_open hopen, fun _ => ⟨session_readHandle hopen .start, rfl, rfl, rfl, rfl,
      fun M hM => by cases hM⟩⟩ ?_).2 hfit
  rintro events h call answer h' hcall ⟨hc, ha⟩
  refine ⟨consistent_run hcall hc, fun hfit => ?_⟩
  have hall (M : AmbixMatrix K) (hM : M ∈ matricesSet events) : M.cols = h0.info.ambichannels := by
    refine hfit M ?_
    rw [matricesSet_snoc]
    exact List.mem_append_left _ hM
  refine adapted_run (ha hall) hc hbasic (fun M hM => hfit M ?_) hcall
  rw [matricesSet_snoc]
  refine List.mem_append_right _ ?_
  change M ∈ call.matrix?.toList
  rw [hM]
  exact List.mem_cons_self

omit [LinearOrder K] in
theorem ambixOpen_basic (hopen : ambixOpen P disk .read info = .ok (some h0))
    (hbasic : h0.info.fileformat = .basic) :
    (h0.realinfo.fileformat = .extended ∧ h0.inUse = some h0.matrix ∧
      h0.info.ambichannels = h0.matrix.rows) ∨
    (h0.realinfo.fileformat = .basic ∧ h0.inUse = none ∧
      h0.info.ambichannels = h0.realinfo.ambichannels) := by
  obtain ⟨ambixinfo, wantformat, o, markers, regions, hformats, -, -, hres⟩ :=
    ambixOpen_eq_some.mp hopen
  obtain ⟨size, rfl⟩ := resize_eq hres
  change ((freshLayout .read ambixinfo o).present wantformat).info.fileformat = .basic at hbasic
  obtain ⟨-, hreal, hp⟩ | ⟨-, -, hp⟩ | ⟨-, -, hp⟩ :=
    present_cases wantformat (freshLayout .read ambixinfo o)
  · refine Or.inl ?_
    change ((freshLayout .read ambixinfo o).present wantformat).realinfo.fileformat = _ ∧
      ((freshLayout .read ambixinfo o).present wantformat).inUse =
        some ((freshLayout .read ambixinfo o).present wantformat).matrix ∧
      ((freshLayout .read ambixinfo o).present wantformat).info.ambichannels =
        ((freshLayout .read ambixinfo o).present wantformat).matrix.rows
    rw [hp]
    exact ⟨hreal, rfl, rfl⟩
  · rw [hp] at hbasic
    cases hbasic
  · refine Or.inr ?_
    rw [hp] at hbasic
    change ((freshLayout .read ambixinfo o).present wantformat).realinfo.fileformat = _ ∧
      ((freshLayout .read ambixinfo o).present wantformat).inUse = none ∧
      ((freshLayout .read ambixinfo o).present wantformat).info.ambichannels =
        ((freshLayout .read ambixinfo o).present wantformat).realinfo.ambichannels
    rw [hp]
    exact ⟨hbasic, rfl, rfl⟩

/-- Frame for frame, `h` delivers `M` times the ambisonics samples that `h0` delivers, and the
same extra samples. -/
structure ReadsThrough (P : Platform K) (h0 h : Handle K) (M : AmbixMatrix K) : Prop where
  full : h0.stride = h0.info.ambichannels
  rows : h.stride = M.rows
  extra : h.info.extrachannels = h0.info.extrachannels
  complete : ∀ {us : List (Transfer K)} {gs : List (Frame K)}, h.readOut P us = some gs →
    gs.length = min (total us) h.remaining.length
  frames : ∀ {ts us : List (Transfer K)} {fs gs : List (Frame K)}, h0.readOut P ts = some fs →
    h.readOut P us = some gs → ∀ {i : Nat} {f g : Frame K}, fs[h.sf.position+i]? = some f →
      gs[i]? = some g → g.1 = mix id id M f.1 ∧ g.2 = f.2

omit [LinearOrder K] in
theorem readsThrough_of {V W : FrameView K} {M : AmbixMatrix K} (hV : Delivers h0 V)
    (hW : Delivers h W) (hfile : h.sf.file = h0.sf.file) (hpos : h0.sf.position = 0)
    (hfull : h0.stride = h0.info.ambichannels) (hrows : h.stride = M.rows)
    (hextra : h.info.extrachannels = h0.info.extrachannels)
    (hdecode : ∀ fr, (W.decode fr).1 = mix id id M (V.decode fr).1 ∧
      (W.decode fr).2 = (V.decode fr).2) : ReadsThrough P h0 h M where
  full := hfull
  rows := hrows
  extra := hextra
  complete {us gs} hus := by
    rw [readOut_eq hW] at hus
    rw [readAllIn_presents hW.toPresents hus, List.length_map, List.length_take]
  frames {ts us fs gs} hts hus i f g hf hg := by
    rw [readOut_eq hV] at hts
    rw [readOut_eq hW] at hus
    obtain ⟨fr, hfr, -, rfl⟩ := readAllIn_frame hV.toPresents hts hf
    obtain ⟨fr', hfr', -, rfl⟩ := readAllIn_frame hW.toPresents hus hg
    rw [Handle.remaining, hpos, List.drop_zero] at hfr
    rw [Handle.remaining, hfile, List.getElem?_drop, hfr] at hfr'
    rw [← Option.some.inj hfr']
    exact hdecode fr

/-- The last of the matrices set on a file that is presented as BASIC decodes what the file
delivers without them. -/
theorem lastMatrix_decodes (hopen : ambixOpen P disk .read info = .ok (some h0))
    (hbasic : h0.info.fileformat = .basic) (hrun : Session P h0 events h)
    (hfit : ∀ M ∈ matricesSet events, M.cols = h0.info.ambichannels) {M : AmbixMatrix K}
    (hlast : (matricesSet events).getLast? = some M) : ReadsThrough P h0 h M := by
  have hcols := hfit M (List.mem_of_getLast? hlast)
  have ha := session_adapted hopen hbasic hrun hfit
  have hr0 := session_readHandle hopen (.start : Session P h0 [] h0)
  have hpos := (ambixOpen_read_shape hopen).2.2.1
  have hextra : h.info.extrachannels = h0.info.extrachannels := by rw [ha.info]
  obtain ⟨A, hA, hfold⟩ := ha.inUse M hlast
  have hW := ha.handle.delivers_matrix hA
  have hstride : h.stride = A.rows := by
    rw [Layout.stride, hA]
    rfl
  cases ambixOpen_basic hopen hbasic with
  | inl hext =>
    -- stored as EXTENDED: the product with the stored matrix
    obtain ⟨hreal, hinUse, hambi⟩ := hext
    rw [Folds, if_pos hreal] at hfold
    obtain ⟨dest, hproduct⟩ := hfold
    obtain ⟨m, hm, hmrows, hmcols⟩ := matrixMultiply_some M h0.matrix dest
      ((matrixMultiply_isSome M h0.matrix dest).mp (by rw [hproduct]; rfl))
    obtain rfl : m = A := Option.some.inj (hm.symm.trans hproduct)
    refine readsThrough_of (hr0.delivers_matrix hinUse) hW ha.file hpos ?_ (hstride.trans hmrows)
      hextra fun fr => ⟨mix_product hproduct fr, ?_⟩
    · rw [Layout.stride, hinUse, hambi]
      rfl
    · exact congrArg (fun n : UInt32 => fr.drop n.toNat) hmcols
  | inr hplain =>
    -- stored as BASIC: the matrix itself
    obtain ⟨hreal, hnone, hambi⟩ := hplain
    rw [Folds, if_neg (by rw [hreal]; decide)] at hfold
    subst hfold
    have hreduced : A.cols = h0.realinfo.ambichannels := hcols.trans hambi
    refine readsThrough_of (hr0.delivers_raw hnone) hW ha.file hpos ?_ hstride hextra
      fun fr => ⟨?_, ?_⟩
    · rw [Layout.stride, hnone]
      rfl
    · change mix id id A fr = mix id id A (fr.take h0.realinfo.ambichannels.toNat)
      rw [← hreduced, mix_take]
    · exact congrArg (fun n : UInt32 => fr.drop n.toNat) hreduced

end runs

/-- Four channels from the one of the stereo file that is ambisonics, after one more matrix. -/
theorem lastMatrix_decodes_stereo : ∃ (h0 h : Handle ℚ)
      (events : List (Event (Handle ℚ) (Call ℚ) (Answer ℚ))),
    ambixOpen unitPlatform (unitDisk (some stereoFile)) .read ⟨.basic, 0, 0⟩ = .ok (some h0) ∧
    Session unitPlatform h0 events h ∧ matricesSet events = [unitMatrix 1 1, unitMatrix 4 1] ∧
    ReadsThrough unitPlatform h0 h (unitMatrix 4 1) := by
  obtain ⟨h0, h1, h2, hopen, hinfo, hfirst, hsecond⟩ : ∃ h0 h1 h2 : Handle ℚ,
      ambixOpen unitPlatform (unitDisk (some stereoFile)) .read ⟨.basic, 0, 0⟩ = .ok (some h0) ∧
      h0.info = ⟨.basic, 1, 1⟩ ∧
      Call.run unitPlatform h0 (.setAdaptormatrix (unitMatrix 1 1)) =
        .ok (.err .success, h1) ∧
      Call.run unitPlatform h1 (.setAdaptormatrix (unitMatrix 4 1)) =
        .ok (.err .success, h2) := ⟨_, _, _, rfl, rfl, rfl, rfl⟩
  have hrun : Session unitPlatform h0 _ h2 := .call (.call .start hfirst) hsecond
  refine ⟨h0, h2, _, hopen, hrun, rfl,
    lastMatrix_decodes hopen (by rw [hinfo]) hrun (fun M hM => ?_) rfl⟩
  rw [hinfo]
  change M ∈ [unitMatrix 1 1, unitMatrix 4 1] at hM
  cases List.mem_cons.mp hM with
  | inl h => rw [h]; rfl
  | inr h => rw [List.mem_singleton.mp h]; rfl

end Ambix
