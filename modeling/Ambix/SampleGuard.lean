import Ambix.AdaptorMatrix

/-! What precedes the samples of a file that is written: a matrix, as long as the
matrix is not empty when `ambix_writef` is called. `ambix_is_fullset` accepts 0 rows,
so the guard in `_ambix_check_write` does not see that no matrix was ever set. -/
namespace Ambix
open Machine
variable {K : Type} [Field K] [LinearOrder K]

def IsWritef (call : Call K) : Prop :=
  ∃ type ambidata otherdata frames, call = .writef type ambidata otherdata frames

/-- A call of `ambix_writef` that has got as far as the backend. -/
def HandsFrames (e : Event (Handle K) (Call K) (Answer K)) : Prop :=
  IsWritef e.call ∧ ∃ frames, e.answer = .written (.ok frames)

def SetsMatrix (e : Event (Handle K) (Call K) (Answer K)) : Prop :=
  ∃ A, e.call = .setAdaptormatrix A ∧ e.answer = .err .success ∧
    ∃ n, A.rows.toNat = (n+1)*(n+1)

/-- No samples without a matrix. -/
def NoSamplesWithoutMatrix (events : List (Event (Handle K) (Call K) (Answer K))) : Prop :=
  ∀ before e after, events = before ++ e :: after → HandsFrames e → ∃ e' ∈ before, SetsMatrix e'

/-- Where the matrix of a writing handle comes from. -/
def MatrixOrigin (events : List (Event (Handle K) (Call K) (Answer K))) (h : Handle K) : Prop :=
  h.matrix = matrixNull ∨ ∃ e ∈ events, ∃ A, e.call = .setAdaptormatrix A ∧
    e.answer = .err .success ∧ isFullset A.rows = true ∧ h.matrix = A

omit [LinearOrder K] in
theorem ambixOpen_write_matrix {P : Platform K} {disk : Disk K} {info : Info} {h : Handle K}
    (hopen : ambixOpen P disk .write info = .ok (some h)) : h.matrix = matrixNull := by
  obtain ⟨ambixinfo, wantformat, size, ha, hformats, rfl⟩ := ambixOpen_write hopen
  change ((freshLayout .write ambixinfo (created P disk _ ha)).present wantformat).matrix = _
  obtain ⟨-, -, hp⟩ | ⟨rfl, hreal, hp⟩ | ⟨-, -, hp⟩ := present_cases wantformat
    (freshLayout .write ambixinfo (created P disk _ ha))
  · rw [hp]
    rfl
  · exact absurd hreal (openedRealinfo_write rfl (openFormats_extended hformats))
  · rw [hp]
    rfl

theorem matrixOrigin_call {P : Platform K} {events : List (Event (Handle K) (Call K) (Answer K))}
    {h h' : Handle K} {call : Call K} {answer : Answer K}
    (hcall : call.run P h = .ok (answer, h')) (ho : MatrixOrigin events h) :
    MatrixOrigin (events ++ [⟨h, call, answer⟩]) h' := by
  have hkeep (hm : h'.matrix = h.matrix) : MatrixOrigin (events ++ [⟨h, call, answer⟩]) h' := by
    rw [MatrixOrigin, hm]
    refine ho.imp id ?_
    rintro ⟨e, he, hA⟩
    exact ⟨e, List.mem_append_left _ he, hA⟩
  by_cases hset : ∃ A, call = .setAdaptormatrix A
  swap
  · exact hkeep (congrArg Layout.matrix (run_layout hcall fun A hA => hset ⟨A, hA⟩))
  obtain ⟨A, rfl⟩ := hset
  obtain ⟨hstate, hanswer⟩ := run_set hcall
  have hh : h' = (h.setAdaptormatrix A).2 := hstate.symm
  have hout := setAdaptormatrix_outcome h A
  have hnew (hs : (h.setAdaptormatrix A).1 = .success) (hfull : isFullset A.rows = true)
      (hm : (h.setAdaptormatrix A).2.matrix = A) :
      MatrixOrigin (events ++ [⟨h, .setAdaptormatrix A, answer⟩]) h' := by
    refine Or.inr ⟨_, List.mem_append_right _ List.mem_cons_self, A, rfl, ?_, hfull, ?_⟩
    · rw [hanswer, hs]
    · rw [hh, hm]
  generalize h.setAdaptormatrix A = r at hout hh hnew
  cases hout with
  | refused => exact hkeep (by rw [hh])
  | multiplied => exact hkeep (by rw [hh])
  | fellThrough => exact hkeep (by rw [hh])
  | encoded _ _ _ hfull => exact hnew rfl hfull rfl
  | stored _ _ hfull => exact hnew rfl hfull rfl

/-- In a run in which `ambix_writef` is only called while the matrix has rows,
samples come after an accepted matrix. -/
theorem noSamplesWithoutMatrix {P : Platform K} {disk : Disk K} {info : Info} {h h' : Handle K}
    {events : List (Event (Handle K) (Call K) (Answer K))}
    (hopen : ambixOpen P disk .write info = .ok (some h)) (hrun : Session P h events h')
    (hrows : ∀ e ∈ events, IsWritef e.call → e.state.matrix.rows ≠ 0) :
    NoSamplesWithoutMatrix events := by
  rintro before e after rfl ⟨hwrite, -⟩
  have horigin : MatrixOrigin before e.state := hrun.before.invariant MatrixOrigin
    (Or.inl (ambixOpen_write_matrix hopen)) fun _ _ _ _ _ => matrixOrigin_call
  have hne := hrows e (by simp) hwrite
  obtain hnull | ⟨e', he', A, hcall, hanswer, hfull, hA⟩ := horigin
  · rw [hnull] at hne
    exact absurd rfl hne
  · refine ⟨e', he', A, hcall, hanswer, ?_⟩
    rw [hA] at hne
    exact ((isFullset_iff A.rows).mp hfull).resolve_left hne

/-- One frame written after the 1 by 1 identity. -/
theorem noSamplesWithoutMatrix_unit : ∃ (h h' : Handle ℚ)
      (events : List (Event (Handle ℚ) (Call ℚ) (Answer ℚ))),
    ambixOpen unitPlatform (unitDisk none) .write ⟨.extended, 0, 1⟩ = .ok (some h) ∧
    Session unitPlatform h events h' ∧ (∃ e ∈ events, HandsFrames e) ∧
    NoSamplesWithoutMatrix events := by
  obtain ⟨h, h1, h2, hopen, hset, hrows, hwrite⟩ : ∃ h h1 h2 : Handle ℚ,
      ambixOpen unitPlatform (unitDisk none) .write ⟨.extended, 0, 1⟩ = .ok (some h) ∧
      Call.run unitPlatform h (.setAdaptormatrix (unitMatrix 1 1)) =
        .ok (.err .success, h1) ∧ h1.matrix.rows = 1 ∧
      Call.run unitPlatform h1 (.writef .float32 (fun _ => 1) (fun _ => 0) 1) =
        .ok (.written (.ok 1), h2) := ⟨_, _, _, rfl, rfl, rfl, rfl⟩
  have hrun : Session unitPlatform h _ h2 := .call (.call .start hset) hwrite
  refine ⟨h, h2, _, hopen, hrun, ⟨_, List.mem_append_right _ List.mem_cons_self,
    ⟨_, _, _, _, rfl⟩, _, rfl⟩, noSamplesWithoutMatrix hopen hrun ?_⟩
  intro e he hwritef
  obtain rfl | rfl : e = _ ∨ e = _ := by simpa using he
  · obtain ⟨_, _, _, _, hcall⟩ := hwritef
    cases hcall
  · rw [hrows]
    decide

omit [LinearOrder K] in
/-- The guard lets a handle without a matrix through to the backend. -/
theorem writef_empty {P : Platform K} {h g : Handle K} (type : SampleType)
    (ambidata otherdata : Nat → K) (frames : Nat) (hrows : h.matrix.rows = 0)
    (hpending : h.pendingHeaders = false)
    (hres : ({ h with startedWriting := true } : Handle K).resize P (UInt64.ofNat frames)
      type.size = (.success, g))
    (hstores : g.touch type (g.merge ambidata otherdata g.adaptorbuffer frames).count = .ok ())
    (htakes : g.touch type (frames*g.sf.file.channels.toNat) = .ok ()) :
    ∃ written g', h.writef P type ambidata otherdata frames = .ok (.ok written, g') := by
  have hfull : isFullset h.matrix.rows = true := by
    rw [hrows]
    rfl
  have hcheck : h.checkWrite P = .ok (.success, { h with startedWriting := true }) := by
    rw [Handle.checkWrite, if_neg fun hno => hno.2 hfull, Handle.writePending,
      if_neg (by rw [hpending]; decide)]
    rfl
  rw [Handle.writef, hcheck, ok_bind]
  dsimp only
  rw [if_neg (by decide), hres]
  dsimp only
  rw [if_neg (by decide), hstores, ok_bind, htakes, ok_bind]
  exact ⟨_, _, rfl⟩

/-- An EXTENDED handle on which `ambix_writef` is the first call. -/
theorem noSamplesWithoutMatrix_fails : ∃ (h h' : Handle ℚ)
      (e : Event (Handle ℚ) (Call ℚ) (Answer ℚ)),
    ambixOpen unitPlatform (unitDisk none) .write ⟨.extended, 0, 1⟩ = .ok (some h) ∧
    h.realinfo.fileformat = .extended ∧ Session unitPlatform h [e] h' ∧
    ¬ NoSamplesWithoutMatrix [e] := by
  obtain ⟨h, hopen, hreal, hpending, hres⟩ : ∃ h : Handle ℚ,
      ambixOpen unitPlatform (unitDisk none) .write ⟨.extended, 0, 1⟩ = .ok (some h) ∧
      h.realinfo.fileformat = .extended ∧ h.pendingHeaders = false ∧
      ∃ g, ({ h with startedWriting := true } : Handle ℚ).resize unitPlatform (UInt64.ofNat 1)
        SampleType.float32.size = (.success, g) ∧
        g.touch .float32 (g.merge (fun _ => 1) (fun _ => 0) g.adaptorbuffer 1).count = .ok () ∧
        g.touch .float32 (1*g.sf.file.channels.toNat) = .ok () :=
    ⟨_, rfl, rfl, rfl, _, rfl, rfl, rfl⟩
  obtain ⟨g, hres, hstores, htakes⟩ := hres
  have hrows : h.matrix.rows = 0 := by rw [ambixOpen_write_matrix hopen]; rfl
  obtain ⟨written, h', hwrite⟩ :=
    writef_empty .float32 (fun _ => 1) (fun _ => 0) 1 hrows hpending hres hstores htakes
  have hcall : Call.run unitPlatform h (.writef .float32 (fun _ => 1) (fun _ => 0) 1) =
      .ok (.written (.ok written), h') := by rw [Call.run, hwrite]; rfl
  refine ⟨h, h', _, hopen, hreal, .call .start hcall, fun hsafe => ?_⟩
  obtain ⟨e', he', -⟩ := hsafe [] _ [] rfl ⟨⟨_, _, _, _, rfl⟩, written, rfl⟩
  cases he'

end Ambix
