import Ambix.Interleave

/-! What an accepted command line of ambix-interleave settles: the adaptor matrix and the
format of the output. -/
namespace Ambix.Interleave
open Machine
variable {K : Type} [Field K] {P : Platform K} {fresh : Nat → K} {args : Arguments K}
  {ai ai' : Ai K} {M : AmbixMatrix K} {channels : UInt32}

/-! The matrix in a sound file. -/

/-- Entry `c` of row `r` is sample `r` of frame `c`. -/
def fileMatrix (file : SoundFile K) : AmbixMatrix K :=
  AmbixMatrix.ofFn file.channels (UInt32.ofNat file.frames.length) fun r c =>
    (file.frames[c]?.bind fun fr => fr[r]?).getD 0

theorem aiMatrix_ok {file : SoundFile K} (h : aiMatrix fresh file = .ok M) :
    M = fileMatrix file := by
  have hread : sfReadf (openRead file) fresh (UInt32.ofNat file.frames.length).toNat =
      (((file.frames.drop 0).take (UInt32.ofNat file.frames.length).toNat).length,
        ((Cursor.start fresh).putAll ((file.frames.drop 0).take
          (UInt32.ofNat file.frames.length).toNat).flatten).data, _) := rfl
  rw [aiMatrix] at h
  dsimp only at h
  split at h
  · cases h
  rw [hread, List.drop_zero] at h
  rw [← Except.ok.inj h]
  dsimp only
  rw [matrixFillData, fillFrom_eq, AmbixMatrix.fillLoop_eq]
  refine AmbixMatrix.ofFn_congr fun r c hr hc => ?_
  rw [matrixInit_rows] at hr
  rw [matrixInit_cols] at hc
  dsimp only [matrixInit_rows, matrixInit_cols]
  rw [AmbixMatrix.ofFn_data hc hr]
  have hle : (UInt32.ofNat file.frames.length).toNat ≤ file.frames.length := by
    rw [UInt32.toNat_ofNat']
    exact Nat.mod_le _ _
  have hlen : (file.frames.take (UInt32.ofNat file.frames.length).toNat).length =
      (UInt32.ofNat file.frames.length).toNat := by rw [List.length_take, Nat.min_eq_left hle]
  have hframes := framesOf_written
    (fun fr hfr => file.width fr (List.mem_of_mem_take hfr))
    (Cursor.start_putAll_items fresh
      (file.frames.take (UInt32.ofNat file.frames.length).toNat).flatten)
  have hframe := congrArg (fun frames : List (List K) => frames[c]?) hframes
  rw [hlen, framesOf, List.getElem?_map, List.getElem?_range hc,
    List.getElem?_take_of_lt hc] at hframe
  rw [← hframe]
  change _ = ((window _ _ _)[r]?).getD 0
  rw [window_getElem? _ _ _ _ hr, Nat.mul_comm]
  rfl

/-! The matrix that is used. -/

def Ai.adaptorMatrix (ai : Ai K) : AmbixMatrix K :=
  ai.matrix.getD (fillIdentity (matrixInit ai.info.ambichannels ai.info.ambichannels))

def wantedChannels (args : Arguments K) : UInt32 :=
  if orderChannels args.order > 0 then orderChannels args.order else inputChannels args.infiles

/-- The matrix a command line stands for: that of `-X`, the Furse-Malham matrix for a single
AMB file that has one, the identity otherwise. -/
inductive Chosen (P : Platform K) (args : Arguments K) : AmbixMatrix K → Prop where
  | file (file : SoundFile K) (hmatrix : args.matrix = some (.file file)) :
    Chosen P args (fileMatrix file)
  | format (format : List Char) (norm rout : MatrixType) (M : AmbixMatrix K)
    (hmatrix : args.matrix = some (.format format))
    (htypes : aiMatrixPredefined format = some (norm, rout))
    (hM : predefinedMatrix P norm rout (inputChannels args.infiles) = .ok (some M)) :
    Chosen P args M
  | amb (file : SoundFile K) (M : AmbixMatrix K) (hmatrix : args.matrix = none)
    (hinfiles : args.infiles = [file]) (hcontainer : file.container = .wavexAmbisonic)
    (hM : aiCalcMatrix P file.channels .fuma = .ok (some M)) : Chosen P args M
  | identity (hmatrix : args.matrix = none)
    (hplain : ∀ file, args.infiles = [file] → file.container = .wavexAmbisonic →
      aiCalcMatrix P file.channels .fuma = .ok none) :
    Chosen P args (fillIdentity (matrixInit (wantedChannels args) (wantedChannels args)))

structure Settled (P : Platform K) (args : Arguments K) (ai : Ai K) : Prop where
  infiles : ai.infiles = args.infiles
  nonempty : args.infiles ≠ []
  frames : ai.frames = inputFrames args.infiles
  chosen : Chosen P args ai.adaptorMatrix
  format : ai.adaptorMatrix.cols ≤ inputChannels args.infiles ∧
      ai.matrix = some ai.adaptorMatrix ∧ ai.info = ⟨.extended,
        inputChannels args.infiles-ai.adaptorMatrix.cols, ai.adaptorMatrix.cols⟩ ∨
    ai.adaptorMatrix = fillIdentity (matrixInit (inputChannels args.infiles)
      (inputChannels args.infiles)) ∧ ai.info = ⟨.basic, 0, inputChannels args.infiles⟩

/-! From the command line to the settings. -/

theorem aiCmdline_some (h : aiCmdline fresh args = .ok (some ai)) :
    ∃ matrix norm rout, matrixOption fresh args.matrix = .ok (some (matrix, norm, rout)) ∧
      args.infiles ≠ [] ∧ ai.infiles = args.infiles ∧ ai.matrix = matrix ∧ ai.matrixNorm = norm ∧
      ai.matrixRout = rout ∧ ai.channels = orderChannels args.order := by
  obtain ⟨option, hoption, h⟩ := bind_eq_ok.mp h
  cases option with
  | none => cases h
  | some option =>
    obtain ⟨matrix, norm, rout⟩ := option
    dsimp only at h
    split at h
    · cases h
    · rename_i hfiles
      split at h
      · cases h
      · cases h
        exact ⟨matrix, norm, rout, hoption, fun hnil => hfiles (by rw [hnil]; rfl), rfl, rfl, rfl,
          rfl, rfl⟩

theorem aiMatrixPredefined_types {format : List Char} {norm rout : MatrixType}
    (h : aiMatrixPredefined format = some (norm, rout)) : rout ≠ .invalid := by
  unfold aiMatrixPredefined at h
  dsimp only at h
  split at h
  · cases h
    nofun
  · split at h
    · cases h
      nofun
    · split at h
      · cases h
        nofun
      · split at h
        · cases h
          nofun
        · cases h

theorem matrixOption_some {argument : Option (MatrixArgument K)} {matrix : Option (AmbixMatrix K)}
    {norm rout : MatrixType}
    (h : matrixOption fresh argument = .ok (some (matrix, norm, rout))) :
    (norm = .invalid ∧ rout = .invalid ∧ (argument = none ∧ matrix = none ∨
      ∃ file, argument = some (.file file) ∧ matrix = some (fileMatrix file))) ∨
    ∃ format, argument = some (.format format) ∧ aiMatrixPredefined format = some (norm, rout) := by
  unfold matrixOption at h
  split at h
  · cases h
    exact Or.inl ⟨rfl, rfl, Or.inl ⟨rfl, rfl⟩⟩
  · rename_i file
    obtain ⟨M, hM, h⟩ := bind_eq_ok.mp h
    cases h
    exact Or.inl ⟨rfl, rfl, Or.inr ⟨file, rfl, congrArg some (aiMatrix_ok hM)⟩⟩
  · rename_i format
    obtain ⟨types, htypes, heq⟩ := Option.map_eq_some_iff.mp (Except.ok.inj h)
    cases heq
    exact Or.inr ⟨format, rfl, htypes⟩

theorem ambMatrix_some {m : Option (AmbixMatrix K)} (h : ambMatrix P ai = .ok (some m)) :
    (∃ file, ai.infiles = [file] ∧ file.container = .wavexAmbisonic ∧ ai.matrix = none ∧
      ai.matrixRout = .invalid ∧ ai.matrixNorm = .invalid ∧
      aiCalcMatrix P file.channels .fuma = .ok m) ∨
    (m = ai.matrix ∧ ∀ file, ai.infiles = [file] → file.container ≠ .wavexAmbisonic) := by
  unfold ambMatrix at h
  split at h
  · rename_i file hfile
    split at h
    · rename_i hamb
      split at h
      · cases h
      · rename_i hother
        obtain ⟨m', hm, heq⟩ := map_eq_ok.mp h
        cases heq
        rw [not_or, not_or, not_not, not_not, Bool.not_eq_true, Option.isSome_eq_false_iff,
          Option.isNone_iff_eq_none] at hother
        exact Or.inl ⟨file, hfile, hamb, hother.1, hother.2.1, hother.2.2, hm⟩
    · rename_i hcaf
      cases h
      refine Or.inr ⟨rfl, fun file' hfile' => ?_⟩
      cases List.singleton_inj.mp (hfile.symm.trans hfile')
      exact hcaf
  · rename_i hmany
    cases h
    exact Or.inr ⟨rfl, fun file hfile => absurd hfile (hmany file)⟩

/-- The formats that are chosen: by a matrix, by an order that leaves channels over, or the
whole of the inputs. -/
theorem chooseFormat_some (h : chooseFormat ai channels = some ai') :
    (∃ M, ai.matrix = some M ∧ M.cols ≤ channels ∧
      ai' = { ai with info := ⟨.extended, channels-M.cols, M.cols⟩ }) ∨
    (ai.matrix = none ∧ ai.channels > 0 ∧ ai.channels ≤ channels ∧ ai' = { ai with
      info := ⟨.extended, channels-ai.channels, ai.channels⟩
      matrix := some (fillIdentity (matrixInit ai.channels ai.channels)) }) ∨
    (ai.matrix = none ∧ channels = (if ai.channels > 0 then ai.channels else channels) ∧
      ai' = { ai with info := ⟨.basic, 0, channels⟩ }) := by
  obtain ⟨ai₁, hchosen, h⟩ := Option.bind_eq_some_iff.mp h
  have hsame : ai₁ = ai' := by
    split at h
    · cases h
    · exact Option.some.inj h
  subst hsame
  split at hchosen
  · rename_i M hM
    split at hchosen
    · cases hchosen
    · rename_i hle
      exact Or.inl ⟨M, hM, UInt32.not_lt.mp hle, (Option.some.inj hchosen).symm⟩
  · rename_i hnone
    split at hchosen
    · rename_i hpos
      split at hchosen
      · rename_i hlt
        exact Or.inr (Or.inl ⟨hnone, hpos, UInt32.le_of_lt hlt, (Option.some.inj hchosen).symm⟩)
      · split at hchosen
        · rename_i heq
          exact Or.inr (Or.inr ⟨hnone, by rw [if_pos hpos, heq], (Option.some.inj hchosen).symm⟩)
        · cases hchosen
    · rename_i hzero
      split at hchosen
      · exact Or.inr (Or.inr ⟨hnone, by rw [if_neg hzero], (Option.some.inj hchosen).symm⟩)
      · cases hchosen

theorem chooseFormat_plain (hmatrix : ai.matrix = none) (h : chooseFormat ai channels = some ai') :
    ai'.adaptorMatrix = fillIdentity (matrixInit (if ai.channels > 0 then ai.channels else channels)
      (if ai.channels > 0 then ai.channels else channels)) := by
  obtain ⟨M, hM, -⟩ | ⟨-, hpos, -, rfl⟩ | ⟨-, hn, rfl⟩ := chooseFormat_some h
  · cases hmatrix.symm.trans hM
  · rw [if_pos hpos]
    rfl
  · rw [← hn, Ai.adaptorMatrix, hmatrix]
    rfl

theorem chooseFormat_format (h : chooseFormat ai channels = some ai') :
    ai'.adaptorMatrix.cols ≤ channels ∧ ai'.matrix = some ai'.adaptorMatrix ∧
        ai'.info = ⟨.extended, channels-ai'.adaptorMatrix.cols, ai'.adaptorMatrix.cols⟩ ∨
      ai'.adaptorMatrix = fillIdentity (matrixInit channels channels) ∧
        ai'.info = ⟨.basic, 0, channels⟩ := by
  obtain ⟨M, hM, hle, rfl⟩ | ⟨-, -, hle, rfl⟩ | ⟨hnone, -, rfl⟩ := chooseFormat_some h
  · have hadaptor : Ai.adaptorMatrix
        ({ ai with info := ⟨.extended, channels-M.cols, M.cols⟩ } : Ai K) = M := by
      rw [Ai.adaptorMatrix, hM]
      rfl
    rw [hadaptor]
    exact Or.inl ⟨hle, hM, rfl⟩
  · have hcols : (fillIdentity (matrixInit ai.channels ai.channels : AmbixMatrix K)).cols =
        ai.channels := (fillEntries_size _ _).2
    refine Or.inl ⟨?_, rfl, ?_⟩
    · change (fillIdentity (matrixInit ai.channels ai.channels : AmbixMatrix K)).cols ≤ channels
      rw [hcols]
      exact hle
    · change (⟨.extended, channels-ai.channels, ai.channels⟩ : Info) = ⟨.extended,
        channels-(fillIdentity (matrixInit ai.channels ai.channels : AmbixMatrix K)).cols,
        (fillIdentity (matrixInit ai.channels ai.channels : AmbixMatrix K)).cols⟩
      rw [hcols]
  · refine Or.inr ⟨?_, rfl⟩
    rw [Ai.adaptorMatrix, hnone]
    rfl

theorem chooseFormat_same (h : chooseFormat ai channels = some ai') :
    ai'.infiles = ai.infiles ∧ ai'.frames = ai.frames ∧
      (∀ M, ai.matrix = some M → ai'.adaptorMatrix = M) := by
  obtain ⟨M, hM, -, rfl⟩ | ⟨hnone, -, -, rfl⟩ | ⟨hnone, -, rfl⟩ := chooseFormat_some h
  · refine ⟨rfl, rfl, fun M' hM' => ?_⟩
    rw [Ai.adaptorMatrix, hM']
    rfl
  · exact ⟨rfl, rfl, fun M' hM' => nomatch hnone.symm.trans hM'⟩
  · exact ⟨rfl, rfl, fun M' hM' => nomatch hnone.symm.trans hM'⟩

theorem chosen_format {format : List Char} {norm rout : MatrixType}
    (hargs : args.matrix = some (.format format))
    (htypes : aiMatrixPredefined format = some (norm, rout))
    (hpre : predefinedMatrix P norm rout (inputChannels args.infiles) = .ok (some M))
    (hmatrix : ai.matrix = some M) (h : chooseFormat ai channels = some ai') :
    Chosen P args ai'.adaptorMatrix := by
  rw [(chooseFormat_same h).2.2 M hmatrix]
  exact .format format norm rout M hargs htypes hpre

theorem chosen_other {m : Option (AmbixMatrix K)} (hamb : ambMatrix P ai = .ok (some m))
    (hoption : args.matrix = none ∧ ai.matrix = none ∨
      ∃ file, args.matrix = some (.file file) ∧ ai.matrix = some (fileMatrix file))
    (hfiles : ai.infiles = args.infiles) (hchannels : ai.channels = orderChannels args.order)
    (h : chooseFormat { ai with matrix := m } (inputChannels args.infiles) = some ai') :
    Chosen P args ai'.adaptorMatrix := by
  have hsame := (chooseFormat_same h).2.2
  have hplain (hm : m = none) : ai'.adaptorMatrix = fillIdentity (matrixInit (wantedChannels args)
      (wantedChannels args)) := by
    have hadaptor := chooseFormat_plain hm h
    dsimp only at hadaptor
    rw [hadaptor, hchannels]
    rfl
  obtain ⟨file, hfile, hcontainer, hnone, -, -, hcalc⟩ | ⟨rfl, hother⟩ := ambMatrix_some hamb
  · cases hoption with
    | inr hX =>
      obtain ⟨file', -, hX⟩ := hX
      cases hnone.symm.trans hX
    | inl hX =>
      rw [hfiles] at hfile
      cases m with
      | none =>
        rw [hplain rfl]
        refine .identity hX.1 fun file' hfile' _ => ?_
        cases List.singleton_inj.mp (hfile.symm.trans hfile')
        exact hcalc
      | some M =>
        rw [hsame M rfl]
        exact .amb file M hX.1 hfile hcontainer hcalc
  · cases hoption with
    | inr hX =>
      obtain ⟨file, hargs, hX⟩ := hX
      rw [hsame _ hX]
      exact .file file hargs
    | inl hX =>
      rw [hplain hX.2]
      refine .identity hX.1 fun file hfile hcontainer => ?_
      exact absurd hcontainer (hother file (hfiles.trans hfile))

theorem aiOpenInput_settled {ai₀ : Ai K} (hcmd : aiCmdline fresh args = .ok (some ai₀))
    (h : aiOpenInput P ai₀ = .ok (some ai)) : Settled P args ai := by
  obtain ⟨matrix, norm, rout, hoption, hne, hfiles, rfl, rfl, rfl, hchannels⟩ := aiCmdline_some hcmd
  obtain ⟨amb, hamb, h⟩ := bind_eq_ok.mp h
  cases amb with
  | none => cases h
  | some m =>
    dsimp only at h
    split at h
    · rename_i hpredefined
      obtain ⟨predefined, hpre, h⟩ := bind_eq_ok.mp h
      cases predefined with
      | none => cases h
      | some M =>
        have hchoose := Except.ok.inj h
        obtain ⟨hinfiles, hframes, -⟩ := chooseFormat_same hchoose
        have hformat := chooseFormat_format hchoose
        rw [hfiles] at hinfiles hframes hformat hpre
        refine ⟨hinfiles, hne, hframes, ?_, hformat⟩
        cases matrixOption_some hoption with
        | inl hplain =>
          obtain ⟨hnorm, hrout, -⟩ := hplain
          exact absurd hpredefined (not_or.mpr ⟨not_not_intro hrout, not_not_intro hnorm⟩)
        | inr hX =>
          obtain ⟨format, hargs, htypes⟩ := hX
          exact chosen_format hargs htypes hpre rfl hchoose
    · rename_i hplain
      have hchoose := Except.ok.inj h
      obtain ⟨hinfiles, hframes, -⟩ := chooseFormat_same hchoose
      have hformat := chooseFormat_format hchoose
      rw [hfiles] at hinfiles hframes hformat
      refine ⟨hinfiles, hne, hframes, ?_, hformat⟩
      have hcount : inputChannels ai₀.infiles = inputChannels args.infiles := by rw [hfiles]
      rw [hcount] at hchoose
      cases matrixOption_some hoption with
      | inl hX =>
        exact chosen_other hamb hX.2.2 hfiles hchannels hchoose
      | inr hX =>
        obtain ⟨format, -, htypes⟩ := hX
        exact absurd (Or.inl (aiMatrixPredefined_types htypes)) hplain

/-! Counting. -/

omit [Field K] in
theorem inputChannels_toNat {infiles : List (SoundFile K)}
    (hwrap : (infiles.map fun file => file.channels.toNat).sum < 2^32) :
    (inputChannels infiles).toNat = (infiles.map fun file => file.channels.toNat).sum := by
  have hfold (n : UInt32) : (infiles.foldl (fun channels file => channels+file.channels) n).toNat =
      (n.toNat+(infiles.map fun file => file.channels.toNat).sum)%2^32 := by
    clear hwrap
    induction infiles generalizing n with
    | nil => exact (Nat.mod_eq_of_lt n.toNat_lt).symm
    | cons file rest ih =>
      rw [List.foldl_cons, ih, List.map_cons, List.sum_cons, UInt32.toNat_add, Nat.mod_add_mod,
        Nat.add_assoc]
  rw [inputChannels, hfold]
  change (0+_)%2^32 = _
  rw [Nat.zero_add, Nat.mod_eq_of_lt hwrap]

omit [Field K] in
theorem inputFrames_eq {infiles : List (SoundFile K)} {total : Nat} (hne : infiles ≠ [])
    (htotal : ∀ file ∈ infiles, file.frames.length = total) : inputFrames infiles = total := by
  have hfold : ∀ rest : List (SoundFile K), (∀ file ∈ rest, file.frames.length = total) →
      rest.foldl (fun frames file => if frames = 0 ∨ frames > file.frames.length then
        file.frames.length else frames) total = total := by
    intro rest hrest
    induction rest with
    | nil => rfl
    | cons file rest ih =>
      rw [List.foldl_cons, hrest file List.mem_cons_self, ite_self]
      exact ih fun file' h' => hrest file' (List.mem_cons_of_mem file h')
  cases infiles with
  | nil => exact absurd rfl hne
  | cons file rest =>
    rw [inputFrames, List.foldl_cons, if_pos (Or.inl rfl), htotal file List.mem_cons_self]
    exact hfold rest fun file' h' => htotal file' (List.mem_cons_of_mem file h')

theorem predefinedMatrix_rows {norm rout : MatrixType}
    (h : predefinedMatrix P norm rout channels = .ok (some M)) :
    M.rows = channels ∨ M.rows ≠ 0 ∧ M.rows.toNat ≤ 16 := by
  unfold predefinedMatrix at h
  split at h
  · exact matrixFill_rows h
  · obtain ⟨route, hroute, h⟩ := bind_eq_ok.mp h
    obtain ⟨weights, -, h⟩ := bind_eq_ok.mp h
    obtain ⟨R, rfl, hproduct⟩ := Option.bind_eq_some_iff.mp (Except.ok.inj h)
    obtain ⟨N, -, hproduct⟩ := Option.bind_eq_some_iff.mp hproduct
    rw [(matrixMultiply_size hproduct).1]
    exact matrixFill_rows hroute

theorem Chosen.rows (h : Chosen P args M) (hcols : M.cols ≠ 0)
    (hpos : 0 < (inputChannels args.infiles).toNat)
    (hint : (inputChannels args.infiles).toNat < 2^31)
    (hle : M.cols ≤ inputChannels args.infiles) : 0 < M.rows.toNat ∧ M.rows.toNat < 2^31 := by
  cases h with
  | file file hmatrix => exact ⟨file.channels_pos, file.channels_int⟩
  | format format norm rout M hmatrix htypes hM =>
    cases predefinedMatrix_rows hM with
    | inl hrows =>
      rw [hrows]
      exact ⟨hpos, hint⟩
    | inr hrows => exact ⟨Nat.pos_of_ne_zero fun h0 => hrows.1 (UInt32.toNat_inj.mp h0), by omega⟩
  | amb file M hmatrix hinfiles hcontainer hM =>
    cases matrixFill_rows hM with
    | inl hrows =>
      rw [hrows]
      exact ⟨file.channels_pos, file.channels_int⟩
    | inr hrows => exact ⟨Nat.pos_of_ne_zero fun h0 => hrows.1 (UInt32.toNat_inj.mp h0), by omega⟩
  | identity hmatrix hplain =>
    obtain ⟨hrows, hsize⟩ := fillEntries_size
      (matrixInit (wantedChannels args) (wantedChannels args) : AmbixMatrix K)
      fun r c => if r = c then 1 else 0
    change (fillIdentity _).rows = wantedChannels args at hrows
    change (fillIdentity _).cols = wantedChannels args at hsize
    rw [hsize] at hcols hle
    rw [hrows]
    have hle := UInt32.le_iff_toNat_le.mp hle
    exact ⟨Nat.pos_of_ne_zero fun h0 => hcols (UInt32.toNat_inj.mp h0), by omega⟩

end Ambix.Interleave
