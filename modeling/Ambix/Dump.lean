import Ambix.DeinterleaveCopy
import Ambix.FrameTape

/-! ambix-dump.c: the samples of a file as text, by the file's own channels, decoded by its
matrix, and the extra channels. -/
namespace Ambix.Dump
open Machine
open Deinterleave (matrixMultiplyFloat32 matrixMultiplyFloat32_frames split_frames)
open Interleave (behind copySize defaultBlocksize)

section output
variable {K : Type}

/-- The parts of a dump: `RAW`, `AMB` and `XTR`. -/
inductive Part where
  | raw | amb | xtr
deriving DecidableEq, Repr

/-- What is printed; a frame takes a line. -/
inductive Printed (K : Type) where
  | block (part : Part) (frames channels : Nat)
  | frame (part : Part) (f : Nat) (samples : List K)
  | mismatch (cols ambichannels : UInt32)
  | noAdaptormatrix

/-- `printf_block`; `data` may be `NULL`. -/
def printfBlock (part : Part) (data : Option (Nat → K)) (channels frames : Nat) :
    List (Printed K) :=
  .block part frames channels :: match data with
    | none => []
    | some data =>
      (List.range frames).map fun f => .frame part f (window data (channels*f) channels)

def lines (part : Part) (printed : List (Printed K)) : List (List K) :=
  printed.filterMap fun
    | .frame other _ samples => if other = part then some samples else none
    | _ => none

end output

section tool
variable {K : Type} [Field K]

/-- The command line; `format` is `AMBIX_NONE` and `blocksize` 0 where they are not given. -/
structure Arguments where
  raw : Bool
  ambisonics : Bool
  extra : Bool
  format : FileFormat
  blocksize : UInt32

/-- What `ai_cmdline` sets of `ai_t`. -/
structure Settings where
  format : FileFormat
  dumpRaw : Bool
  dumpCooked : Bool
  dumpXtra : Bool
  blocksize : UInt32

def aiCmdline (args : Arguments) : Settings :=
  let dumpCooked := args.ambisonics || (!args.raw && !args.ambisonics && !args.extra)
  { format := if args.format = .none then .extended else args.format
    dumpRaw := if args.format = .basic then args.raw || dumpCooked else args.raw
    dumpCooked := dumpCooked
    dumpXtra := args.extra
    blocksize := if args.blocksize > 0 then args.blocksize else defaultBlocksize }

structure Ai (K : Type) [Zero K] extends Settings where
  ambix : Handle K
  info : Info
  /-- `info.frames`. -/
  frames : Nat
  matrix : Option (AmbixMatrix K)

def aiOpenInput (P : Platform K) (place : Disk K) (s : Settings) : Checked (Option (Ai K)) := do
  match ← ambixOpen P place .read ⟨s.format, 0, 0⟩ with
  | none => .ok none
  | some ambix =>
    let info := ambix.info
    if info.ambichannels < 1 ∧ info.extrachannels < 1 then .ok none
    else .ok (some ⟨s, ambix, info, ambix.sf.file.frames.length, ambix.getAdaptormatrix⟩)

/-- What `ai_dodump` works on, and what has been printed. -/
structure Dumping (K : Type) [Zero K] where
  ambix : Handle K
  rawdata : Option (Nat → K)
  cookeddata : Option (Nat → K)
  extradata : Option (Nat → K)
  printed : List (Printed K)

/-- The decoding in `ai_dump_block`. -/
def cook (matrix : Option (AmbixMatrix K)) (frames : Nat) (rawdata cookeddata : Option (Nat → K)) :
    Option (Nat → K) :=
  match matrix, rawdata, cookeddata with
  | some matrix, some rawdata, some cookeddata =>
    some (matrixMultiplyFloat32 cookeddata matrix rawdata frames)
  | _, _, _ => cookeddata

/-- The warning of `ai_dump_block`. -/
def warn (ai : Ai K) : List (Printed K) :=
  match ai.matrix with
  | some matrix =>
    if matrix.cols ≠ ai.info.ambichannels then [.mismatch matrix.cols ai.info.ambichannels] else []
  | none => []

/-- What `ai_dump_block` does with the frames it has read. -/
def dumpSplit (ai : Ai K) (frames : Nat) (split : Split K) (ambix : Handle K) (s : Dumping K) :
    Dumping K :=
  let fullambichannels := (ai.matrix.map AmbixMatrix.rows).getD ai.info.ambichannels
  let rawdata := s.rawdata.map fun _ => split.ambi.data
  let extradata := s.extradata.map fun _ => split.other.data
  let cookeddata := cook ai.matrix frames rawdata s.cookeddata
  ⟨ambix, rawdata, cookeddata, extradata, s.printed ++ warn ai ++
    (if ai.dumpRaw then printfBlock .raw rawdata ai.info.ambichannels.toNat frames else []) ++
    (if ai.dumpCooked then printfBlock .amb cookeddata fullambichannels.toNat frames else []) ++
    (if ai.dumpXtra then printfBlock .xtr extradata ai.info.extrachannels.toNat frames else [])⟩

def aiDumpBlock (P : Platform K) (ai : Ai K) (frames : Nat) (s : Dumping K) :
    Checked (Option (Dumping K)) := do
  match ← s.ambix.readf P .float32 (behind s.rawdata) (behind s.extradata) frames with
  | (.error _, _) => .ok none
  | (.ok (got, split), ambix) =>
    .ok (if frames ≠ got then none else some (dumpSplit ai frames split ambix s))

/-- `ai_dodump`; a buffer that is not needed is `NULL`. -/
def aiDodump (P : Platform K) (fresh : Nat → K) (ai : Ai K) : Checked (Option (Dumping K)) :=
  inBlocks (aiDumpBlock P ai) (copySize ai.blocksize) ai.frames {
    ambix := ai.ambix
    rawdata := if ai.info.ambichannels ≠ 0 then some fresh else none
    cookeddata := if ai.info.ambichannels ≠ 0 ∧ ai.matrix.isSome then some fresh else none
    extradata := if ai.info.extrachannels ≠ 0 then some fresh else none
    printed := if ai.info.ambichannels ≠ 0 ∧ ai.matrix.isNone then [.noAdaptormatrix] else [] }

/-- `ambix_dump`: what it prints. -/
def ambixDump (P : Platform K) (place : Disk K) (fresh : Nat → K) (args : Arguments) :
    Checked (Option (List (Printed K))) := do
  match ← aiOpenInput P place (aiCmdline args) with
  | none => .ok none
  | some ai =>
    let dumped ← aiDodump P fresh ai
    .ok (dumped.map Dumping.printed)

end tool

/-! Lines. -/

section lines
variable {K : Type} {part other : Part}

theorem lines_append (first second : List (Printed K)) :
    lines part (first ++ second) = lines part first ++ lines part second :=
  List.filterMap_append

theorem lines_block (data : Nat → K) (channels frames : Nat) :
    lines part (printfBlock part (some data) channels frames) = framesOf data channels frames := by
  simp [lines, printfBlock, List.filterMap_map, framesOf]

theorem lines_other (hne : other ≠ part) (data : Option (Nat → K)) (channels frames : Nat) :
    lines part (printfBlock other data channels frames) = [] := by
  cases data with
  | none => rfl
  | some data => simp [lines, printfBlock, List.filterMap_map, hne]

theorem lines_shown (asked : Bool) {needed : Prop} [Decidable needed] {data : Option (Nat → K)}
    {channels n : Nat} {block : List (List K)} {f : List K → List K}
    (hdata : data.isSome = decide needed)
    (hframes : ∀ d, data = some d → framesOf d channels n = block.map f) :
    lines part (if asked then printfBlock part data channels n else []) =
      (if asked = true ∧ needed then some f else none).elim [] block.map := by
  cases asked with
  | false => rw [if_neg Bool.false_ne_true, if_neg fun h => Bool.false_ne_true h.1]; rfl
  | true =>
    rw [if_pos rfl]
    cases data with
    | none =>
      have hno : ¬ needed := of_decide_eq_false hdata.symm
      rw [if_neg fun h => hno h.2]
      rfl
    | some d =>
      have hyes : needed := of_decide_eq_true hdata.symm
      rw [if_pos ⟨rfl, hyes⟩, lines_block, hframes d rfl]
      rfl

theorem lines_hidden (asked : Bool) (hne : other ≠ part) (data : Option (Nat → K))
    (channels n : Nat) : lines part (if asked then printfBlock other data channels n else []) =
      [] := by
  split
  · exact lines_other hne data channels n
  · rfl

end lines

/-! Blocks. -/

section blocks
variable {K : Type} [Field K] {P : Platform K} {ai : Ai K} {V : FrameView K}
  {frames : List (List K)} {done n : Nat} {s : Dumping K} {part : Part}

theorem lines_warn (ai : Ai K) : lines part (warn ai) = [] := by
  unfold warn
  split
  · split <;> rfl
  · rfl

/-- What a part shows of a frame that is taken apart by `decode`. -/
def partOf (ai : Ai K) (decode : List K → Frame K) : Part → Option (List K → List K)
  | .raw => if ai.dumpRaw ∧ ai.info.ambichannels ≠ 0 then some fun fr => (decode fr).1 else none
  | .amb => ai.matrix.bind fun M =>
    if ai.dumpCooked ∧ ai.info.ambichannels ≠ 0 then some fun fr => mix id id M (decode fr).1
    else none
  | .xtr => if ai.dumpXtra ∧ ai.info.extrachannels ≠ 0 then some fun fr => (decode fr).2 else none

def linesOf (ai : Ai K) (decode : List K → Frame K) (part : Part) (frames : List (List K)) :
    List (List K) :=
  (partOf ai decode part).elim [] frames.map

theorem linesOf_nil (decode : List K → Frame K) : linesOf ai decode part [] = [] := by
  unfold linesOf
  cases partOf ai decode part <;> rfl

theorem linesOf_append (decode : List K → Frame K) (first second : List (List K)) :
    linesOf ai decode part (first ++ second) =
      linesOf ai decode part first ++ linesOf ai decode part second := by
  unfold linesOf
  cases partOf ai decode part with
  | none => rfl
  | some f => exact List.map_append

/-- The state of `ai_dodump` when `done` of the frames are printed. -/
structure Dumped (ai : Ai K) (V : FrameView K) (frames : List (List K)) (done : Nat)
    (s : Dumping K) : Prop where
  presents : Presents s.ambix V
  counted : Counted s.ambix
  layout : s.ambix.toLayout = ai.ambix.toLayout
  remaining : s.ambix.remaining = frames.drop done
  rawdata : s.rawdata.isSome = decide (ai.info.ambichannels ≠ 0)
  cookeddata : s.cookeddata.isSome = decide (ai.info.ambichannels ≠ 0 ∧ ai.matrix.isSome)
  extradata : s.extradata.isSome = decide (ai.info.extrachannels ≠ 0)
  printed : ∀ part, lines part s.printed = linesOf ai V.decode part (frames.take done)

theorem cook_isSome (matrix : Option (AmbixMatrix K)) (frames : Nat)
    (rawdata cookeddata : Option (Nat → K)) :
    (cook matrix frames rawdata cookeddata).isSome = cookeddata.isSome := by
  unfold cook
  split <;> rfl

theorem cook_frames {M : AmbixMatrix K} {rawdata cookeddata : Option (Nat → K)}
    {block : List (List K)} {f : List K → List K} (hraw : rawdata.isSome = cookeddata.isSome)
    (hframes : ∀ d, rawdata = some d → framesOf d M.cols.toNat n = block.map f) :
    ∀ d, cook (some M) n rawdata cookeddata = some d →
      framesOf d M.rows.toNat n = block.map fun fr => mix id id M (f fr) := by
  intro d hd
  cases cookeddata with
  | none =>
    have hnone := cook_isSome (some M) n rawdata none
    rw [hd] at hnone
    cases hnone
  | some cooked =>
    obtain ⟨raw, rfl⟩ := Option.isSome_iff_exists.mp hraw
    obtain rfl := Option.some.inj hd
    rw [matrixMultiplyFloat32_frames, hframes raw rfl, List.map_map]
    rfl

theorem aiDumpBlock_read {split : Split K} {h' : Handle K}
    (hr : s.ambix.readf P .float32 (behind s.rawdata) (behind s.extradata) n =
      .ok (.ok (n, split), h')) :
    aiDumpBlock P ai n s = .ok (some (dumpSplit ai n split h' s)) := by
  rw [aiDumpBlock, hr, ok_bind]
  exact congrArg Except.ok (if_neg (not_not_intro rfl))

theorem lines_cooked {rawdata cookeddata : Option (Nat → K)} {block : List (List K)}
    {decode : List K → Frame K}
    (hcols : ∀ M, ai.matrix = some M → M.cols = ai.info.ambichannels)
    (hrawdata : rawdata.isSome = decide (ai.info.ambichannels ≠ 0))
    (hcookeddata : cookeddata.isSome = decide (ai.info.ambichannels ≠ 0 ∧ ai.matrix.isSome))
    (hframes : ∀ d, rawdata = some d →
      framesOf d ai.info.ambichannels.toNat n = block.map fun fr => (decode fr).1) :
    lines .amb (if ai.dumpCooked then printfBlock .amb (cook ai.matrix n rawdata cookeddata)
      ((ai.matrix.map AmbixMatrix.rows).getD ai.info.ambichannels).toNat n else []) =
      linesOf ai decode .amb block := by
  unfold linesOf partOf
  cases hM : ai.matrix with
  | none =>
    have hnone : cookeddata = none := by simpa [hM] using hcookeddata
    rw [hnone]
    cases ai.dumpCooked <;> rfl
  | some M =>
    have hsome : cookeddata.isSome = decide (ai.info.ambichannels ≠ 0) := by
      simpa [hM] using hcookeddata
    rw [← hcols M hM] at hframes
    exact (lines_shown _ ((cook_isSome _ n rawdata cookeddata).trans hsome)
      (cook_frames (hrawdata.trans hsome.symm) hframes)).trans rfl

theorem lines_dumpSplit {split : Split K} {h' : Handle K} {block : List (List K)}
    {decode : List K → Frame K}
    (hcols : ∀ M, ai.matrix = some M → M.cols = ai.info.ambichannels)
    (hrawdata : s.rawdata.isSome = decide (ai.info.ambichannels ≠ 0))
    (hcookeddata : s.cookeddata.isSome = decide (ai.info.ambichannels ≠ 0 ∧ ai.matrix.isSome))
    (hextradata : s.extradata.isSome = decide (ai.info.extrachannels ≠ 0))
    (hraw : framesOf split.ambi.data ai.info.ambichannels.toNat n =
      block.map fun fr => (decode fr).1)
    (hxtr : framesOf split.other.data ai.info.extrachannels.toNat n =
      block.map fun fr => (decode fr).2) :
    lines part (dumpSplit ai n split h' s).printed =
      lines part s.printed ++ linesOf ai decode part block := by
  have hframes (d) (hd : s.rawdata.map (fun _ => split.ambi.data) = some d) :
      framesOf d ai.info.ambichannels.toNat n = block.map fun fr => (decode fr).1 := by
    obtain ⟨_, -, rfl⟩ := Option.map_eq_some_iff.mp hd
    exact hraw
  have hother (d) (hd : s.extradata.map (fun _ => split.other.data) = some d) :
      framesOf d ai.info.extrachannels.toNat n = block.map fun fr => (decode fr).2 := by
    obtain ⟨_, -, rfl⟩ := Option.map_eq_some_iff.mp hd
    exact hxtr
  have hcooked : lines .amb (if ai.dumpCooked then printfBlock .amb
      (cook ai.matrix n (s.rawdata.map fun _ => split.ambi.data) s.cookeddata)
      ((ai.matrix.map AmbixMatrix.rows).getD ai.info.ambichannels).toNat n else []) =
      linesOf ai decode .amb block := by
    exact lines_cooked hcols (Option.isSome_map.trans hrawdata) hcookeddata hframes
  unfold dumpSplit
  simp only [lines_append, lines_warn, List.append_nil]
  cases part with
  | raw =>
    rw [lines_shown _ (Option.isSome_map.trans hrawdata) hframes, lines_hidden _ (by decide),
      lines_hidden _ (by decide), List.append_nil, List.append_nil]
    rfl
  | amb =>
    rw [hcooked, lines_hidden _ (by decide), lines_hidden _ (by decide), List.append_nil,
      List.append_nil]
  | xtr =>
    rw [lines_shown _ (Option.isSome_map.trans hextradata) hother, lines_hidden _ (by decide),
      lines_hidden _ (by decide), List.append_nil, List.append_nil]
    rfl

theorem aiDumpBlock_dumped (hgrants : ∀ size, P.grants size = true)
    (hambi : V.ambi = ai.info.ambichannels.toNat) (hextra : V.extra = ai.info.extrachannels.toNat)
    (hcols : ∀ M, ai.matrix = some M → M.cols = ai.info.ambichannels)
    (hbytes : ai.ambix.bytes n SampleType.float32.size < 2^64) (hdone : done+n ≤ frames.length)
    (hs : Dumped ai V frames done s) :
    ∃ s', aiDumpBlock P ai n s = .ok (some s') ∧ Dumped ai V frames (done+n) s' := by
  obtain ⟨split, h', hr⟩ := readf_left hgrants hs.counted hs.presents.reads
    .float32 (hs.layout ▸ hbytes) (behind s.rawdata) (behind s.extradata)
  obtain ⟨hframes, hpresents, -, hremaining⟩ := readf_presents hs.presents hr
  have hlength : (s.ambix.remaining.take n).length = n := by
    rw [hs.remaining, List.length_take, List.length_drop]
    omega
  rw [hlength] at hr hframes
  obtain ⟨hraw, hxtr⟩ := split_frames (u := fun fr => (V.decode fr).1)
    (v := fun fr => (V.decode fr).2) hframes
  rw [hambi] at hraw
  rw [hextra] at hxtr
  have hlayout := readf_layout hr
  have hblock : frames.take (done+n) = frames.take done ++ s.ambix.remaining.take n := by
    rw [hs.remaining, ← List.take_add]
  refine ⟨_, aiDumpBlock_read hr, ⟨hpresents, hs.counted.of_same hlayout (readf_sameFile hr),
    hlayout.trans hs.layout, ?_, ?_, ?_, ?_, ?_⟩⟩
  · change h'.remaining = frames.drop (done+n)
    rw [hremaining, hs.remaining, List.drop_drop]
  · exact Option.isSome_map.trans hs.rawdata
  · exact (cook_isSome _ _ _ _).trans hs.cookeddata
  · exact Option.isSome_map.trans hs.extradata
  · intro part
    rw [lines_dumpSplit hcols hs.rawdata hs.cookeddata hs.extradata hraw hxtr, hs.printed part,
      hblock, linesOf_append]

omit [Field K] in
theorem buffer_isSome (needed : Prop) [Decidable needed] (fresh : Nat → K) :
    (if needed then some fresh else none).isSome = decide needed := by
  by_cases h : needed
  · rw [if_pos h, decide_eq_true h, Option.isSome_some]
  · rw [if_neg h, decide_eq_false h, Option.isSome_none]

theorem aiDodump_dumped (hgrants : ∀ size, P.grants size = true)
    (hambi : V.ambi = ai.info.ambichannels.toNat) (hextra : V.extra = ai.info.extrachannels.toNat)
    (hcols : ∀ M, ai.matrix = some M → M.cols = ai.info.ambichannels)
    (hV : Presents ai.ambix V) (hcounted : Counted ai.ambix)
    (hblock : ai.ambix.bytes (copySize ai.blocksize).val SampleType.float32.size < 2^64)
    (hwhole : ai.ambix.remaining = frames) (htotal : ai.frames = frames.length)
    (fresh : Nat → K) : ∃ s, aiDodump P fresh ai = .ok (some s) ∧
      Dumped ai V frames frames.length s := by
  unfold aiDodump
  rw [htotal]
  refine inBlocks_rule (Dumped ai V frames) (copySize ai.blocksize) ?_
    fun done n s hn hdone hs => aiDumpBlock_dumped hgrants hambi hextra hcols
      (lt_of_le_of_lt (bytes_mono hn _) hblock) hdone hs
  refine ⟨hV, hcounted, rfl, hwhole, ?_, ?_, ?_, fun part => ?_⟩
  · exact buffer_isSome _ fresh
  · exact buffer_isSome _ fresh
  · exact buffer_isSome _ fresh
  · rw [List.take_zero, linesOf_nil]
    dsimp only
    split <;> rfl

end blocks

/-! Files. -/

section files
variable {K : Type} [Field K] {P : Platform K} {place : Disk K} {info : Info} {h0 : Handle K}
  {file : SoundFile K} {args : Arguments} {fresh : Nat → K} {part : Part}

theorem present_matrix {l : Layout K} (wantformat : FileFormat) (hinfo : l.info = l.realinfo)
    (hnone : l.useMatrix = .none)
    (hstored : l.realinfo.fileformat = .extended → l.matrix.cols = l.realinfo.ambichannels) :
    (l.present wantformat).stride = (l.present wantformat).info.ambichannels ∧
      ((l.present wantformat).info.fileformat = .extended →
        (l.present wantformat).matrix.cols = (l.present wantformat).info.ambichannels) := by
  obtain ⟨-, -, hp⟩ | ⟨-, -, hp⟩ | ⟨-, -, hp⟩ := present_cases wantformat l
  · rw [hp]
    exact ⟨rfl, fun hno => by cases hno⟩
  · rw [hp, hinfo]
    exact ⟨rfl, fun _ => (fillEntries_size _ _).2⟩
  · rw [hp, hinfo, Layout.stride, inUse_none.mpr hnone, hinfo]
    exact ⟨rfl, hstored⟩

theorem getAdaptormatrix_some {h : Handle K} {M : AmbixMatrix K}
    (hM : h.getAdaptormatrix = some M) : h.info.fileformat = .extended ∧ h.matrix = M := by
  unfold Handle.getAdaptormatrix at hM
  split at hM
  · rename_i hextended
    exact ⟨hextended, Option.some.inj hM⟩
  · cases hM

theorem opened_matrix (hfile : place.existing = some file)
    (hopen : ambixOpen P place .read info = .ok (some h0)) :
    h0.stride = h0.info.ambichannels ∧
      ∀ M, h0.getAdaptormatrix = some M → M.cols = h0.info.ambichannels := by
  obtain ⟨o, -, -, hl⟩ := ambixOpen_read_layout hfile hopen
  obtain ⟨hstride, hcols⟩ := present_matrix (l := freshLayout .read info o) info.fileformat rfl rfl
    (openedRealinfo_shape info o).2.2
  rw [← hl] at hstride hcols
  refine ⟨hstride, fun M hM => ?_⟩
  obtain ⟨hextended, rfl⟩ := getAdaptormatrix_some hM
  exact hcols hextended

theorem opened_channels (hfile : place.existing = some file)
    (hopen : ambixOpen P place .read info = .ok (some h0)) :
    ¬ (h0.info.ambichannels < 1 ∧ h0.info.extrachannels < 1) := by
  obtain ⟨-, -, -, hshape⟩ := ambixOpen_read_shape hopen
  obtain ⟨o, hback, -, hl⟩ := ambixOpen_read_layout hfile hopen
  rintro ⟨hambi, hextra⟩
  have hambi : h0.info.ambichannels = 0 := UInt32.lt_one_iff.mp hambi
  have hextra : h0.info.extrachannels = 0 := UInt32.lt_one_iff.mp hextra
  have hwidth := hshape.source
  rw [← hshape.extra, hextra, UInt32.add_zero] at hwidth
  have hsome : h0.realinfo.ambichannels ≠ 0 := by
    rintro hzero
    have hpos := h0.sf.file.channels_pos
    rw [← hwidth, hzero] at hpos
    exact absurd hpos (by decide)
  rw [hl] at hambi hsome
  obtain ⟨-, hreal, hp⟩ | ⟨-, -, hp⟩ | ⟨-, -, hp⟩ :=
    present_cases info.fileformat (freshLayout .read info o)
  · rw [hp] at hambi
    change (openedRealinfo .read info o).fileformat = .extended at hreal
    obtain ⟨hambix, hformat, -⟩ | ⟨-, -, hbasic⟩ | ⟨-, hnone⟩ := openedRealinfo_read info o
    · exact (backendOpen_read hfile hback).2 hambix hformat hambi
    · rw [hbasic] at hreal
      cases hreal
    · rw [hnone] at hreal
      cases hreal
  · rw [hp] at hambi hsome
    exact hsome hambi
  · rw [hp] at hambi hsome
    exact hsome hambi

def opened (args : Arguments) (h0 : Handle K) : Ai K :=
  ⟨aiCmdline args, h0, h0.info, h0.sf.file.frames.length, h0.getAdaptormatrix⟩

theorem aiOpenInput_opened (hfile : place.existing = some file)
    (hopen : ambixOpen P place .read ⟨(aiCmdline args).format, 0, 0⟩ = .ok (some h0)) :
    aiOpenInput P place (aiCmdline args) = .ok (some (opened args h0)) := by
  rw [aiOpenInput, hopen, ok_bind]
  exact if_neg (opened_channels hfile hopen)

section run
variable [LinearOrder K]

theorem ambixDump_dumped (hgrants : ∀ size, P.grants size = true)
    (hfile : place.existing = some file)
    (hopen : ambixOpen P place .read ⟨(aiCmdline args).format, 0, 0⟩ = .ok (some h0))
    (hwrap : h0.bufferChannels < 2^32)
    (hblock : h0.bytes (copySize (aiCmdline args).blocksize).val SampleType.float32.size < 2^64)
    (fresh : Nat → K) : ∃ s V, V.decode = h0.decode ∧
      ambixDump P place fresh args = .ok (some s.printed) ∧
      Dumped (opened args h0) V file.frames file.frames.length s := by
  obtain ⟨-, -, hsf, -⟩ := ambixOpen_read_layout hfile hopen
  obtain ⟨hstride, hcols⟩ := opened_matrix hfile hopen
  have hr := session_readHandle hopen .start
  obtain ⟨V, hV, hdecode⟩ := hr.decodes
  have hwhole : h0.remaining = file.frames := by
    rw [Handle.remaining, hsf]
    rfl
  have htotal : h0.sf.file.frames.length = file.frames.length := by rw [hsf]
  have hambi : V.ambi = (opened args h0).info.ambichannels.toNat :=
    hV.ambi.trans (congrArg UInt32.toNat hstride)
  obtain ⟨s, hrun, hs⟩ := aiDodump_dumped hgrants hambi hV.extra hcols hV.toPresents
    ⟨source_covered hr.shape.source, hwrap⟩ hblock hwhole htotal fresh
  refine ⟨s, V, hdecode, ?_, hs⟩
  rw [ambixDump, aiOpenInput_opened hfile hopen, ok_bind]
  dsimp only
  rw [hrun]
  rfl

/-- Every part that is asked for is printed in full and in order, whatever the block size. -/
theorem dump_prints (hgrants : ∀ size, P.grants size = true)
    (hfile : place.existing = some file)
    (hopen : ambixOpen P place .read ⟨(aiCmdline args).format, 0, 0⟩ = .ok (some h0))
    (hwrap : h0.bufferChannels < 2^32)
    (hblock : h0.bytes (copySize (aiCmdline args).blocksize).val SampleType.float32.size < 2^64)
    (fresh : Nat → K) : ∃ printed,
      ambixDump P place fresh args = .ok (some printed) ∧
      ∀ part, lines part printed = linesOf (opened args h0) h0.decode part file.frames := by
  obtain ⟨s, V, hdecode, hdump, hs⟩ :=
    ambixDump_dumped hgrants hfile hopen hwrap hblock fresh
  refine ⟨s.printed, hdump, fun part => ?_⟩
  rw [hs.printed part, List.take_length, hdecode]

/-- All parts of a file with a matrix, in blocks of two frames. -/
theorem dump_prints_reduced : ∃ (h0 : Handle ℚ) (printed : List (Printed ℚ)),
    ambixOpen unitPlatform (unitDisk (some reducedFile)) .read ⟨.extended, 0, 0⟩ = .ok (some h0) ∧
    ambixDump unitPlatform (unitDisk (some reducedFile)) (fun _ => 0)
      ⟨true, true, true, .none, 2⟩ = .ok (some printed) ∧
    ∀ part, lines part printed =
      linesOf (opened ⟨true, true, true, .none, 2⟩ h0) h0.decode part reducedFile.frames := by
  obtain ⟨h0, hopen, hroom⟩ : ∃ h0 : Handle ℚ,
      ambixOpen unitPlatform (unitDisk (some reducedFile)) .read ⟨.extended, 0, 0⟩ =
        .ok (some h0) ∧ h0.bufferChannels = 3 := by with_unfolding_all exact ⟨_, rfl, rfl⟩
  have hargs : ambixOpen unitPlatform (unitDisk (some reducedFile)) .read
      ⟨(aiCmdline ⟨true, true, true, .none, 2⟩).format, 0, 0⟩ = .ok (some h0) := hopen
  obtain ⟨printed, hdump, hlines⟩ := dump_prints (fun _ => rfl) rfl hargs
    (by rw [hroom]; decide) (by rw [Layout.bytes, hroom]; decide) (fun _ => 0)
  exact ⟨h0, printed, hopen, hdump, hlines⟩

end run

theorem opened_layouts {e b : Handle K} (hfile : place.existing = some file)
    (he : ambixOpen P place .read ⟨.extended, 0, 0⟩ = .ok (some e))
    (hb : ambixOpen P place .read ⟨.basic, 0, 0⟩ = .ok (some b))
    (hrecognised : e.info.fileformat ≠ .none) : ∃ M,
    (e.toLayout = extendedLayout M file.channels ∧ b.toLayout = decodedLayout M file.channels ∧
      M.rows ≠ 0) ∨
    (e.toLayout = identityLayout file.channels ∧ b.toLayout = basicLayout M file.channels) := by
  obtain ⟨o, hback, -, hle⟩ := ambixOpen_read_layout hfile he
  obtain ⟨o', hback', -, hlb⟩ := ambixOpen_read_layout hfile hb
  obtain rfl : o = o' := Option.some.inj (Except.ok.inj (hback.symm.trans hback'))
  obtain ⟨hsf, hrows⟩ := backendOpen_read hfile hback
  have hchannels : o.sf.file.channels = file.channels := by rw [hsf]
  change b.toLayout = (freshLayout .read ⟨.extended, 0, 0⟩ o).present .basic at hlb
  refine ⟨o.matrix, ?_⟩
  obtain ⟨hambix, hformat, -, -, hreal⟩ | ⟨-, -, hreal⟩ | ⟨-, hnone⟩ :=
    openedRealinfo_read ⟨.extended, 0, 0⟩ o
  · have hfresh : freshLayout .read ⟨.extended, 0, 0⟩ o =
        extendedLayout o.matrix file.channels := by
      rw [freshLayout, hreal, hchannels]
      rfl
    rw [hfresh] at hle hlb
    exact Or.inl ⟨hle, hlb, hrows hambix hformat⟩
  · have hfresh : freshLayout .read ⟨.extended, 0, 0⟩ o = basicLayout o.matrix file.channels := by
      rw [freshLayout, hreal, hchannels]
      rfl
    rw [hfresh] at hle hlb
    exact Or.inr ⟨hle, hlb⟩
  · refine absurd ?_ hrecognised
    obtain ⟨hno, -⟩ | ⟨-, hno, -⟩ | ⟨-, -, hp⟩ :=
      present_cases .extended (freshLayout .read ⟨.extended, 0, 0⟩ o)
    · cases hno
    · exact absurd (hnone.symm.trans hno) (by decide)
    · rw [hle, hp]
      exact hnone

/-- The BASIC view has the frames of the EXTENDED one, decoded. -/
theorem opened_decodes {e b : Handle K} (hfile : place.existing = some file)
    (he : ambixOpen P place .read ⟨.extended, 0, 0⟩ = .ok (some e))
    (hb : ambixOpen P place .read ⟨.basic, 0, 0⟩ = .ok (some b))
    (hrecognised : e.info.fileformat ≠ .none) : ∃ M, e.getAdaptormatrix = some M ∧
      b.info.ambichannels ≠ 0 ∧ b.info.extrachannels = e.info.extrachannels ∧
      ∀ fr ∈ file.frames, b.decode fr = (mix id id M (e.decode fr).1, (e.decode fr).2) := by
  obtain ⟨M, ⟨hle, hlb, hrows⟩ | ⟨hle, hlb⟩⟩ := opened_layouts hfile he hb hrecognised
  · refine ⟨M, ?_, ?_, ?_, fun fr _ => ?_⟩
    · rw [Handle.getAdaptormatrix, hle]
      rfl
    · rw [hlb]
      exact hrows
    · rw [hle, hlb]
      rfl
    · rw [hle, hlb]
      exact Prod.ext (mix_take M fr).symm rfl
  · refine ⟨fillIdentity (matrixInit file.channels file.channels), ?_, ?_, ?_, fun fr hfr => ?_⟩
    · rw [Handle.getAdaptormatrix, hle]
      rfl
    · rw [hlb]
      intro hzero
      have hpos := file.channels_pos
      rw [show file.channels = 0 from hzero] at hpos
      exact absurd hpos (by decide)
    · rw [hle, hlb]
      rfl
    · have hlength := file.width fr hfr
      have htake : fr.take file.channels.toNat = fr := List.take_of_length_le (Nat.le_of_eq hlength)
      rw [hle, hlb]
      refine Prod.ext ?_ rfl
      change fr.take file.channels.toNat = mix id id _ (fr.take file.channels.toNat)
      rw [htake, mix_identity file.channels_int hlength]

section views
variable [LinearOrder K]

omit [LinearOrder K] in
theorem linesOf_raw {ai : Ai K} {decode : List K → Frame K} {frames : List (List K)}
    (hasked : ai.dumpRaw = true) (hneeded : ai.info.ambichannels ≠ 0) :
    linesOf ai decode .raw frames = frames.map fun fr => (decode fr).1 := by
  rw [linesOf, partOf, if_pos ⟨hasked, hneeded⟩]
  rfl

omit [LinearOrder K] in
theorem linesOf_xtr (ai : Ai K) (decode : List K → Frame K) (frames : List (List K)) :
    linesOf ai decode .xtr frames = if ai.dumpXtra ∧ ai.info.extrachannels ≠ 0
      then frames.map (fun fr => (decode fr).2) else [] := by
  by_cases h : ai.dumpXtra = true ∧ ai.info.extrachannels ≠ 0
  · rw [linesOf, partOf, if_pos h, if_pos h]
    rfl
  · rw [linesOf, partOf, if_neg h, if_neg h]
    rfl

omit [LinearOrder K] in
theorem linesOf_amb {ai : Ai K} {M : AmbixMatrix K} {decode : List K → Frame K}
    {frames : List (List K)} (hM : ai.matrix = some M) (hasked : ai.dumpCooked = true)
    (hneeded : ai.info.ambichannels ≠ 0) :
    linesOf ai decode .amb frames = frames.map fun fr => mix id id M (decode fr).1 := by
  rw [linesOf, partOf, hM, Option.bind_some, if_pos ⟨hasked, hneeded⟩]
  rfl

/-- The command line with `--basic`, in blocks of another size. -/
def Arguments.basic (args : Arguments) (blocksize : UInt32) : Arguments :=
  { args with format := .basic, blocksize := blocksize }

/-- What is decoded of the EXTENDED view is what `--basic` prints as it is. -/
theorem dump_views {e b : Handle K} (hgrants : ∀ size, P.grants size = true)
    (hfile : place.existing = some file)
    (he : ambixOpen P place .read ⟨.extended, 0, 0⟩ = .ok (some e))
    (hb : ambixOpen P place .read ⟨.basic, 0, 0⟩ = .ok (some b))
    (hrecognised : e.info.fileformat ≠ .none) (hambi : e.info.ambichannels ≠ 0)
    (hewrap : e.bufferChannels < 2^32) (hbwrap : b.bufferChannels < 2^32)
    (heblock : e.bytes (copySize (aiCmdline args).blocksize).val SampleType.float32.size < 2^64)
    {blocksize : UInt32}
    (hbblock : b.bytes (copySize (aiCmdline (args.basic blocksize)).blocksize).val
      SampleType.float32.size < 2^64)
    (hformat : args.format ≠ .basic) (hcooked : (aiCmdline args).dumpCooked = true)
    (fresh fresh' : Nat → K) : ∃ printed printed',
      ambixDump P place fresh args = .ok (some printed) ∧
      ambixDump P place fresh' (args.basic blocksize) = .ok (some printed') ∧
      lines .amb printed = file.frames.map (fun fr => (b.decode fr).1) ∧
      lines .raw printed' = lines .amb printed ∧ lines .xtr printed' = lines .xtr printed := by
  obtain ⟨M, hM, hrows, hextra, hdecodes⟩ := opened_decodes hfile he hb hrecognised
  have hextended : (aiCmdline args).format = .extended := by
    unfold aiCmdline
    cases hf : args.format with
    | basic => exact absurd hf hformat
    | _ => rfl
  have hraw : (aiCmdline (args.basic blocksize)).dumpRaw = true := by
    change (args.raw || (aiCmdline args).dumpCooked) = true
    rw [hcooked, Bool.or_true]
  obtain ⟨s, V, hV, hdump, hs⟩ := ambixDump_dumped hgrants hfile (by rw [hextended]; exact he)
    hewrap heblock fresh
  obtain ⟨s', V', hV', hdump', hs'⟩ := ambixDump_dumped hgrants hfile
    (show ambixOpen P place .read ⟨(aiCmdline (args.basic blocksize)).format, 0, 0⟩ =
      .ok (some b) from hb) hbwrap hbblock fresh'
  have hamb : lines .amb s.printed = file.frames.map fun fr => (b.decode fr).1 := by
    rw [hs.printed, List.take_length, hV, linesOf_amb hM hcooked hambi]
    exact List.map_congr_left fun fr hfr => by rw [hdecodes fr hfr]
  have hraw' : lines .raw s'.printed = file.frames.map fun fr => (b.decode fr).1 := by
    rw [hs'.printed, List.take_length, hV', linesOf_raw hraw hrows]
  have hxtr : file.frames.map (fun fr => (b.decode fr).2) =
      file.frames.map fun fr => (e.decode fr).2 :=
    List.map_congr_left fun fr hfr => by rw [hdecodes fr hfr]
  refine ⟨s.printed, s'.printed, hdump, hdump', hamb, hraw'.trans hamb.symm, ?_⟩
  rw [hs.printed, hs'.printed, List.take_length, hV, hV', linesOf_xtr, linesOf_xtr, hxtr]
  change (if args.extra = true ∧ b.info.extrachannels ≠ 0 then _ else _) = _
  rw [hextra]
  rfl

def plainArguments : Arguments := ⟨false, false, false, .none, 0⟩

/-- The stereo file, decoded and as it is. -/
theorem dump_views_stereo : ∃ (e b : Handle ℚ) (printed printed' : List (Printed ℚ)),
    ambixOpen unitPlatform (unitDisk (some stereoFile)) .read ⟨.extended, 0, 0⟩ = .ok (some e) ∧
    ambixOpen unitPlatform (unitDisk (some stereoFile)) .read ⟨.basic, 0, 0⟩ = .ok (some b) ∧
    lines .amb printed = stereoFile.frames.map (fun fr => (b.decode fr).1) ∧
    lines .raw printed' = lines .amb printed := by
  obtain ⟨e, b, he, hb, hrec, hambi, heroom, hbroom⟩ : ∃ e b : Handle ℚ,
      ambixOpen unitPlatform (unitDisk (some stereoFile)) .read ⟨.extended, 0, 0⟩ = .ok (some e) ∧
      ambixOpen unitPlatform (unitDisk (some stereoFile)) .read ⟨.basic, 0, 0⟩ = .ok (some b) ∧
      e.info.fileformat = .extended ∧ e.info.ambichannels = 1 ∧ e.bufferChannels = 2 ∧
      b.bufferChannels = 2 := ⟨_, _, rfl, rfl, rfl, rfl, rfl, rfl⟩
  have heblock : e.bytes (copySize (aiCmdline plainArguments).blocksize).val
      SampleType.float32.size < 2^64 := by
    rw [Layout.bytes, heroom]
    decide
  have hbblock : b.bytes (copySize (aiCmdline (plainArguments.basic 1)).blocksize).val
      SampleType.float32.size < 2^64 := by
    rw [Layout.bytes, hbroom]
    decide
  obtain ⟨printed, printed', _, _, hamb, hraw, _⟩ := dump_views (fun _ => rfl) rfl he hb
    (by rw [hrec]; decide) (by rw [hambi]; decide) (by rw [heroom]; decide)
    (by rw [hbroom]; decide) heblock hbblock (by decide) rfl (fun _ => 0) (fun _ => 0)
  exact ⟨e, b, printed, printed', he, hb, hamb, hraw⟩

end views

end files
end Ambix.Dump
