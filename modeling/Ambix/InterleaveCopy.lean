import Ambix.Interleave
import Ambix.Writing

/-! What `ai_copy` of ambix-interleave writes: the frames of its inputs side by side, whatever
the block size. -/
namespace Ambix.Interleave
open Machine
variable {K : Type}

/-! One input file. -/

theorem deinterleaver_eq (dest : Cursor K) (source : Nat → K) (frames channels : Nat) :
    deinterleaver dest source frames channels = dest.putAll ((List.range channels).flatMap fun c =>
      (List.range frames).map fun f => source (f*channels+c)) := by
  refine loop_eq (fun n => dest.putAll ((List.range n).flatMap fun c =>
    (List.range frames).map fun f => source (f*channels+c))) rfl fun c _ => ?_
  rw [putLoop_eq, Cursor.putAll_flatMap_succ]

theorem deinterleaver_planes (dest : Cursor K) (source : Nat → K) (frames channels : Nat) :
    planesOf (fun i => (deinterleaver dest source frames channels).data (dest.count+i)) channels
      frames = framesOf source channels frames := by
  rw [deinterleaver_eq, planesOf_written dest fun c f => source (f*channels+c)]
  refine List.map_congr_left fun f _ => List.map_congr_left fun c _ => ?_
  rw [Nat.mul_comm]

theorem deinterleaver_before (dest : Cursor K) (source : Nat → K) (frames channels : Nat) {i : Nat}
    (hi : i < dest.count) : (deinterleaver dest source frames channels).data i = dest.data i := by
  rw [deinterleaver_eq]
  exact Cursor.putAll_outside _ _ (Or.inl hi)

theorem interleaver_frames (dest source : Nat → K) (frames channels : Nat) :
    framesOf (interleaver (.start dest) source frames channels).data channels frames =
      planesOf source channels frames := by
  have hputs : interleaver (.start dest) source frames channels =
      (Cursor.start dest).putAll (planesOf source channels frames).flatten := by
    rw [planesOf, ← List.flatMap_def]
    refine loop_eq (fun n => (Cursor.start dest).putAll ((List.range n).flatMap fun f =>
      (List.range channels).map fun c => source (c*frames+f))) rfl fun f _ => ?_
    rw [putLoop_eq, Cursor.putAll_flatMap_succ]
  have hframes := framesOf_written (planesOf_width (p := source) (w := channels) (n := frames))
    (Cursor.start_putAll_items dest (planesOf source channels frames).flatten)
  rw [planesOf_length] at hframes
  rw [hputs, hframes]

def nextFrames (n : Nat) (sf : SndFile K) : List (List K) :=
  (sf.file.frames.drop sf.position).take n

def advance (n : Nat) (sf : SndFile K) : SndFile K := { sf with position := sf.position+n }

theorem advance_advance (m n : Nat) (sf : SndFile K) :
    advance n (advance m sf) = advance (m+n) sf := by
  rw [advance, advance, advance, Nat.add_assoc]

structure HasFrames (n : Nat) (sf : SndFile K) : Prop where
  reads : sf.mode.canRead = true
  enough : (nextFrames n sf).length = n

theorem nextFrames_width (n : Nat) (sf : SndFile K) :
    ∀ fr ∈ nextFrames n sf, fr.length = sf.file.channels.toNat :=
  fun fr hfr => sf.file.width fr (List.mem_of_mem_drop (List.mem_of_mem_take hfr))

theorem sfReadf_next {n : Nat} {sf : SndFile K} (h : HasFrames n sf) (data : Nat → K) :
    ∃ data', sfReadf sf data n = (n, data', advance n sf) ∧
      framesOf data' sf.file.channels.toNat n = nextFrames n sf := by
  have hframes := framesOf_written (nextFrames_width n sf)
    (Cursor.start_putAll_items data (nextFrames n sf).flatten)
  have henough := h.enough
  rw [henough] at hframes
  refine ⟨((Cursor.start data).putAll (nextFrames n sf).flatten).data, ?_, hframes⟩
  rw [nextFrames] at henough
  rw [sfReadf, if_pos h.reads]
  dsimp only
  rw [henough]
  rfl

/-- What an input file leaves behind `offset`: its planes, and nothing before them changes. -/
structure InputStored (n offset : Nat) (sf : SndFile K) (source : Option (Nat → K))
    (data : Nat → K) (r : InputRead K) : Prop where
  readframes : r.readframes = n
  infile : r.infile = advance n sf
  source : r.sourcedata = none → source = none
  before : ∀ i < offset, r.deinterleavedata i = data i
  planes : planesOf (fun i => r.deinterleavedata (offset+i)) sf.file.channels.toNat n =
    nextFrames n sf

theorem readInput_multichannel {n offset : Nat} {sf : SndFile K} (h : HasFrames n sf)
    (source data : Nat → K) (hmulti : sf.file.channels > 1) :
    InputStored n offset sf (some source) data (readInput n offset sf (some source) data) := by
  obtain ⟨source', hread, hframes⟩ := sfReadf_next h source
  rw [readInput]
  dsimp only
  rw [if_pos hmulti]
  dsimp only
  rw [hread]
  dsimp only
  refine ⟨rfl, rfl, nofun, fun i hi => ?_, ?_⟩
  · dsimp only
    split
    · exact deinterleaver_before ⟨data, offset⟩ _ _ _ hi
    · rfl
  · dsimp only
    split
    · rw [← hframes]
      exact deinterleaver_planes ⟨data, offset⟩ source' n _
    · rename_i hzero
      have hzero : n = 0 := not_not.mp hzero
      subst hzero
      exact (List.eq_nil_of_length_eq_zero h.enough).symm

theorem readInput_mono {n offset : Nat} {sf : SndFile K} (h : HasFrames n sf)
    (source : Option (Nat → K)) (data : Nat → K) (hmono : sf.file.channels.toNat = 1) :
    InputStored n offset sf source data (readInput n offset sf source data) := by
  obtain ⟨stretch, hread, hframes⟩ := sfReadf_next h fun i => data (offset+i)
  have hnot : ¬ sf.file.channels > 1 := by
    rw [gt_iff_lt, UInt32.lt_iff_toNat_lt, hmono]
    exact Nat.lt_irrefl 1
  rw [readInput]
  dsimp only
  rw [if_neg hnot]
  dsimp only
  rw [readAt, hread]
  dsimp only
  refine ⟨rfl, rfl, fun hnone => hnone, fun i hi => if_pos hi, ?_⟩
  rw [hmono] at hframes
  rw [hmono, ← hframes, planesOf_one]
  refine framesOf_congr fun i _ => ?_
  dsimp only
  rw [if_neg (by omega), Nat.add_sub_cancel_left]

theorem readInput_stored {n offset : Nat} {sf : SndFile K} (h : HasFrames n sf)
    (source : Option (Nat → K)) (data : Nat → K)
    (hsource : source = none → sf.file.channels.toNat = 1) :
    InputStored n offset sf source data (readInput n offset sf source data) := by
  by_cases hmono : sf.file.channels.toNat = 1
  · exact readInput_mono h source data hmono
  · cases source with
    | none => exact absurd (hsource rfl) hmono
    | some source =>
      have hpos := sf.file.channels_pos
      refine readInput_multichannel h source data ?_
      rw [gt_iff_lt, UInt32.lt_iff_toNat_lt]
      change 1 < _
      omega

/-! All input files. -/

def totalChannels (infiles : List (SndFile K)) : Nat :=
  (infiles.map fun sf => sf.file.channels.toNat).sum

theorem readInputs_planes {n : Nat} (infiles : List (SndFile K))
    (hnext : ∀ sf ∈ infiles, HasFrames n sf) (channels : Nat) (source : Option (Nat → K))
    (data : Nat → K) (hsource : source = none → ∀ sf ∈ infiles, sf.file.channels.toNat = 1) :
    ∃ source' data', readInputs n infiles channels source data =
        some (infiles.map (advance n), source', data') ∧
      (source' = none → source = none) ∧ (∀ i < channels*n, data' i = data i) ∧
      planesOf (fun i => data' (channels*n+i)) (totalChannels infiles) n =
        sideBySide n (infiles.map (nextFrames n)) := by
  induction infiles generalizing channels source data with
  | nil => exact ⟨source, data, rfl, id, fun i _ => rfl, planesOf_zero _ _⟩
  | cons sf rest ih =>
    have hr : InputStored n (channels*n) sf source data
        (readInput n (channels*n) sf source data) :=
      readInput_stored (hnext sf List.mem_cons_self) source data
        fun hnone => hsource hnone sf List.mem_cons_self
    generalize hread : readInput n (channels*n) sf source data = r at hr
    obtain ⟨source', data', hrest, hsome, hbefore, hplanes⟩ := ih
      (fun sf' h' => hnext sf' (List.mem_cons_of_mem sf h')) (channels+sf.file.channels.toNat)
      r.sourcedata r.deinterleavedata
      fun hnone sf' h' => hsource (hr.source hnone) sf' (List.mem_cons_of_mem sf h')
    have hsplit : (channels+sf.file.channels.toNat)*n =
        channels*n+sf.file.channels.toNat*n := Nat.add_mul ..
    refine ⟨source', data', ?_, fun hnone => hr.source (hsome hnone), fun i hi => ?_, ?_⟩
    · rw [readInputs, hread]
      dsimp only
      rw [if_neg (not_not_intro hr.readframes.symm), hrest, hr.infile]
      rfl
    · rw [hbefore i (by omega), hr.before i hi]
    · have hfirst : planesOf (fun i => data' (channels*n+i)) sf.file.channels.toNat n =
          nextFrames n sf := by
        rw [← hr.planes]
        exact planesOf_congr fun i hi => hbefore _ (by omega)
      have hothers : planesOf (fun i => data' (channels*n+(sf.file.channels.toNat*n+i)))
          (totalChannels rest) n = sideBySide n (rest.map (nextFrames n)) := by
        rw [← hplanes]
        exact planesOf_congr fun i _ => by rw [hsplit, Nat.add_assoc]
      have htotal : totalChannels (sf :: rest) = sf.file.channels.toNat+totalChannels rest := by
        rw [totalChannels, List.map_cons, List.sum_cons]
        rfl
      rw [htotal, planesOf_add, hfirst, hothers]
      rfl

/-! Blocks. -/

section blocks
variable [Field K] {P : Platform K} {info : Info} {W : Handle K → List (Frame K) → Prop}
  {infiles : List (SoundFile K)}

/-- A frame as the ambisonics samples and the extra ones behind them. -/
def cutAt (ambichannels : UInt32) (fr : List K) : Frame K :=
  (fr.take ambichannels.toNat, fr.drop ambichannels.toNat)

/-- `W h fs` tells that `h` has taken the frames `fs`; a request of floats that can be counted
adds its own. -/
def Records (P : Platform K) (info : Info) (W : Handle K → List (Frame K) → Prop) : Prop :=
  ∀ h fs ambidata otherdata n, W h fs →
    (info.ambichannels.toNat+info.extrachannels.toNat)*n*4 < 2^64 → ∃ h',
    h.writef P .float32 ambidata otherdata n = .ok (.ok n, h') ∧
      W h' (fs ++ (⟨.float32, ambidata, otherdata, n⟩ : Transfer K).sent info.ambichannels.toNat
        info.extrachannels.toNat)

/-- The frames of the input files, side by side. -/
def joined (total : Nat) (infiles : List (SoundFile K)) : List (List K) :=
  sideBySide total (infiles.map SoundFile.frames)

def ambiBlock (info : Info) (frames : Nat) (data : Nat → K) (ambidata : Option (Nat → K)) :
    Option (Nat → K) :=
  ambidata.map fun dest => (interleaver (.start dest) data frames info.ambichannels.toNat).data

def extraBlock (info : Info) (frames : Nat) (data : Nat → K) (extradata : Option (Nat → K)) :
    Option (Nat → K) :=
  extradata.map fun dest => (interleaver (.start dest)
    (fun i => data (frames*info.ambichannels.toNat+i)) frames info.extrachannels.toNat).data

theorem behind_interleaver {buffer : Option (Nat → K)} {source : Nat → K} {frames channels : Nat}
    (hbuffer : buffer = none → channels = 0) :
    framesOf (behind (buffer.map fun dest => (interleaver (.start dest) source frames
      channels).data)) channels frames = planesOf source channels frames := by
  cases buffer with
  | none =>
    rw [hbuffer rfl]
    rfl
  | some dest => exact interleaver_frames dest source frames channels

theorem sent_planes {ambidata extradata : Option (Nat → K)} (data : Nat → K) (n : Nat)
    (hambi : ambidata = none → info.ambichannels.toNat = 0)
    (hextra : extradata = none → info.extrachannels.toNat = 0) :
    (⟨.float32, behind (ambiBlock info n data ambidata),
      behind (extraBlock info n data extradata), n⟩ : Transfer K).sent info.ambichannels.toNat
        info.extrachannels.toNat =
      (planesOf data (info.ambichannels.toNat+info.extrachannels.toNat) n).map
        (cutAt info.ambichannels) := by
  have htake := planesOf_take data info.ambichannels.toNat info.extrachannels.toNat n
  have hdrop := planesOf_drop data info.ambichannels.toNat info.extrachannels.toNat n
  rw [Transfer.sent, ambiBlock, extraBlock, behind_interleaver hambi, behind_interleaver hextra,
    ← htake, Nat.mul_comm n, ← hdrop, List.zip_map']
  rfl

def readUpTo (done : Nat) (infiles : List (SoundFile K)) : List (SndFile K) :=
  infiles.map fun file => advance done (openRead file)

omit [Field K] in
theorem readInputs_block {total done n : Nat} {source : Option (Nat → K)} (data : Nat → K)
    (htotal : ∀ file ∈ infiles, file.frames.length = total)
    (hsource : source = none → ∀ file ∈ infiles, file.channels.toNat = 1)
    (hdone : done+n ≤ total) :
    ∃ source' data', readInputs n (readUpTo done infiles) 0 source data =
        some (readUpTo (done+n) infiles, source', data') ∧ (source' = none → source = none) ∧
      planesOf data' (infiles.map fun file => file.channels.toNat).sum n =
        ((joined total infiles).drop done).take n := by
  have hnext : ∀ sf ∈ readUpTo done infiles, HasFrames n sf := by
    intro sf hsf
    obtain ⟨file, hfile, rfl⟩ := List.mem_map.mp hsf
    refine ⟨rfl, ?_⟩
    change ((file.frames.drop (0+done)).take n).length = n
    rw [List.length_take, List.length_drop, htotal file hfile]
    omega
  have hmono (hnone : source = none) : ∀ sf ∈ readUpTo done infiles,
      sf.file.channels.toNat = 1 := by
    intro sf hsf
    obtain ⟨file, hfile, rfl⟩ := List.mem_map.mp hsf
    exact hsource hnone file hfile
  obtain ⟨source', data', hread, hsome, -, hplanes⟩ :=
    readInputs_planes _ hnext 0 source data hmono
  have hadvance : (readUpTo done infiles).map (advance n) = readUpTo (done+n) infiles := by
    rw [readUpTo, List.map_map]
    exact List.map_congr_left fun file _ => advance_advance done n (openRead file)
  have hchannels : totalChannels (readUpTo done infiles) =
      (infiles.map fun file => file.channels.toNat).sum := by
    rw [totalChannels, readUpTo, List.map_map]
    rfl
  have hblocks : (readUpTo done infiles).map (nextFrames n) =
      (infiles.map SoundFile.frames).map fun frames => (frames.drop done).take n := by
    rw [readUpTo, List.map_map, List.map_map]
    refine List.map_congr_left fun file _ => ?_
    change (file.frames.drop (0+done)).take n = (file.frames.drop done).take n
    rw [Nat.zero_add]
  rw [hchannels, hblocks, sideBySide_block done n hdone] at hplanes
  simp only [Nat.zero_mul, Nat.zero_add] at hplanes
  exact ⟨source', data', by rw [hread, hadvance], hsome, hplanes⟩

/-- The state of `ai_copy` when `done` frames are copied. -/
structure Copied (W : Handle K → List (Frame K) → Prop) (info : Info)
    (infiles : List (SoundFile K)) (total done : Nat) (s : Copying K) : Prop where
  inhandles : s.inhandles = readUpTo done infiles
  ambidata : s.ambidata = none → info.ambichannels.toNat = 0
  extradata : s.extradata = none → info.extrachannels.toNat = 0
  source : s.source = none → ∀ file ∈ infiles, file.channels.toNat = 1
  written : W s.outhandle (((joined total infiles).take done).map (cutAt info.ambichannels))

theorem aiCopyBlock_copied {total done n : Nat} {s : Copying K} (hW : Records P info W)
    (htotal : ∀ file ∈ infiles, file.frames.length = total)
    (hwidth : (infiles.map fun file => file.channels.toNat).sum =
      info.ambichannels.toNat+info.extrachannels.toNat)
    (hn : (info.ambichannels.toNat+info.extrachannels.toNat)*n*4 < 2^64)
    (hdone : done+n ≤ total) (hs : Copied W info infiles total done s) :
    ∃ s', aiCopyBlock P info n s = .ok (some s') ∧ Copied W info infiles total (done+n) s' := by
  obtain ⟨source, data, hread, hsome, hplanes⟩ :=
    readInputs_block s.interleavebuffer htotal hs.source hdone
  obtain ⟨h', hw, hwritten⟩ := hW s.outhandle _ (behind (ambiBlock info n data s.ambidata))
    (behind (extraBlock info n data s.extradata)) n hs.written hn
  rw [sent_planes data n hs.ambidata hs.extradata, ← hwidth, hplanes, ← List.map_append,
    ← List.take_add] at hwritten
  refine ⟨⟨readUpTo (done+n) infiles, h', ambiBlock info n data s.ambidata,
    extraBlock info n data s.extradata, source, data⟩, ?_, rfl, ?_, ?_,
    fun hnone => hs.source (hsome hnone), hwritten⟩
  · rw [aiCopyBlock, hs.inhandles, hread]
    change (s.outhandle.writef P .float32 (behind (ambiBlock info n data s.ambidata))
      (behind (extraBlock info n data s.extradata)) n >>= _) = _
    rw [hw, ok_bind]
    dsimp only
    rw [if_neg (not_not_intro rfl)]
    rfl
  · exact fun hnone => hs.ambidata (Option.map_eq_none_iff.mp hnone)
  · exact fun hnone => hs.extradata (Option.map_eq_none_iff.mp hnone)

/-! The whole run. -/

omit [Field K] in
theorem maxChannels_ge (infiles : List (SoundFile K)) (m : Nat) :
    m ≤ infiles.foldl (fun maxchannels file =>
        if file.channels.toNat > maxchannels then file.channels.toNat else maxchannels) m ∧
      ∀ file ∈ infiles, file.channels.toNat ≤ infiles.foldl (fun maxchannels file =>
        if file.channels.toNat > maxchannels then file.channels.toNat else maxchannels) m := by
  induction infiles generalizing m with
  | nil => exact ⟨Nat.le_refl m, nofun⟩
  | cons file rest ih =>
    rw [List.foldl_cons]
    obtain ⟨hm, hrest⟩ := ih (if file.channels.toNat > m then file.channels.toNat else m)
    have hboth : m ≤ (if file.channels.toNat > m then file.channels.toNat else m) ∧
        file.channels.toNat ≤ (if file.channels.toNat > m then file.channels.toNat else m) := by
      split <;> omega
    refine ⟨hboth.1.trans hm, fun file' h' => ?_⟩
    cases List.mem_cons.mp h' with
    | inl heq => exact heq ▸ hboth.2.trans hm
    | inr hmem => exact hrest file' hmem

/-- All frames of the inputs are written, whatever the block size. -/
theorem aiCopy_copied {total : Nat} {ai : Ai K} {outhandle : Handle K} (fresh : Nat → K)
    (hW : Records P ai.info W) (hframes : ai.frames = total)
    (htotal : ∀ file ∈ ai.infiles, file.frames.length = total)
    (hwidth : (ai.infiles.map fun file => file.channels.toNat).sum =
      ai.info.ambichannels.toNat+ai.info.extrachannels.toNat)
    (hblock : (ai.info.ambichannels.toNat+ai.info.extrachannels.toNat)*
      (copySize ai.blocksize).val*4 < 2^64) (hstart : W outhandle []) :
    ∃ s, aiCopy P fresh ai outhandle = .ok (some s) ∧
      W s.outhandle ((joined total ai.infiles).map (cutAt ai.info.ambichannels)) := by
  have hnone (n : UInt32) (hbuffer : (if n > 0 then some fresh else none) = none) :
      n.toNat = 0 := by
    by_contra hne
    have hpos : 0 < n := by
      rw [UInt32.lt_iff_toNat_lt]
      exact Nat.pos_of_ne_zero hne
    rw [if_pos hpos] at hbuffer
    cases hbuffer
  have hfirst : Copied W ai.info ai.infiles total 0 {
      inhandles := ai.infiles.map openRead
      outhandle := outhandle
      ambidata := if ai.info.ambichannels > 0 then some fresh else none
      extradata := if ai.info.extrachannels > 0 then some fresh else none
      source := if maxChannels ai.infiles > 1 then some fresh else none
      interleavebuffer := fresh } := by
    refine ⟨rfl, hnone _, hnone _, fun hbuffer file hfile => ?_, hstart⟩
    have hmax : ¬ maxChannels ai.infiles > 1 := by
      intro hmax
      dsimp only at hbuffer
      rw [if_pos hmax] at hbuffer
      cases hbuffer
    have hle : file.channels.toNat ≤ maxChannels ai.infiles :=
      (maxChannels_ge ai.infiles 0).2 file hfile
    have hpos := file.channels_pos
    omega
  obtain ⟨s, hrun, hs⟩ := inBlocks_rule (Copied W ai.info ai.infiles total)
    (copySize ai.blocksize) hfirst fun done n t hn hdone ht =>
      aiCopyBlock_copied hW htotal hwidth (lt_of_le_of_lt (by gcongr) hblock) hdone ht
  refine ⟨s, by rw [aiCopy, hframes, hrun], ?_⟩
  have hlength : (joined total ai.infiles).length = total := by
    refine sideBySide_length fun frames hmem => ?_
    obtain ⟨file, hfile, rfl⟩ := List.mem_map.mp hmem
    exact htotal file hfile
  have hwritten := hs.written
  rwa [List.take_of_length_le hlength.le] at hwritten

end blocks

end Ambix.Interleave
