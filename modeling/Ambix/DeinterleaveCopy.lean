import Ambix.Deinterleave
import Ambix.Views

/-! What ambix-deinterleave stores: the channels of the decoded frames, one file each,
whatever the block size. -/
namespace Ambix.Deinterleave
open Machine
open Interleave (behind copySize)
variable {K : Type}

/-! The passes over a block. -/

theorem storeRow_eq (g : Nat → K) (n : Nat) (d : Cursor K) :
    loop (fun i dst => Function.update dst (d.count+i) (g i)) n d.data =
      (d.putAll ((List.range n).map g)).data := by
  refine loop_eq (fun i => (d.putAll ((List.range i).map g)).data) rfl fun i _ => ?_
  have hcount : (d.putAll ((List.range i).map g)).count = d.count+i := by
    rw [Cursor.putAll_end, List.length_map, List.length_range]
  rw [List.range_succ, List.map_append, Cursor.putAll_append, ← hcount]
  rfl

theorem matrixMultiplyFloat32_frames [Semiring K] (dest : Nat → K) (matrix : AmbixMatrix K)
    (source : Nat → K) (frames : Nat) :
    framesOf (matrixMultiplyFloat32 dest matrix source frames) matrix.rows.toNat frames =
      (framesOf source matrix.cols.toNat frames).map (mix id id matrix) := by
  let decoded (f : Nat) : List K :=
    (List.range matrix.rows.toNat).map
      (matrixChannel (.exact id id) matrix fun inchan => source (f*matrix.cols.toNat+inchan))
  have hlength : ∀ f, (decoded f).length = matrix.rows.toNat := fun f => by simp [decoded]
  have hstored : matrixMultiplyFloat32 dest matrix source frames =
      ((Cursor.start dest).putAll ((List.range frames).flatMap decoded)).data := by
    refine loop_eq (fun n => ((Cursor.start dest).putAll ((List.range n).flatMap decoded)).data) rfl
      fun f _ => ?_
    have hcount : ((Cursor.start dest).putAll ((List.range f).flatMap decoded)).count =
        f*matrix.rows.toNat := by
      rw [Cursor.putAll_end, flatMap_length decoded _ f fun i _ => hlength i]
      exact Nat.zero_add _
    rw [← hcount, storeRow_eq, Cursor.putAll_flatMap_succ]
  have hframes : (framesOf source matrix.cols.toNat frames).map (mix id id matrix) =
      (List.range frames).map decoded := by
    rw [framesOf, List.map_map]
    refine List.map_congr_left fun f _ => ?_
    change mix id id matrix (window source (matrix.cols.toNat*f) matrix.cols.toNat) = _
    rw [← matrixChannels_eq id id matrix source _ _ (Nat.le_refl _), Nat.mul_comm]
  have hwidth : ∀ fr ∈ (List.range frames).map decoded, fr.length = matrix.rows.toNat := by
    intro fr hfr
    obtain ⟨f, -, rfl⟩ := List.mem_map.mp hfr
    exact hlength f
  have hread := framesOf_written hwidth
    (Cursor.start_putAll_items dest ((List.range frames).map decoded).flatten)
  rw [List.length_map, List.length_range, ← List.flatMap_def, ← hstored] at hread
  rw [hread, hframes]

theorem deinterleaver_eq (dest source : Nat → K) (frames channels : Nat) :
    deinterleaver dest source frames channels =
      loop (fun frame d => loop (fun channel d => Function.update d (channel*frames+frame)
        (source (frame*channels+channel))) channels d) frames dest := by
  have hframe (frame n : Nat) (d : Nat → K) :
      loop (fun channel (s : (Nat → K) × Nat) =>
        (Function.update s.1 (channel*frames+frame) (source s.2), s.2+1)) n (d, frame*channels) =
      (loop (fun channel d => Function.update d (channel*frames+frame)
        (source (frame*channels+channel))) n d, frame*channels+n) := by
    induction n with
    | zero => rfl
    | succ n ih => rw [loop, ih, loop]; rfl
  refine congrArg Prod.fst (loop_eq (fun f => (loop (fun frame d => loop (fun channel d =>
    Function.update d (channel*frames+frame) (source (frame*channels+channel))) channels d) f dest,
    f*channels)) (by simp [loop]) fun f _ => ?_)
  rw [hframe, loop, Nat.succ_mul]

theorem deinterleaver_planes (dest source : Nat → K) (frames channels : Nat) :
    planesOf (deinterleaver dest source frames channels) channels frames =
      framesOf source channels frames := by
  refine List.map_congr_left fun f hf => List.map_congr_left fun c hc => ?_
  have hf := List.mem_range.mp hf
  have hc := List.mem_range.mp hc
  have hstored := loop_places (fun frame channel => channel*frames+frame)
    (fun frame channel => source (frame*channels+channel)) dest hf hc
    fun f' c' hf' _ h => (plane_injective hf hf' h).symm
  rw [← deinterleaver_eq, Nat.mul_comm f] at hstored
  exact hstored

/-! Mono files. -/

structure Holds (sf : SndFile K) (fs : List (List K)) : Prop where
  writes : sf.mode.canWrite = true
  channels : sf.file.channels = 1
  frames : sf.file.frames = fs
  position : sf.position = fs.length

theorem sfWritef_holds {sf : SndFile K} {fs : List (List K)} (h : Holds sf fs) (data : Nat → K)
    (n : Nat) : ∃ sf', sfWritef sf data n = (n, sf') ∧ Holds sf' (fs ++ framesOf data 1 n) := by
  refine ⟨_, sfWritef_writes h.writes data n, h.writes, h.channels, ?_, ?_⟩
  · change overwritten sf.file.frames sf.position (framesOf data sf.file.channels.toNat n) = _
    rw [h.channels, overwritten_end (by rw [h.position, h.frames]), h.frames]
    rfl
  · rw [List.length_append, framesOf_length, ← h.position]

def Hold (total : Nat) (F : Nat → List (List K)) (outhandles : Outhandles K) : Prop :=
  ∀ j < total, ∃ sf, outhandles j = some sf ∧ Holds sf (F j)

theorem writeChannel_holds {total channel : Nat} {F : Nat → List (List K)}
    {outhandles : Outhandles K} (h : Hold total F outhandles) (hle : channel < total)
    (data : Nat → K) (n : Nat) : ∃ outhandles', writeChannel n data channel outhandles =
        some outhandles' ∧
      Hold total (Function.update F channel (F channel ++ framesOf data 1 n)) outhandles' := by
  obtain ⟨sf, hsf, hholds⟩ := h channel hle
  obtain ⟨sf', hw, hholds'⟩ := sfWritef_holds hholds data n
  refine ⟨Function.update outhandles channel (some sf'), ?_, fun j hj => ?_⟩
  · rw [writeChannel, hsf]
    dsimp only
    rw [hw]
    exact if_neg (not_not_intro rfl)
  · by_cases hjc : j = channel
    · subst hjc
      rw [Function.update_self, Function.update_self]
      exact ⟨sf', rfl, hholds'⟩
    · rw [Function.update_of_ne hjc, Function.update_of_ne hjc]
      exact h j hj

theorem writeChannels_holds {total channel count : Nat} {F : Nat → List (List K)}
    {outhandles : Outhandles K} (h : Hold total F outhandles) (hle : channel+count ≤ total)
    (buffer : Nat → K) (n : Nat) : ∃ outhandles',
      writeChannels n buffer channel count outhandles = some outhandles' ∧
      Hold total (fun j => if channel ≤ j ∧ j < channel+count then
        F j ++ channelOf (j-channel) (planesOf buffer count n) else F j) outhandles' := by
  refine tryLoop_rule (fun c outs => Hold total (fun j => if channel ≤ j ∧ j < channel+c then
    F j ++ channelOf (j-channel) (planesOf buffer count n) else F j) outs) ?_ ?_
  · intro j hj
    dsimp only
    rw [if_neg (by omega)]
    exact h j hj
  · intro c outs hc houts
    obtain ⟨outs', hw, houts'⟩ := writeChannel_holds houts (show channel+c < total by omega)
      (fun i => buffer (c*n+i)) n
    refine ⟨outs', hw, fun j hj => ?_⟩
    obtain ⟨sf, hsf, hsf'⟩ := houts' j hj
    refine ⟨sf, hsf, ?_⟩
    dsimp only
    by_cases hjc : j = channel+c
    · subst hjc
      rw [Function.update_self, if_neg (by omega)] at hsf'
      rw [if_pos (by omega), Nat.add_sub_cancel_left, channelOf_planesOf buffer n hc]
      exact hsf'
    · rw [Function.update_of_ne hjc] at hsf'
      have hiff : (channel ≤ j ∧ j < channel+(c+1)) ↔ channel ≤ j ∧ j < channel+c := by omega
      rw [if_congr hiff rfl rfl]
      exact hsf'

theorem openChannels_holds {places : Nat → Disk K} (hplaces : ∀ n, (places n).accepts 1 = true)
    {channel : Nat} {outhandles : Outhandles K} (h : Hold channel (fun _ => []) outhandles)
    (count : Nat) : ∃ outhandles', openChannels places channel count outhandles =
      some outhandles' ∧ Hold (channel+count) (fun _ => []) outhandles' := by
  refine tryLoop_rule (fun c outs => Hold (channel+c) (fun _ => []) outs) h
    fun c outs _ houts => ?_
  have hopen : sfOpen (places (channel+c)) .write 1 = some ⟨newFile (places (channel+c)) 1
      (hplaces _), .write, 0, (places (channel+c)).chunkOk, 0⟩ := dif_pos (hplaces _)
  rw [hopen]
  refine ⟨_, rfl, fun j hj => ?_⟩
  dsimp only
  by_cases hjc : j = channel+c
  · subst hjc
    rw [Function.update_self]
    exact ⟨_, rfl, rfl, rfl, rfl, rfl⟩
  · rw [Function.update_of_ne hjc]
    exact houts j (by omega)

/-! Blocks. -/

section blocks
variable [Field K] {P : Platform K} {M : AmbixMatrix K} {extra n : Nat}

/-- What the outputs get of a frame of the file. -/
def decode (M : AmbixMatrix K) (fr : List K) : List K := mix id id M fr ++ fr.drop M.cols.toNat

theorem channelOf_decode_ambi {r : Nat} (hr : r < M.rows.toNat) (frames : List (List K)) :
    channelOf r (frames.map (decode M)) = channelOf r (frames.map (mix id id M)) := by
  rw [channelOf, channelOf, List.map_map, List.map_map]
  refine List.map_congr_left fun fr _ => ?_
  change (mix id id M fr ++ _)[r]?.toList = _
  rw [List.getElem?_append_left (by rw [mix_length]; exact hr)]
  rfl

theorem channelOf_decode_extra (k : Nat) (frames : List (List K)) :
    channelOf (M.rows.toNat+k) (frames.map (decode M)) =
      channelOf k (frames.map (List.drop M.cols.toNat)) := by
  rw [channelOf, channelOf, List.map_map, List.map_map]
  refine List.map_congr_left fun fr _ => ?_
  change (mix id id M fr ++ _)[M.rows.toNat+k]?.toList = _
  rw [List.getElem?_append_right (by rw [mix_length]; omega), mix_length, Nat.add_sub_cancel_left]
  rfl

def heldAt (M : AmbixMatrix K) (frames block : List (List K)) (stored j : Nat) : List (List K) :=
  if j < stored then channelOf j ((frames ++ block).map (decode M))
  else channelOf j (frames.map (decode M))

theorem channelOf_block (j : Nat) (frames block : List (List K)) :
    channelOf j ((frames ++ block).map (decode M)) =
      channelOf j (frames.map (decode M)) ++ channelOf j (block.map (decode M)) := by
  rw [List.map_append, channelOf, List.map_append]
  rfl

theorem storeAmbi_holds {frames block : List (List K)} {s : Copying K}
    {rawdata cookeddata : Nat → K}
    (hraw : s.rawdata = some rawdata) (hcooked : s.cookeddata = some cookeddata)
    (hblock : framesOf rawdata M.cols.toNat n = block.map (List.take M.cols.toNat))
    (h : Hold (M.rows.toNat+extra) (heldAt M frames block 0) s.outhandles) :
    ∃ outhandles cooked buf, storeAmbi M n s = some (M.rows.toNat, { s with
        outhandles := outhandles
        cookeddata := some cooked
        deinterleavebuf := buf }) ∧
      Hold (M.rows.toNat+extra) (heldAt M frames block M.rows.toNat) outhandles := by
  let cooked := matrixMultiplyFloat32 cookeddata M rawdata n
  let buf := deinterleaver s.deinterleavebuf cooked n M.rows.toNat
  obtain ⟨outhandles, hw, hholds⟩ := writeChannels_holds h
    (show 0+M.rows.toNat ≤ M.rows.toNat+extra by omega) buf n
  refine ⟨outhandles, cooked, buf, ?_, fun j hj => ?_⟩
  · rw [storeAmbi, hraw, hcooked]
    dsimp only
    rw [hw]
    rfl
  · obtain ⟨sf, hsf, hsf'⟩ := hholds j hj
    refine ⟨sf, hsf, ?_⟩
    rw [deinterleaver_planes, matrixMultiplyFloat32_frames, hblock, List.map_map] at hsf'
    have hmix : mix id id M ∘ List.take M.cols.toNat = mix id id M := funext (mix_take M)
    rw [hmix] at hsf'
    dsimp only at hsf'
    by_cases hjr : j < M.rows.toNat
    · rw [if_pos (by omega), heldAt, if_neg (by omega), Nat.sub_zero] at hsf'
      rwa [heldAt, if_pos hjr, channelOf_block, channelOf_decode_ambi hjr block]
    · rw [if_neg (by omega), heldAt, if_neg (by omega)] at hsf'
      rwa [heldAt, if_neg hjr]

theorem storeExtra_holds {frames block : List (List K)} {s : Copying K}
    (hbuffer : s.extradata = none → extra = 0)
    (hblock : framesOf (behind s.extradata) extra n = block.map (List.drop M.cols.toNat))
    (h : Hold (M.rows.toNat+extra) (heldAt M frames block M.rows.toNat) s.outhandles) :
    ∃ outhandles buf, storeExtra extra M.rows.toNat n s = some { s with
        outhandles := outhandles
        deinterleavebuf := buf } ∧
      Hold (M.rows.toNat+extra) (heldAt M frames block (M.rows.toNat+extra)) outhandles := by
  by_cases hextradata : s.extradata = none
  · have hzero := hbuffer hextradata
    subst hzero
    have hkeep : storeExtra 0 M.rows.toNat n s = some s := by
      rw [storeExtra, hextradata]
    exact ⟨s.outhandles, s.deinterleavebuf, hkeep, h⟩
  · obtain ⟨extradata, hextradata⟩ := Option.ne_none_iff_exists'.mp hextradata
    rw [hextradata] at hblock
    change framesOf extradata extra n = _ at hblock
    let buf := deinterleaver s.deinterleavebuf extradata n extra
    obtain ⟨outhandles, hw, hholds⟩ := writeChannels_holds h (Nat.le_refl _) buf n
    refine ⟨outhandles, buf, ?_, fun j hj => ?_⟩
    · rw [storeExtra, hextradata]
      dsimp only
      rw [hw]
      rfl
    · obtain ⟨sf, hsf, hsf'⟩ := hholds j hj
      refine ⟨sf, hsf, ?_⟩
      rw [deinterleaver_planes, hblock] at hsf'
      dsimp only at hsf'
      by_cases hjr : j < M.rows.toNat
      · rw [if_neg (by omega), heldAt, if_pos hjr] at hsf'
        rwa [heldAt, if_pos hj]
      · obtain ⟨k, rfl⟩ := Nat.exists_eq_add_of_le (Nat.le_of_not_lt hjr)
        rw [if_pos ⟨Nat.le_add_right _ _, hj⟩, heldAt, if_neg hjr, Nat.add_sub_cancel_left,
          ← channelOf_decode_extra] at hsf'
        rwa [heldAt, if_pos hj, channelOf_block]

omit [Field K] in
theorem split_frames {split : Split K} {ambi extra n : Nat} {frames : List (List K)}
    {u v : List K → List K}
    (h : split.frames ambi extra n = frames.map fun fr => (u fr, v fr)) :
    framesOf split.ambi.data ambi n = frames.map u ∧
      framesOf split.other.data extra n = frames.map v := by
  have hfirst := congrArg (List.map Prod.fst) h
  have hsecond := congrArg (List.map Prod.snd) h
  rw [Split.frames, List.map_fst_zip (by rw [framesOf_length, framesOf_length]), List.map_map]
    at hfirst
  rw [Split.frames, List.map_snd_zip (by rw [framesOf_length, framesOf_length]), List.map_map]
    at hsecond
  exact ⟨hfirst, hsecond⟩

/-- The state of `ai_copy` when `done` of the frames in front of it are copied. -/
structure Copied (M : AmbixMatrix K) (channels : Nat) (hle : M.cols.toNat ≤ channels) (size : Nat)
    (frames : List (List K)) (done : Nat) (s : Copying K) : Prop where
  presents : Presents s.inhandle (rawView K hle)
  counted : Counted s.inhandle
  block : s.inhandle.bytes size 4 < 2^64
  remaining : s.inhandle.remaining = frames.drop done
  rawdata : s.rawdata ≠ none
  cookeddata : s.cookeddata ≠ none
  extradata : s.extradata = none → channels-M.cols.toNat = 0
  outhandles : Hold (M.rows.toNat+(channels-M.cols.toNat))
    (fun j => channelOf j ((frames.take done).map (decode M))) s.outhandles

theorem readBlock_copied {channels done : Nat} {hle : M.cols.toNat ≤ channels}
    {size : Nat} {frames : List (List K)} {s : Copying K} (hgrants : ∀ size, P.grants size = true)
    (hn : n ≤ size) (hdone : done+n ≤ frames.length)
    (hs : Copied M channels hle size frames done s) :
    ∃ split h', s.inhandle.readf P .float32 (behind s.rawdata) (behind s.extradata) n =
        .ok (.ok (n, split), h') ∧
      Presents h' (rawView K hle) ∧ h'.toLayout = s.inhandle.toLayout ∧ Counted h' ∧
      h'.remaining = s.inhandle.remaining.drop n ∧
      framesOf split.ambi.data M.cols.toNat n =
        (s.inhandle.remaining.take n).map (List.take M.cols.toNat) ∧
      framesOf (behind (s.extradata.map fun _ => split.other.data)) (channels-M.cols.toNat) n =
        (s.inhandle.remaining.take n).map (List.drop M.cols.toNat) := by
  obtain ⟨split, h', hr⟩ := readf_left hgrants hs.counted hs.presents.reads .float32
    ((bytes_mono hn 4).trans_lt hs.block) (behind s.rawdata) (behind s.extradata)
  obtain ⟨hframes, hpresents, -, hremaining⟩ := readf_presents hs.presents hr
  have hlength : (s.inhandle.remaining.take n).length = n := by
    rw [hs.remaining, List.length_take, List.length_drop]
    omega
  rw [hlength] at hr hframes
  obtain ⟨hambi, hother⟩ := split_frames hframes
  have hlayout := readf_layout hr
  refine ⟨split, h', hr, hpresents, hlayout, hs.counted.of_same hlayout (readf_sameFile hr),
    hremaining, hambi, ?_⟩
  cases hextradata : s.extradata with
  | none =>
    have hzero := hs.extradata hextradata
    rw [← hother]
    change framesOf _ (channels-M.cols.toNat) n = framesOf _ (channels-M.cols.toNat) n
    rw [hzero]
    rfl
  | some extradata => exact hother

theorem aiCopyBlock_copied {channels done : Nat} {hle : M.cols.toNat ≤ channels} {info : Info}
    {size : Nat} {frames : List (List K)} {s : Copying K} (hgrants : ∀ size, P.grants size = true)
    (hinfo : info.extrachannels.toNat = channels-M.cols.toNat) (hn : n ≤ size)
    (hdone : done+n ≤ frames.length) (hs : Copied M channels hle size frames done s) :
    ∃ s', aiCopyBlock P info M n s = .ok (some s') ∧
      Copied M channels hle size frames (done+n) s' := by
  obtain ⟨split, h', hr, hpresents, hlayout, hcounted, hremaining, hambi, hextra⟩ :=
    readBlock_copied hgrants hn hdone hs
  obtain ⟨rawdata, hraw⟩ := Option.ne_none_iff_exists'.mp hs.rawdata
  obtain ⟨cookeddata, hcooked⟩ := Option.ne_none_iff_exists'.mp hs.cookeddata
  let read : Copying K := { s with
    inhandle := h'
    rawdata := s.rawdata.map fun _ => split.ambi.data
    extradata := s.extradata.map fun _ => split.other.data }
  have hfirst : read.rawdata = some split.ambi.data := by
    change s.rawdata.map _ = _
    rw [hraw]
    rfl
  have hbuffer : read.extradata = none → channels-M.cols.toNat = 0 := fun hnone =>
    hs.extradata (Option.map_eq_none_iff.mp hnone)
  obtain ⟨outs, cooked, buf, hstore, hhold⟩ := storeAmbi_holds (s := read) hfirst hcooked hambi
    hs.outhandles
  obtain ⟨outs', buf', hstore', hhold'⟩ := storeExtra_holds (s := { read with
    outhandles := outs
    cookeddata := some cooked
    deinterleavebuf := buf }) hbuffer hextra hhold
  refine ⟨{ read with
    outhandles := outs'
    cookeddata := some cooked
    deinterleavebuf := buf' }, ?_, hpresents, hcounted, ?_, ?_, ?_, nofun, hbuffer, ?_⟩
  · have hrun : (storeAmbi M n read >>= fun r =>
        storeExtra (channels-M.cols.toNat) r.1 n r.2) = some { read with
          outhandles := outs'
          cookeddata := some cooked
          deinterleavebuf := buf' } := by
      rw [hstore]
      exact hstore'
    rw [aiCopyBlock, hr, ok_bind]
    dsimp only
    rw [if_neg (not_not_intro rfl), hinfo]
    exact congrArg Except.ok hrun
  · change h'.bytes size 4 < 2^64
    rw [hlayout]
    exact hs.block
  · rw [← List.drop_drop, ← hs.remaining]
    exact hremaining
  · change read.rawdata ≠ none
    rw [hfirst]
    nofun
  · intro j hj
    obtain ⟨sf, hsf, hsf'⟩ := hhold' j hj
    refine ⟨sf, hsf, ?_⟩
    rw [heldAt, if_pos hj, hs.remaining, ← List.take_add] at hsf'
    exact hsf'

/-! The whole run. -/

omit [Field K] in
theorem outputs_frames {total : Nat} {F : Nat → List (List K)} {outhandles : Outhandles K}
    (h : Hold total F outhandles) (first count : Nat) (hle : first+count ≤ total) :
    ((List.range count).filterMap fun chan => (outhandles (first+chan)).map SndFile.file).map
      SoundFile.frames = (List.range count).map fun chan => F (first+chan) := by
  rw [List.map_filterMap, ← List.filterMap_eq_map]
  refine List.filterMap_congr fun chan hchan => ?_
  have hlt := List.mem_range.mp hchan
  obtain ⟨sf, hsf, hholds⟩ := h (first+chan) (by omega)
  rw [hsf]
  exact congrArg some hholds.frames

omit [Field K] in
theorem outputs_mono {total : Nat} {F : Nat → List (List K)} {outhandles : Outhandles K}
    (h : Hold total F outhandles) (ambichannels extrachannels : Nat)
    (hle : ambichannels+extrachannels ≤ total) :
    ∀ file ∈ (outputs ambichannels extrachannels outhandles).ambi ++
      (outputs ambichannels extrachannels outhandles).extra, file.channels = 1 := by
  have hfile (j : Nat) (hj : j < total) {file : SoundFile K}
      (hfile : (outhandles j).map SndFile.file = some file) : file.channels = 1 := by
    obtain ⟨sf, hsf, hholds⟩ := h j hj
    rw [hsf] at hfile
    exact Option.some.inj hfile ▸ hholds.channels
  intro file hmem
  cases List.mem_append.mp hmem with
  | inl hambi =>
    obtain ⟨chan, hchan, hsome⟩ := List.mem_filterMap.mp hambi
    have hlt := List.mem_range.mp hchan
    exact hfile chan (by omega) hsome
  | inr hextra =>
    obtain ⟨chan, hchan, hsome⟩ := List.mem_filterMap.mp hextra
    have hlt := List.mem_range.mp hchan
    exact hfile (ambichannels+chan) (by omega) hsome

/-- `g` is the EXTENDED view, with the matrix `M`, of what is found at `place`. -/
structure Plays (P : Platform K) (place : Disk K) (M : AmbixMatrix K) (g : Handle K) : Prop where
  opened : ambixOpen P place .read ⟨.extended, 0, 0⟩ = .ok (some g)
  position : g.sf.position = 0
  info : g.info = ⟨.extended, g.sf.file.channels-M.cols, M.cols⟩
  matrix : g.getAdaptormatrix = some M
  cols : M.cols ≠ 0
  rows : M.rows.toNat < 2^31
  reduced : M.cols ≤ g.sf.file.channels
  presents : Presents g (rawView K (UInt32.le_iff_toNat_le.mp reduced))
  counted : Counted g
  width : g.bufferChannels = g.sf.file.channels.toNat

section plays
variable {place : Disk K} {g : Handle K} {places : Nat → Disk K}

def settled (M : AmbixMatrix K) (g : Handle K) (blocksize : UInt32) (outhandles : Outhandles K) :
    Ai K := ⟨g.info, g.sf.file.frames.length, g, M, outhandles, blocksize⟩

theorem Plays.ambichannels (hg : Plays P place M g) : g.info.ambichannels ≠ 0 := by
  rw [hg.info]
  exact hg.cols

theorem Plays.extrachannels (hg : Plays P place M g) :
    g.info.extrachannels.toNat = g.sf.file.channels.toNat-M.cols.toNat := by
  rw [hg.info]
  exact UInt32.toNat_sub_of_le _ _ hg.reduced

theorem Plays.counts (hg : Plays P place M g) : int32Count M.rows = M.rows.toNat ∧
    int32Count g.info.extrachannels = g.sf.file.channels.toNat-M.cols.toNat := by
  have hint := g.sf.file.channels_int
  have hextra := hg.extrachannels
  exact ⟨int32Count_eq hg.rows, by rw [int32Count_eq (by omega), hextra]⟩

theorem Plays.openInput (hg : Plays P place M g) (blocksize : UInt32) :
    aiOpenInput P place blocksize = .ok (some (settled M g blocksize fun _ => none)) := by
  rw [aiOpenInput, hg.opened, ok_bind]
  dsimp only
  rw [if_neg fun hno => hg.ambichannels (UInt32.lt_one_iff.mp hno.1),
    if_pos (UInt32.pos_iff_ne_zero.mpr hg.ambichannels), hg.matrix, Option.map_some, matrixCopy_eq]
  rfl

theorem Plays.openOutput (hg : Plays P place M g) (hplaces : ∀ n, (places n).accepts 1 = true)
    (blocksize : UInt32) : ∃ outhandles,
      aiOpenOutput places (settled M g blocksize fun _ => none) =
        some (settled M g blocksize outhandles) ∧
      Hold (M.rows.toNat+(g.sf.file.channels.toNat-M.cols.toNat)) (fun _ => []) outhandles := by
  obtain ⟨hambi, hextra⟩ := hg.counts
  have hnone : Hold 0 (fun _ => []) (fun _ => none : Outhandles K) := nofun
  obtain ⟨outs, hopen, hhold⟩ := openChannels_holds hplaces hnone (int32Count M.rows)
  rw [Nat.zero_add, hambi] at hhold
  obtain ⟨outs', hopen', hhold'⟩ := openChannels_holds hplaces hhold
    (int32Count g.info.extrachannels)
  rw [hextra] at hhold'
  refine ⟨outs', ?_, hhold'⟩
  change (openChannels places 0 (int32Count M.rows) fun _ => none) >>= (fun outhandles =>
    openChannels places (int32Count M.rows) (int32Count g.info.extrachannels) outhandles >>=
      fun outhandles => some (settled M g blocksize outhandles)) = _
  rw [hopen]
  change (openChannels places (int32Count M.rows) (int32Count g.info.extrachannels) outs >>=
      fun outhandles => some (settled M g blocksize outhandles)) = _
  rw [hambi, hopen']
  rfl

theorem Plays.copy (hg : Plays P place M g) (hgrants : ∀ size, P.grants size = true)
    (fresh : Nat → K) (blocksize : UInt32)
    (hblock : g.sf.file.channels.toNat*(copySize blocksize).val*4 < 2^64)
    {outhandles : Outhandles K}
    (hhold : Hold (M.rows.toNat+(g.sf.file.channels.toNat-M.cols.toNat)) (fun _ => [])
      outhandles) : ∃ s, aiCopy P fresh (settled M g blocksize outhandles) = .ok (some s) ∧
      Copied M g.sf.file.channels.toNat (UInt32.le_iff_toNat_le.mp hg.reduced)
        (copySize blocksize).val g.sf.file.frames g.sf.file.frames.length s := by
  have hfirst : Copied M g.sf.file.channels.toNat (UInt32.le_iff_toNat_le.mp hg.reduced)
      (copySize blocksize).val g.sf.file.frames 0 {
        inhandle := g
        outhandles := outhandles
        rawdata := if g.info.ambichannels ≠ 0 then some fresh else none
        cookeddata := if g.info.ambichannels ≠ 0 then some fresh else none
        extradata := if g.info.extrachannels ≠ 0 then some fresh else none
        deinterleavebuf := fresh } := by
    refine ⟨hg.presents, hg.counted, ?_, ?_, ?_, ?_, fun hbuffer => ?_, hhold⟩
    · rw [← hg.width] at hblock
      exact hblock
    · rw [Handle.remaining, hg.position]
    · rw [if_pos hg.ambichannels]
      nofun
    · rw [if_pos hg.ambichannels]
      nofun
    · by_contra hpos
      have hextra : g.info.extrachannels ≠ 0 := fun hzero =>
        hpos (by rw [← hg.extrachannels, hzero]; rfl)
      dsimp only at hbuffer
      rw [if_pos hextra] at hbuffer
      cases hbuffer
  exact inBlocks_rule
    (Copied M g.sf.file.channels.toNat (UInt32.le_iff_toNat_le.mp hg.reduced)
      (copySize blocksize).val g.sf.file.frames)
    (copySize blocksize) hfirst fun _ _ _ hn hdone ht =>
      aiCopyBlock_copied hgrants hg.extrachannels hn hdone ht

/-- What the outputs are: the channels of the decoded frames, and the extra ones. -/
theorem ambixDeinterleave_channels (hg : Plays P place M g)
    (hgrants : ∀ size, P.grants size = true) (hplaces : ∀ n, (places n).accepts 1 = true)
    (fresh : Nat → K) (blocksize : Option UInt32)
    (hblock : g.sf.file.channels.toNat*(copySize (blocksize.getD 0)).val*4 < 2^64) :
    ∃ outs, ambixDeinterleave P place places fresh blocksize = .ok (some outs) ∧
      (∀ file ∈ outs.ambi ++ outs.extra, file.channels = 1) ∧
      outs.ambi.map SoundFile.frames = (List.range M.rows.toNat).map (fun r =>
        channelOf r (g.sf.file.frames.map (mix id id M))) ∧
      outs.extra.map SoundFile.frames =
        (List.range (g.sf.file.channels.toNat-M.cols.toNat)).map fun k =>
          channelOf k (g.sf.file.frames.map (List.drop M.cols.toNat)) := by
  obtain ⟨hambi, hextra⟩ := hg.counts
  obtain ⟨outhandles, houtput, hnone⟩ := hg.openOutput hplaces (blocksize.getD 0)
  obtain ⟨s, hcopy, hs⟩ := hg.copy hgrants fresh (blocksize.getD 0) hblock hnone
  have hhold := hs.outhandles
  rw [List.take_length] at hhold
  refine ⟨outputs (int32Count M.rows) (int32Count g.info.extrachannels) s.outhandles, ?_, ?_, ?_,
    ?_⟩
  · rw [ambixDeinterleave, hg.openInput, ok_bind]
    dsimp only
    rw [houtput]
    dsimp only
    rw [hcopy]
    rfl
  · refine outputs_mono hhold _ _ ?_
    rw [hambi, hextra]
  · have hframes := outputs_frames hhold 0 M.rows.toNat (by omega)
    simp only [Nat.zero_add] at hframes
    change ((List.range (int32Count M.rows)).filterMap _).map SoundFile.frames = _
    rw [hambi, hframes]
    exact List.map_congr_left fun r hr => channelOf_decode_ambi (List.mem_range.mp hr) _
  · have hframes := outputs_frames hhold M.rows.toNat _ (Nat.le_refl _)
    change ((List.range (int32Count g.info.extrachannels)).filterMap fun chan =>
      (s.outhandles (int32Count M.rows+chan)).map SndFile.file).map SoundFile.frames = _
    rw [hambi, hextra, hframes]
    exact List.map_congr_left fun k _ => channelOf_decode_extra k _

end plays
end blocks

end Ambix.Deinterleave
