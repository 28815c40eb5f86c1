import Ambix.PdRead

/-! ambix_read~.c plays its file once. The fifo is a ring in which the child stores frame
`put` of the file next and the audio thread takes frame `got` next. -/
namespace Ambix
open Machine

/-! The loops over samples. -/

section samples
variable {α : Type} [Zero α]

def fit (want : Nat) (samples : List α) : List α :=
  samples.take want ++ List.replicate (want-samples.length) 0

@[simp] theorem fit_length (want : Nat) (samples : List α) : (fit want samples).length = want := by
  rw [fit, List.length_append, List.length_take, List.length_replicate]
  omega

theorem zeroLoop_eq (n : Nat) (d : Cursor α) :
    loop (fun _ (d : Cursor α) => d.put 0) n d = d.putAll (List.replicate n 0) := by
  rw [putLoop_eq (fun _ => (0 : α)) n d, List.map_const', List.length_range]

theorem fitLoops_eq (buf : Nat → α) (pos chan want : Nat) (d : Cursor α) :
    loop (fun _ (d : Cursor α) => d.put 0) (if want > chan then want-chan else 0)
      (loop (fun c (d : Cursor α) => d.put (buf (pos+c))) (if chan < want then chan else want) d) =
      d.putAll (fit want (window buf pos chan)) := by
  have huse : (if chan < want then chan else want) = min want chan := by
    split <;> omega
  have hleft : (if want > chan then want-chan else 0) = want-chan := by
    split <;> omega
  have htake : (window buf pos chan).take want = window buf pos (min want chan) := by
    rw [← window_take buf pos chan (min want chan) (Nat.min_le_right _ _), List.take_eq_take_iff]
    simp
  rw [putLoop_eq (fun c => buf (pos+c)), zeroLoop_eq, huse, hleft, ← Cursor.putAll_append, fit,
    htake, window_length]
  rfl

theorem mergeFrame_eq (buf1 : Nat → α) (chan1 want1 : Nat) (buf2 : Nat → α) (chan2 want2 : Nat)
    (dest : Nat → α) (destsize offset f : Nat) :
    mergeFrame buf1 chan1 want1 buf2 chan2 want2 dest destsize offset f =
      ((⟨dest, ((offset+f)%destsize)*(want1+want2)⟩ : Cursor α).putAll
        (fit want1 (window buf1 (f*chan1) chan1) ++
          fit want2 (window buf2 (f*chan2) chan2))).data := by
  rw [Cursor.putAll_append, ← fitLoops_eq, ← fitLoops_eq]
  rfl

omit [Zero α] in
theorem deinterleaveSamples_eq (inbuf : Nat → α) (channels : Nat) (outvecs : Nat → Nat → α)
    (frames : Nat) : deinterleaveSamples inbuf channels outvecs frames = fun c f =>
      if c < channels ∧ f < frames then inbuf (f*channels+c) else outvecs c f := by
  have hinner (f pos : Nat) (vecs : Nat → Nat → α) :
      loop (fun c (s : (Nat → Nat → α) × Nat) =>
        (Function.update s.1 c (Function.update (s.1 c) f (inbuf s.2)), s.2+1)) channels
        (vecs, pos) =
      (fun c g => if c < channels ∧ g = f then inbuf (pos+c) else vecs c g, pos+channels) := by
    refine loop_eq (fun k => (fun c g => if c < k ∧ g = f then inbuf (pos+c) else vecs c g, pos+k))
      (by simp) fun k hk => ?_
    refine Prod.ext (funext fun c => funext fun g => ?_) rfl
    by_cases hc : c = k
    · subst hc
      by_cases hg : g = f
      · subst hg
        simp
      · simp [hg]
    · have hlt : c < k+1 ↔ c < k := by omega
      simp [hc, hlt]
  refine congrArg Prod.fst (loop_eq (fun n => ((fun c f =>
    if c < channels ∧ f < n then inbuf (f*channels+c) else outvecs c f), n*channels))
    (by simp) fun n hn => ?_)
  refine (hinner n (n*channels) _).trans (Prod.ext (funext fun c => funext fun f => ?_) ?_)
  · by_cases hf : f = n
    · subst hf
      simp
    · have hlt : f < n+1 ↔ f < n := by omega
      simp [hf, hlt]
  · exact (Nat.succ_mul n channels).symm

theorem zeroOut_eq (noutlets : Nat) (outvecs : Nat → Nat → α) (start n : Nat) :
    zeroOut noutlets outvecs start n = fun c f =>
      if c < noutlets ∧ start ≤ f ∧ f < start+n then 0 else outvecs c f := by
  have hrow (vec : Nat → α) : (loop (fun _ (fp : Cursor α) => fp.put 0) n ⟨vec, start⟩).data =
      fun f => if start ≤ f ∧ f < start+n then 0 else vec f := by
    refine congrArg Cursor.data (loop_eq (fun k => (⟨fun f =>
      if start ≤ f ∧ f < start+k then 0 else vec f, start+k⟩ : Cursor α)) ?_ fun k hk => ?_)
    · refine congrArg (Cursor.mk · start) (funext fun f => if_neg ?_)
      omega
    · refine congrArg (Cursor.mk · (start+k+1)) (funext fun f => ?_)
      by_cases hf : f = start+k
      · subst hf
        simp
      · have hlt : f < start+(k+1) ↔ f < start+k := by omega
        simp [hf, hlt]
  refine loop_eq (fun k => fun c f => if c < k ∧ start ≤ f ∧ f < start+n then 0 else outvecs c f)
    (by simp) fun k hk => funext fun c => ?_
  by_cases hc : c = k
  · subst hc
    rw [Function.update_self, hrow]
    simp
  · have hlt : c < k+1 ↔ c < k := by omega
    simp [hc, hlt]

omit [Zero α] in
theorem vectorFrames_deinterleave (buf : Nat → α) (tail w n : Nat) (outvecs : Nat → Nat → α) :
    vectorFrames (deinterleaveSamples (fun i => buf (tail*w+i)) w outvecs n) w n =
      window (frameAt buf w) tail n := by
  rw [deinterleaveSamples_eq]
  refine List.map_congr_left fun f hf => List.map_congr_left fun c hc => ?_
  have hpos : tail*w+(f*w+c) = (tail+f)*w+c := by rw [Nat.add_mul, Nat.add_assoc]
  exact (if_pos ⟨List.mem_range.mp hc, List.mem_range.mp hf⟩).trans (congrArg buf hpos)

theorem vectorFrames_zeroOut (buf : Nat → α) (tail w : Nat) {n v : Nat} (hn : n ≤ v)
    (outvecs : Nat → Nat → α) :
    vectorFrames (zeroOut w (deinterleaveSamples (fun i => buf (tail*w+i)) w outvecs n) n (v-n)) w v
      = window (frameAt buf w) tail n ++ List.replicate (v-n) (List.replicate w 0) := by
  rw [← vectorFrames_deinterleave buf tail w n outvecs, zeroOut_eq]
  generalize deinterleaveSamples (fun i => buf (tail*w+i)) w outvecs n = vecs
  obtain ⟨m, rfl⟩ := Nat.exists_eq_add_of_le hn
  rw [vectorFrames, List.range_add, List.map_append, List.map_map, Nat.add_sub_cancel_left]
  congr 1
  · refine List.map_congr_left fun f hf => List.map_congr_left fun c _ => if_neg ?_
    have hlt := List.mem_range.mp hf
    omega
  · refine List.eq_replicate_iff.mpr ⟨by simp, fun fr hfr => ?_⟩
    obtain ⟨f, hf, rfl⟩ := List.mem_map.mp hfr
    have hlt := List.mem_range.mp hf
    refine List.eq_replicate_iff.mpr ⟨by simp, fun s hs => ?_⟩
    obtain ⟨c, hc, rfl⟩ := List.mem_map.mp hs
    exact if_pos ⟨List.mem_range.mp hc, Nat.le_add_right n f, Nat.add_lt_add_left hlt n⟩

end samples

/-- What a file sounds like: its frames on the channels of the object. -/
def PdSoundfile.sound {α : Type} [Zero α] (file : PdSoundfile α) (P : PdObject) :
    List (List α) := file.frames.map fun fr => fit P.ambichannels fr.1 ++ fit P.xtrachannels fr.2

namespace AmbixRead
variable {α : Type} [Zero α] {B : SampleBytes α} {P : PdObject} {file : PdSoundfile α}
  {x : AmbixRead α} {got put : Nat}

/-! Two states of the fifo: nothing has been stored, or the file is being played. -/

omit [Zero α] in
/-- The buffers of the child hold `n` frames from number `put` of the file on. -/
structure Buffered (file : PdSoundfile α) (ambibuf xtrabuf : Nat → α) (put n : Nat) : Prop where
  fits : put+n ≤ file.frames.length
  ambi : framesOf ambibuf file.ambichannels n =
    ((file.frames.drop put).take n).map Prod.fst
  xtra : framesOf xtrabuf file.extrachannels n =
    ((file.frames.drop put).take n).map Prod.snd

/-- What the child is about to do is in order: the frames it has asked for fit in front of
the end of the fifo and do not reach the reader. -/
def Feeds (P : PdObject) (file : PdSoundfile α) (x : AmbixRead α) (got put : Nat) : Prop :=
  match x.child with
  | .opening _ => False
  | .feeding => x.position = put
  | .reading size head want => size = P.fifosize ∧ head = put%P.fifosize ∧
      put%P.fifosize+want ≤ P.fifosize ∧ put+want < got+P.fifosize ∧ 0 < want ∧ x.position = put
  | .merging size head n f => size = P.fifosize ∧ head = put%P.fifosize ∧
      put%P.fifosize+n ≤ P.fifosize ∧ put+n < got+P.fifosize ∧ f ≤ n ∧ 0 < n ∧
      x.position = put+n ∧ Buffered file x.ambibuf x.xtrabuf put n ∧
      Keeps (frameAt x.buf P.channels) P.fifosize (file.sound P) got (put+f)
  | .request | .closing | .ended => True

/-- The fifo of an open file, of which `put` frames have been stored and `got` played. -/
structure Fed (P : PdObject) (file : PdSoundfile α) (x : AmbixRead α) (got put : Nat) : Prop where
  once : x.requestcode ≠ .requestOpen
  handle : x.handle = file
  size : x.fifosize = P.fifosize
  head : x.fifohead = put%P.fifosize
  tail : x.fifotail = got%P.fifosize
  vectors : P.vecsize ∣ got
  behind : got ≤ put
  room : put < got+P.fifosize
  stored : put ≤ file.frames.length
  keeps : Keeps (frameAt x.buf P.channels) P.fifosize (file.sound P) got put
  ended : x.eof = true → put = file.frames.length
  feeds : Feeds P file x got put

omit [Zero α] in
/-- Nothing has been stored, or ever is in a fifo of size zero. -/
structure Silent (P : PdObject) (file : PdSoundfile α) (x : AmbixRead α) : Prop where
  filename : x.filename = file
  head : x.fifohead = 0
  tail : x.fifotail = 0
  going : x.eof = false
  child : match x.child with
    | .opening f => f = file ∧ x.requestcode ≠ .requestOpen
    | .feeding => x.fifosize = 0
    | .reading .. | .merging .. => False
    | .request | .closing | .ended => True

/-! One step of the child. -/

theorem Fed.lost (h : Fed P file x got put) : Fed P file x.lost got put where
  once := by
    have honce := h.once
    rw [AmbixRead.lost]
    dsimp only
    split
    · exact RequestCode.noConfusion
    · exact honce
  handle := h.handle
  size := h.size
  head := h.head
  tail := h.tail
  vectors := h.vectors
  behind := h.behind
  room := h.room
  stored := h.stored
  keeps := h.keeps
  ended := h.ended
  feeds := trivial

omit [Zero α] in
theorem wantframes_fits {size want : Nat} (hle : got ≤ put) (hroom : put < got+size)
    (h : wantframes size (put%size) (got%size) = some want) :
    0 < want ∧ put%size+want ≤ size ∧ put+want < got+size := by
  have hlt : put%size < size := Nat.mod_lt put (by omega)
  rw [wantframes] at h
  by_cases hahead : put%size ≥ got%size
  · rw [if_pos hahead] at h
    have hdistance := distance_of_le hle hroom hahead
    have hfree : got%size ≠ 0 ∨ size-put%size > readFrames := by
      by_contra hno
      rw [if_neg hno] at h
      cases h
    rw [if_pos hfree, Option.some.injEq] at h
    by_cases hlong : size-put%size > readFrames
    · rw [if_pos hlong] at h
      rw [readFrames] at hlong h
      omega
    · rw [if_neg hlong] at h
      omega
  · rw [if_neg hahead] at h
    have hdistance := distance_of_lt hle hroom (by omega)
    have htail : got%size < size := Nat.mod_lt got (by omega)
    have hfree : ¬ got%size-put%size-1 < readFrames := by
      intro hno
      rw [if_pos hno] at h
      cases h
    rw [if_neg hfree, Option.some.injEq] at h
    rw [readFrames] at hfree h
    omega

theorem Fed.feeding (h : Fed P file x got put) (hchild : x.child = .feeding)
    (answer : Option Nat) : Fed P file (x.childStep B P answer) got put := by
  have hposition : x.position = put := by
    have hfeeds := h.feeds
    rwa [Feeds, hchild] at hfeeds
  rw [childStep, hchild]
  dsimp only
  split
  · exact h.lost
  · cases hwant : wantframes x.fifosize x.fifohead x.fifotail with
    | none => exact h
    | some want =>
      rw [h.size, h.head, h.tail] at hwant
      obtain ⟨hpos, hend, hroom⟩ := wantframes_fits h.behind h.room hwant
      exact { h with feeds := ⟨h.size, h.head, hend, hroom, hpos, hposition⟩ }

omit [Zero α] in
theorem delivery_length (n want : Nat) :
    (x.delivery n want).length =
      min (min (max n 1) want) (x.handle.frames.length-x.position) := by
  rw [delivery, List.length_take, List.length_drop]

omit [Zero α] in
theorem readf_buffered (hhandle : x.handle = file) (hput : x.position = put)
    (hstored : put ≤ file.frames.length) (n want : Nat) :
    Buffered file (x.readf (x.delivery n want)).ambibuf (x.readf (x.delivery n want)).xtrabuf put
      (x.delivery n want).length := by
  have hlength := delivery_length (x := x) n want
  rw [hhandle, hput] at hlength
  have htake : (file.frames.drop put).take (x.delivery n want).length = x.delivery n want := by
    rw [delivery, hhandle, hput, List.length_take, List.take_eq_take_iff]
    omega
  have hwidths : ∀ fr ∈ x.delivery n want,
      fr.1.length = file.ambichannels ∧ fr.2.length = file.extrachannels := by
    intro fr hfr
    rw [delivery, hhandle] at hfr
    exact file.widths fr (List.mem_of_mem_drop (List.mem_of_mem_take hfr))
  refine ⟨by omega, ?_, ?_⟩
  · rw [htake, ← List.length_map Prod.fst]
    refine framesOf_written (List.forall_mem_map.mpr fun fr hfr => (hwidths fr hfr).1) ?_
    rw [Cursor.start_putAll_items, List.flatMap_def]
  · rw [htake, ← List.length_map Prod.snd]
    refine framesOf_written (List.forall_mem_map.mpr fun fr hfr => (hwidths fr hfr).2) ?_
    rw [Cursor.start_putAll_items, List.flatMap_def]

theorem Fed.reading (h : Fed P file x got put) {size head want : Nat}
    (hchild : x.child = .reading size head want) (n : Nat) :
    Fed P file (x.childStep B P (some n)) got put := by
  have hfeeds := h.feeds
  rw [Feeds, hchild] at hfeeds
  obtain ⟨rfl, rfl, hend, hroom, hpos, hposition⟩ := hfeeds
  have hlength := delivery_length (x := x) n want
  rw [h.handle, hposition] at hlength
  have hbuffered := readf_buffered h.handle hposition h.stored n want
  rw [childStep, hchild]
  dsimp only
  split
  · rename_i hsome
    refine { h with
      feeds := ⟨rfl, rfl, by omega, by omega, Nat.zero_le _, hsome, ?_, hbuffered, ?_⟩ }
    · exact congrArg (·+(x.delivery n want).length) hposition
    · exact h.keeps
  · rename_i hnone
    split
    · exact h.lost
    · have hstored := h.stored
      exact { h.lost with ended := fun _ => by omega }

theorem Buffered.merge {ambibuf xtrabuf : Nat → α} (buf : Nat → α) {n f : Nat}
    (h : Buffered file ambibuf xtrabuf put n) (hf : f < n)
    (hend : put%P.fifosize+n ≤ P.fifosize) :
    ∃ fr, (file.sound P)[put+f]? = some fr ∧ fr.length = P.channels ∧
      mergeFrame ambibuf file.ambichannels P.ambichannels xtrabuf file.extrachannels
        P.xtrachannels buf P.bufframes (put%P.fifosize) f =
      ((⟨buf, (put+f)%P.fifosize*P.channels⟩ : Cursor α).putAll fr).data := by
  have hfits := h.fits
  have hsize := P.fifosize_le
  have hoffset : (put+f)%P.fifosize = put%P.fifosize+f := mod_offset (by omega)
  have hslot : (put%P.fifosize+f)%P.bufframes = (put+f)%P.fifosize := by
    rw [hoffset, Nat.mod_eq_of_lt (by omega)]
  obtain ⟨fr, hfr⟩ : ∃ fr, file.frames[put+f]? = some fr :=
    ⟨_, List.getElem?_eq_getElem (by omega)⟩
  have hitem : ((file.frames.drop put).take n)[f]? = some fr := by
    rw [List.getElem?_take_of_lt hf, List.getElem?_drop, hfr]
  have hambi := congrArg (·[f]?) h.ambi
  have hxtra := congrArg (·[f]?) h.xtra
  simp only [framesOf, List.getElem?_map, List.getElem?_range hf, hitem, Option.map_some,
    Option.some.injEq] at hambi hxtra
  refine ⟨fit P.ambichannels fr.1 ++ fit P.xtrachannels fr.2, ?_, ?_, ?_⟩
  · rw [PdSoundfile.sound, List.getElem?_map, hfr, Option.map_some]
  · rw [List.length_append, fit_length, fit_length, PdObject.channels]
  · rw [mergeFrame_eq, hslot, Nat.mul_comm f, Nat.mul_comm f, hambi, hxtra, PdObject.channels]

theorem Fed.merging (h : Fed P file x got put) {size head n f : Nat}
    (hchild : x.child = .merging size head n f) (answer : Option Nat) :
    ∃ put', Fed P file (x.childStep B P answer) got put' := by
  have hfeeds := h.feeds
  rw [Feeds, hchild] at hfeeds
  obtain ⟨rfl, rfl, hend, hroom, hle, hpos, hposition, hbuffered, hkeeps⟩ := hfeeds
  rw [childStep, hchild]
  dsimp only
  split
  · rename_i hf
    obtain ⟨fr, hitem, hwidth, hmerge⟩ := hbuffered.merge (P := P) x.buf hf hend
    obtain ⟨hnew, hsame⟩ := frameAt_putAll x.buf ((put+f)%P.fifosize) hwidth
    have hstored := hkeeps.store (by omega) (hitem.trans (congrArg some hnew.symm)) hsame
    rw [h.handle, hmerge]
    exact ⟨put, { h with
      handle := rfl
      keeps := hstored.front (by omega)
      feeds := ⟨rfl, rfl, hend, hroom, hf, hpos, hposition, hbuffered, hstored⟩ }⟩
  · rename_i hdone
    split
    · exact ⟨put, h.lost⟩
    · have hfn : f = n := by omega
      subst hfn
      have hbehind := h.behind
      have hended := h.ended
      have hfits := hbuffered.fits
      refine ⟨put+f, { h with
        head := ?_
        behind := by omega
        room := hroom
        stored := hfits
        keeps := hkeeps
        ended := fun he => ?_
        feeds := hposition }⟩
      · rw [mod_advance hend, ← h.head]
      · have hput := hended he
        omega

theorem Fed.childStep (h : Fed P file x got put) (n : Nat) :
    ∃ put', Fed P file (x.childStep B P (some n)) got put' := by
  cases hchild : x.child with
  | request =>
    have honce := h.once
    rw [AmbixRead.childStep, hchild]
    dsimp only
    cases hcode : x.requestcode with
    | requestOpen => exact absurd hcode honce
    | requestClose => exact ⟨put, { h with once := nofun, feeds := trivial }⟩
    | requestQuit => exact ⟨put, { h with once := nofun, feeds := trivial }⟩
    | requestNothing => exact ⟨put, h⟩
    | requestBusy => exact ⟨put, h⟩
  | opening f =>
    have hfeeds := h.feeds
    rw [Feeds, hchild] at hfeeds
    exact hfeeds.elim
  | feeding => exact ⟨put, h.feeding hchild (some n)⟩
  | reading size head want => exact ⟨put, h.reading hchild n⟩
  | merging size head m f => exact h.merging hchild (some n)
  | closing =>
    rw [AmbixRead.childStep, hchild]
    exact ⟨put, { h with feeds := trivial }⟩
  | ended =>
    rw [AmbixRead.childStep, hchild]
    exact ⟨put, h⟩

theorem Silent.childStep (h : Silent P file x) (n : Nat) :
    Silent P file (x.childStep B P (some n)) ∨ Fed P file (x.childStep B P (some n)) 0 0 := by
  have hchild' := h.child
  cases hchild : x.child with
  | request =>
    rw [AmbixRead.childStep, hchild]
    dsimp only
    cases hcode : x.requestcode with
    | requestOpen => exact Or.inl { h with child := ⟨h.filename, nofun⟩ }
    | requestClose => exact Or.inl { h with child := trivial }
    | requestQuit => exact Or.inl { h with child := trivial }
    | requestNothing => exact Or.inl h
    | requestBusy => exact Or.inl h
  | opening f =>
    rw [hchild] at hchild'
    obtain ⟨rfl, honce⟩ := hchild'
    rw [AmbixRead.childStep, hchild]
    dsimp only [opened]
    split
    · exact Or.inl { h with child := trivial }
    · by_cases hpos : 0 < P.fifosize
      · exact Or.inr {
          once := honce
          handle := rfl
          size := rfl
          head := (Nat.zero_mod _).symm
          tail := h.tail.trans (Nat.zero_mod _).symm
          vectors := Nat.dvd_zero _
          behind := le_rfl
          room := by omega
          stored := Nat.zero_le _
          keeps := Keeps.empty _ _ _ 0
          ended := fun he => absurd (h.going.symm.trans he) nofun
          feeds := rfl }
      · exact Or.inl { h with head := rfl, child := Nat.eq_zero_of_not_pos hpos }
  | feeding =>
    rw [hchild] at hchild'
    rw [AmbixRead.childStep, hchild]
    dsimp only
    split
    · exact Or.inl { h with child := trivial }
    · have hwait : wantframes x.fifosize x.fifohead x.fifotail = none := by
        rw [show x.fifosize = 0 from hchild', h.head, h.tail]
        rfl
      rw [hwait]
      exact Or.inl h
  | reading size head want =>
    rw [hchild] at hchild'
    exact hchild'.elim
  | merging size head m f =>
    rw [hchild] at hchild'
    exact hchild'.elim
  | closing =>
    rw [AmbixRead.childStep, hchild]
    exact Or.inl { h with child := trivial }
  | ended =>
    rw [AmbixRead.childStep, hchild]
    exact Or.inl h

/-! One tick. -/

theorem Feeds.later (h : Feeds P file x got put) {got' : Nat} (hle : got ≤ got') :
    Feeds P file x got' put := by
  unfold Feeds at h ⊢
  cases hchild : x.child with
  | reading size head want =>
    rw [hchild] at h
    obtain ⟨hsize, hhead, hend, hroom, hrest⟩ := h
    exact ⟨hsize, hhead, hend, by omega, hrest⟩
  | merging size head n f =>
    rw [hchild] at h
    obtain ⟨hsize, hhead, hend, hroom, hf, hn, hposition, hbuffered, hkeeps⟩ := h
    exact ⟨hsize, hhead, hend, by omega, hf, hn, hposition, hbuffered, hkeeps.drop hle⟩
  | opening f => rwa [hchild] at h
  | feeding => rwa [hchild] at h
  | request => trivial
  | closing => trivial
  | ended => trivial

omit [Zero α] in
/-- Exactly one frame less than a vector is left: the tests of the tick miss it. -/
def Starved (P : PdObject) (x : AmbixRead α) : Prop :=
  x.fifotail ≤ x.fifohead ∧ x.fifohead = x.fifotail+P.vecsize-1

omit [Zero α] in
instance : Decidable (Starved P x) := inferInstanceAs (Decidable (_ ∧ _))

theorem Fed.play (h : Fed P file x got put) (hhungry : ¬ x.Hungry P) (hstarved : ¬ Starved P x)
    (outvecs : Nat → Nat → α) :
    Fed P file (x.play P outvecs).2 (got+P.vecsize) put ∧
      window (frameAt x.buf P.channels) x.fifotail P.vecsize =
        ((file.sound P).drop got).take P.vecsize := by
  have hpos : 0 < P.fifosize := by
    have hroom := h.room
    have hbehind := h.behind
    omega
  have hvec := P.vecsize_pos
  have hfits := P.vector_fits h.vectors hpos
  have hahead : got+P.vecsize ≤ put := by
    rw [Hungry, h.head, h.tail] at hhungry
    rw [Starved, h.head, h.tail] at hstarved
    by_cases hle : got%P.fifosize ≤ put%P.fifosize
    · have hdistance := distance_of_le h.behind h.room hle
      omega
    · have hdistance := distance_of_lt h.behind h.room (by omega)
      omega
  refine ⟨{ h with
    tail := ?_
    vectors := Nat.dvd_add h.vectors (Nat.dvd_refl _)
    behind := hahead
    room := Nat.lt_of_lt_of_le h.room (by omega)
    keeps := h.keeps.drop (Nat.le_add_right _ _)
    feeds := h.feeds.later (Nat.le_add_right _ _) }, ?_⟩
  · change (if x.fifotail+P.vecsize ≥ x.fifosize then 0 else x.fifotail+P.vecsize) = _
    rw [mod_advance hfits, h.tail, h.size]
    split
    · rw [if_pos (by omega)]
    · rw [if_neg (by omega)]
  · rw [h.tail]
    exact h.keeps.window hahead hfits

theorem Fed.drain (h : Fed P file x got put) (heof : x.eof = true) (hhungry : x.Hungry P)
    (hsilent : frameAt x.buf P.channels x.fifohead = List.replicate P.channels 0) :
    window (frameAt x.buf P.channels) x.fifotail (x.fifohead-x.fifotail+1) =
      (file.sound P).drop got ++ [List.replicate P.channels 0] := by
  have hput := h.ended heof
  rw [Hungry, h.head, h.tail] at hhungry
  have hdistance := distance_of_le h.behind h.room hhungry.1
  have hrest : (file.sound P).length = put := by
    rw [hput, PdSoundfile.sound, List.length_map]
  have hend := Nat.mod_lt put (show 0 < P.fifosize by
    have hroom := h.room
    have hbehind := h.behind
    omega)
  have hwindow := h.keeps.window (n := put%P.fifosize-got%P.fifosize) (by omega) (by omega)
  have htake : ((file.sound P).drop got).take (put%P.fifosize-got%P.fifosize) =
      (file.sound P).drop got := List.take_of_length_le (by rw [List.length_drop]; omega)
  rw [h.head] at hsilent
  rw [h.head, h.tail, window_succ, hwindow, htake, Nat.add_sub_cancel' hhungry.1, hsilent]

/-! A whole run. -/

def Output.frames (P : PdObject) : Output α → List (List α)
  | .stream outvecs => vectorFrames outvecs P.channels P.vecsize
  | .none | .silence _ => []

/-- All frames of the ticks that reach the streaming branch. -/
def heard (P : PdObject) (events : List (Event (AmbixRead α) (Call α) (Output α))) :
    List (List α) := events.flatMap fun e => e.answer.frames P

omit [Zero α] in
/-- No call of the library fails: it opens the file and delivers as long as there are
frames. -/
def Call.delivers : Call α → Bool
  | .child none => false
  | _ => true

omit [Zero α] in
def Call.performs : Call α → Bool
  | .perform _ => true
  | _ => false

/-- A tick that finds a whole vector, or waits for it; at the end of the file, when it
takes the rest of the fifo and one frame more, that frame is silent. -/
def InTime (P : PdObject) (e : Event (AmbixRead α) (Call α) (Output α)) : Prop :=
  e.call.performs = true → e.state.Streams → ¬ Starved P e.state ∧
    (e.state.eof = true → e.state.Hungry P →
      frameAt e.state.buf P.channels e.state.fifohead = List.replicate P.channels 0)

instance [DecidableEq α] (e : Event (AmbixRead α) (Call α) (Output α)) :
    Decidable (InTime P e) := inferInstanceAs (Decidable (_ → _ → _ ∧ (_ → _ → _)))

/-- `out` is the file from its first frame on, followed by silence. -/
def PlaysOnce (P : PdObject) (file : PdSoundfile α) (out : List (List α)) : Prop :=
  ∃ n, out <+: file.sound P ++ List.replicate n (List.replicate P.channels 0)

/-- After `out` has been heard. -/
structure Playing (P : PdObject) (file : PdSoundfile α) (x : AmbixRead α)
    (out : List (List α)) : Prop where
  waits : x.waiting = true → x.state = .stateStream
  once : PlaysOnce P file out
  fifo : (Silent P file x ∧ (x.state ≠ .stateIdle → out = [])) ∨
    ∃ got put, Fed P file x got put ∧ (x.state ≠ .stateIdle → out = (file.sound P).take got)

theorem childStep_audio (answer : Option Nat) :
    (x.childStep B P answer).state = x.state ∧ (x.childStep B P answer).waiting = x.waiting := by
  rw [childStep]
  cases x.child with
  | request => dsimp only; split <;> exact ⟨rfl, rfl⟩
  | opening file =>
    cases answer with
    | none => exact ⟨rfl, rfl⟩
    | some n => dsimp only [opened]; split <;> exact ⟨rfl, rfl⟩
  | feeding =>
    dsimp only
    split
    · exact ⟨rfl, rfl⟩
    · split <;> exact ⟨rfl, rfl⟩
  | reading size head want =>
    cases answer with
    | none => exact ⟨rfl, rfl⟩
    | some n =>
      dsimp only
      split
      · exact ⟨rfl, rfl⟩
      · split <;> exact ⟨rfl, rfl⟩
  | merging size head n f =>
    dsimp only
    split
    · exact ⟨rfl, rfl⟩
    · split <;> exact ⟨rfl, rfl⟩
  | closing => exact ⟨rfl, rfl⟩
  | ended => exact ⟨rfl, rfl⟩

theorem Playing.childStep {out : List (List α)} (h : Playing P file x out) (n : Nat) :
    Playing P file (x.childStep B P (some n)) out := by
  obtain ⟨hstate, hwaiting⟩ := childStep_audio (B := B) (P := P) (x := x) (some n)
  refine ⟨by rw [hstate, hwaiting]; exact h.waits, h.once, ?_⟩
  rw [hstate]
  cases h.fifo with
  | inl hsilent =>
    obtain ⟨hsilent, hout⟩ := hsilent
    cases hsilent.childStep (B := B) n with
    | inl hsilent' => exact Or.inl ⟨hsilent', hout⟩
    | inr hfed => exact Or.inr ⟨0, 0, hfed, hout⟩
  | inr hfed =>
    obtain ⟨got, put, hfed, hout⟩ := hfed
    obtain ⟨put', hfed'⟩ := hfed.childStep (B := B) n
    exact Or.inr ⟨got, put', hfed', hout⟩

theorem Playing.start {out : List (List α)} (h : Playing P file x out) :
    Playing P file x.start out := by
  rw [AmbixRead.start]
  split
  · rename_i hstartup
    have hstate : x.state ≠ .stateIdle := by rw [hstartup]; exact nofun
    refine ⟨fun _ => rfl, h.once, ?_⟩
    cases h.fifo with
    | inl hsilent =>
      obtain ⟨hsilent, hout⟩ := hsilent
      exact Or.inl ⟨{ hsilent with }, fun _ => hout hstate⟩
    | inr hfed =>
      obtain ⟨got, put, hfed, hout⟩ := hfed
      exact Or.inr ⟨got, put, { hfed with }, fun _ => hout hstate⟩
  · exact h

theorem Playing.stop {out : List (List α)} (h : Playing P file x out)
    (hidle : ¬ x.waiting = true) : Playing P file x.stop out := by
  refine ⟨fun hwaiting => absurd hwaiting hidle, h.once, ?_⟩
  cases h.fifo with
  | inl hsilent =>
    obtain ⟨hsilent, -⟩ := hsilent
    refine Or.inl ⟨{ hsilent with child := ?_ }, fun hstate => absurd rfl hstate⟩
    have hchild := hsilent.child
    change match x.child with
      | .opening f => f = file ∧ RequestCode.requestClose ≠ .requestOpen
      | .feeding => x.fifosize = 0
      | .reading .. | .merging .. => False
      | .request | .closing | .ended => True
    cases hc : x.child with
    | opening f =>
      rw [hc] at hchild
      exact ⟨hchild.1, nofun⟩
    | feeding => rwa [hc] at hchild
    | reading size head want => rwa [hc] at hchild
    | merging size head n f => rwa [hc] at hchild
    | request => trivial
    | closing => trivial
    | ended => trivial
  | inr hfed =>
    obtain ⟨got, put, hfed, -⟩ := hfed
    exact Or.inr ⟨got, put, { hfed with once := nofun }, fun hstate => absurd rfl hstate⟩

theorem Playing.tick {out : List (List α)} (h : Playing P file x out) :
    Playing P file x.tick out := by
  refine ⟨h.waits, h.once, ?_⟩
  cases h.fifo with
  | inl hsilent =>
    obtain ⟨hsilent, hout⟩ := hsilent
    exact Or.inl ⟨{ hsilent with }, hout⟩
  | inr hfed =>
    obtain ⟨got, put, hfed, hout⟩ := hfed
    exact Or.inr ⟨got, put, { hfed with }, hout⟩

theorem Fed.drain_frames (hfed : Fed P file x got put) (heof : x.eof = true)
    (hhungry : x.Hungry P)
    (hsilent : frameAt x.buf P.channels x.fifohead = List.replicate P.channels 0)
    (outvecs : Nat → Nat → α) : (x.drain P outvecs).1.frames P = (file.sound P).drop got ++
      List.replicate (P.vecsize-(x.fifohead-x.fifotail+1)+1) (List.replicate P.channels 0) := by
  rw [Hungry] at hhungry
  refine (vectorFrames_zeroOut x.buf x.fifotail P.channels (by omega) outvecs).trans ?_
  rw [hfed.drain heof hhungry hsilent, List.append_assoc, List.replicate_succ]
  rfl

theorem Fed.play_frames (hfed : Fed P file x got put) (hfull : ¬ x.Hungry P)
    (hstarved : ¬ Starved P x) (outvecs : Nat → Nat → α) :
    Fed P file (x.play P outvecs).2 (got+P.vecsize) put ∧
      (x.play P outvecs).1.frames P = ((file.sound P).drop got).take P.vecsize := by
  obtain ⟨hfed', hwindow⟩ := hfed.play hfull hstarved outvecs
  exact ⟨hfed',
    (vectorFrames_deinterleave x.buf x.fifotail P.channels P.vecsize outvecs).trans hwindow⟩

theorem Playing.stream {out : List (List α)} (h : Playing P file x out) (hstreams : x.Streams)
    (outvecs : Nat → Nat → α) (hstarved : ¬ Starved P x)
    (hsilent : x.eof = true → x.Hungry P →
      frameAt x.buf P.channels x.fifohead = List.replicate P.channels 0) :
    Playing P file (x.perform P outvecs).2 (out ++ (x.perform P outvecs).1.frames P) := by
  have hstate : x.state = .stateStream := by
    cases hstreams with
    | inl hwaiting => exact h.waits hwaiting
    | inr hflags => exact hflags.2.2
  have hactive : x.state ≠ .stateIdle := by rw [hstate]; exact nofun
  rw [perform, if_neg (not_not.mpr hstreams)]
  cases h.fifo with
  | inl hfifo =>
    obtain ⟨hfifo, hout⟩ := hfifo
    have hhungry : x.Hungry P := by
      have hvec := P.vecsize_pos
      rw [Starved, hfifo.head, hfifo.tail] at hstarved
      rw [Hungry, hfifo.head, hfifo.tail]
      omega
    rw [if_pos ⟨hfifo.going, hhungry⟩]
    refine ⟨fun _ => hstate, ?_, Or.inl ⟨{ hfifo with }, ?_⟩⟩
    · simpa [Output.frames] using h.once
    · simpa [Output.frames] using hout
  | inr hfifo =>
    obtain ⟨got, put, hfed, hout⟩ := hfifo
    split
    · refine ⟨fun _ => hstate, ?_, Or.inr ⟨got, put, { hfed with }, ?_⟩⟩
      · simpa [Output.frames] using h.once
      · simpa [Output.frames] using hout
    · split
      · rename_i hend
        obtain ⟨heof, hhungry⟩ := hend
        have hall : out ++ (x.drain P outvecs).1.frames P = file.sound P ++
            List.replicate (P.vecsize-(x.fifohead-x.fifotail+1)+1)
              (List.replicate P.channels 0) := by
          rw [hout hactive, hfed.drain_frames heof hhungry (hsilent heof hhungry),
            ← List.append_assoc, List.take_append_drop]
        refine ⟨nofun, ⟨P.vecsize-(x.fifohead-x.fifotail+1)+1, hall ▸ List.prefix_rfl⟩,
          Or.inr ⟨got, put, { hfed with }, fun hidle => absurd rfl hidle⟩⟩
      · rename_i hwait hend
        have hfull : ¬ x.Hungry P := by
          intro hhungry
          cases heof : x.eof with
          | false => exact hwait ⟨heof, hhungry⟩
          | true => exact hend ⟨heof, hhungry⟩
        obtain ⟨hfed', hframes⟩ := hfed.play_frames hfull hstarved outvecs
        have hall : out ++ (x.play P outvecs).1.frames P = (file.sound P).take (got+P.vecsize) := by
          rw [hout hactive, hframes, List.take_add]
        rw [hall]
        exact ⟨nofun,
          ⟨0, by rw [List.replicate_zero, List.append_nil]; exact List.take_prefix _ _⟩,
          Or.inr ⟨got+P.vecsize, put, hfed', fun _ => rfl⟩⟩

/-- What one call preserves. -/
theorem Playing.step {out : List (List α)} (h : Playing P file x out) (c : Call α)
    (hdelivers : c.delivers = true) (htime : InTime P ⟨x, c, (x.step B P c).1⟩) :
    Playing P file (x.step B P c).2 (out ++ (x.step B P c).1.frames P) := by
  cases c with
  | start =>
    change Playing P file (if x.waiting then x else x.start) (out ++ [])
    rw [List.append_nil]
    split
    · exact h
    · exact h.start
  | stop =>
    change Playing P file (if x.waiting then x else x.stop) (out ++ [])
    rw [List.append_nil]
    split
    · exact h
    · rename_i hwaiting
      exact h.stop hwaiting
  | tick =>
    change Playing P file (if x.waiting then x else x.tick) (out ++ [])
    rw [List.append_nil]
    split
    · exact h
    · exact h.tick
  | perform outvecs =>
    by_cases hstreams : x.Streams
    · obtain ⟨hstarved, hsilent⟩ := htime rfl hstreams
      exact h.stream hstreams outvecs hstarved hsilent
    · change Playing P file (x.perform P outvecs).2 (out ++ (x.perform P outvecs).1.frames P)
      rw [perform, if_pos hstreams]
      change Playing P file x (out ++ [])
      rwa [List.append_nil]
  | child answer =>
    change Playing P file (x.childStep B P answer) (out ++ [])
    rw [List.append_nil]
    cases answer with
    | none => cases hdelivers
    | some n => exact h.childStep n

omit [Zero α] in
def Rests (x : AmbixRead α) : Prop := x.child = .request ∧ x.waiting = false

theorem Playing.opened (h : x.Rests) : Playing P file (x.openFile file) [] where
  waits hwaiting := absurd (h.2.symm.trans hwaiting) nofun
  once := ⟨0, List.nil_prefix⟩
  fifo := Or.inl ⟨⟨rfl, rfl, rfl, rfl, by
    change match x.child with
      | .opening f => f = file ∧ RequestCode.requestOpen ≠ .requestOpen
      | .feeding => x.fifosize = 0
      | .reading .. | .merging .. => False
      | .request | .closing | .ended => True
    rw [h.1]
    trivial⟩, fun _ => rfl⟩

omit [Zero α] in
theorem heard_append (events : List (Event (AmbixRead α) (Call α) (Output α)))
    (e : Event (AmbixRead α) (Call α) (Output α)) :
    heard P (events ++ [e]) = heard P events ++ e.answer.frames P := by
  rw [heard, List.flatMap_append, List.flatMap_singleton]
  rfl

theorem played_once (B : SampleBytes α) (P : PdObject) (file : PdSoundfile α) {x y : AmbixRead α}
    (hrests : x.Rests) {events : List (Event (AmbixRead α) (Call α) (Output α))}
    (hrun : Run (fun x c => .ok (x.step B P c)) (x.openFile file) events y)
    (hdelivers : ∀ e ∈ events, e.call.delivers = true) (htime : ∀ e ∈ events, InTime P e) :
    PlaysOnce P file (heard P events) := by
  refine (hrun.invariant_of (fun e => e.call.delivers = true ∧ InTime P e)
    (fun events y => Playing P file y (heard P events))
    (fun e he => ⟨hdelivers e he, htime e he⟩) (Playing.opened hrests) ?_).once
  intro events y c a z hcall he h
  have hstep : y.step B P c = (a, z) := Except.ok.inj hcall
  have hanswer : (y.step B P c).1 = a := congrArg Prod.fst hstep
  have hnext : (y.step B P c).2 = z := congrArg Prod.snd hstep
  rw [heard_append, ← hnext, ← hanswer]
  subst hanswer
  exact h.step c he.1 he.2

/-- `ambix_read_new`. -/
def newObject (buf : Nat → α) : AmbixRead α where
  buf := buf
  infoEof := false
  infoMatrix := false
  infoAmbix := false
  state := .stateIdle
  requestcode := .requestNothing
  filename := ⟨0, 0, false, [], nofun⟩
  fifosize := 0
  fifohead := 0
  fifotail := 0
  eof := false
  waiting := false
  child := .request
  handle := ⟨0, 0, false, [], nofun⟩
  position := 0
  ambibuf := fun _ => 0
  xtrabuf := fun _ => 0

def smallObject : PdObject := ⟨1, 0, 65536, 2, by decide⟩

def twoFrames : PdSoundfile Int := ⟨1, 0, false, [([1], []), ([2], [])], by simp⟩

def twoFramesRun (calls : List (Call Int)) :
    List (Event (AmbixRead Int) (Call Int) (Output Int)) :=
  trace (step ⟨4, fun _ s => s⟩ smallObject) ((newObject fun _ => 0).openFile twoFrames) calls

/-- Both frames are read at once, and the end is found before the second tick. -/
theorem played_once_whole : PlaysOnce smallObject twoFrames (heard smallObject (twoFramesRun
    [.start, .child (some 0), .child (some 0), .tick, .child (some 0), .child (some 2),
      .child (some 0), .child (some 0), .child (some 0), .perform fun _ _ => 7,
      .child (some 0), .child (some 0), .perform fun _ _ => 7])) :=
  played_once ⟨4, fun _ s => s⟩ smallObject twoFrames (x := newObject fun _ => 0) ⟨rfl, rfl⟩
    (Run.of_calls _ _ _) (by decide) (by decide)

/-- The child delivers one frame, and the tick plays what lies behind it too. -/
theorem played_once_fails : ∃ events y,
    Run (fun x c => .ok (x.step ⟨4, fun _ s => s⟩ smallObject c))
      ((newObject fun _ => 0).openFile twoFrames) events y ∧
    (∀ e ∈ events, e.call.delivers = true) ∧ ¬ PlaysOnce smallObject twoFrames
      (heard smallObject events) := by
  refine ⟨twoFramesRun [.start, .child (some 0), .child (some 0), .tick, .child (some 0),
    .child (some 1), .child (some 0), .child (some 0), .perform fun _ _ => 7], _,
    Run.of_calls _ _ _, by decide, ?_⟩
  rintro ⟨n, hprefix⟩
  have hframes : [[1], [0]] <+: twoFrames.sound smallObject ++
      List.replicate n (List.replicate smallObject.channels 0) := hprefix
  have hsecond := List.cons_prefix_cons.mp (List.cons_prefix_cons.mp hframes).2
  exact absurd hsecond.1 (by decide)

end AmbixRead
end Ambix
