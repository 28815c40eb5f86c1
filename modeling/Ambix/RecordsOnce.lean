import Ambix.PdWrite

/-! ambix_write~.c records what it captures. The fifo is a ring in which the audio thread
stores frame `put` next and the child takes frame `got` next. -/
namespace Ambix
open Machine

/-! The loops over samples. -/

section samples
variable {α : Type}

theorem interleaveSamples_eq (invecs : Nat → Nat → α) (channels : Nat) (outbuf : Cursor α)
    (frames : Nat) : interleaveSamples invecs channels outbuf frames =
      outbuf.putAll (vectorFrames invecs channels frames).flatten := by
  refine (loop_eq (fun f => outbuf.putAll ((List.range f).flatMap fun f =>
    (List.range channels).map fun c => invecs c f)) rfl fun f _ => ?_).trans ?_
  · rw [putLoop_eq fun c => invecs c f, Cursor.putAll_flatMap_succ]
  · rw [List.flatMap_def]
    rfl

theorem vectorFrames_width {vecs : Nat → Nat → α} {channels frames : Nat} :
    ∀ fr ∈ vectorFrames vecs channels frames, fr.length = channels := by
  intro fr hfr
  obtain ⟨f, -, rfl⟩ := List.mem_map.mp hfr
  simp

@[simp] theorem vectorFrames_length (vecs : Nat → Nat → α) (channels frames : Nat) :
    (vectorFrames vecs channels frames).length = frames := by
  simp [vectorFrames]

theorem splitFrame_eq (buf : Nat → α) (tail chan1 chan2 f : Nat) (bufs : Split α) :
    splitFrame (fun i => buf (tail*(chan1+chan2)+i)) chan1 chan2 f bufs =
      ⟨bufs.ambi.putAll ((frameAt buf (chan1+chan2) (tail+f)).take chan1),
        bufs.other.putAll ((frameAt buf (chan1+chan2) (tail+f)).drop chan1)⟩ := by
  have hpos : tail*(chan1+chan2)+f*(chan1+chan2) = (tail+f)*(chan1+chan2) :=
    (Nat.add_mul _ _ _).symm
  rw [splitFrame, copyLoop_eq]
  dsimp only
  rw [copyLoop_eq, frameAt, window_take _ _ _ _ (Nat.le_add_right _ _),
    window_drop _ _ _ _ (Nat.le_add_right _ _), Nat.add_sub_cancel_left, window_shift,
    window_shift, ← Nat.add_assoc, hpos]

theorem keeps_putAll {w size got put : Nat} {items : List (List α)} (new : List (List α))
    (buf : Nat → α) (hw : ∀ fr ∈ new, fr.length = w) (hend : put%size+new.length ≤ size)
    (hroom : put+new.length ≤ got+size) (hnew : ∀ k, k < new.length → items[put+k]? = new[k]?)
    (h : Keeps (frameAt buf w) size items got put) :
    Keeps (frameAt ((⟨buf, put%size*w⟩ : Cursor α).putAll new.flatten).data w) size items got
      (put+new.length) := by
  induction new generalizing buf put with
  | nil => exact h
  | cons fr new ih =>
    rw [List.length_cons] at hend hroom hnew
    obtain ⟨hfr, hrest⟩ := List.forall_mem_cons.mp hw
    obtain ⟨hat, hother⟩ := frameAt_putAll buf (put%size) hfr
    have hitem := hnew 0 (Nat.succ_pos _)
    have hstored := h.store (by omega) (hitem.trans (congrArg some hat.symm)) hother
    rw [List.flatten_cons, Cursor.putAll_append, List.length_cons, Nat.add_comm new.length,
      ← Nat.add_assoc]
    cases new with
    | nil => exact hstored
    | cons fr' new =>
      rw [List.length_cons] at hend
      have hnext : (put+1)%size = put%size+1 := mod_offset (by omega)
      have hcursor : (⟨buf, put%size*w⟩ : Cursor α).putAll fr =
          ⟨((⟨buf, put%size*w⟩ : Cursor α).putAll fr).data, (put+1)%size*w⟩ := by
        refine congrArg (Cursor.mk _) ((Cursor.putAll_end _ _).trans ?_)
        rw [hnext, Nat.succ_mul, hfr]
      rw [hcursor]
      refine ih _ hrest (by rw [List.length_cons]; omega) (by omega) (fun k hk => ?_) hstored
      have hk' := hnew (k+1) (Nat.succ_lt_succ hk)
      rwa [List.getElem?_cons_succ, ← Nat.add_assoc, Nat.add_right_comm] at hk'

end samples

namespace AmbixWrite
variable {α : Type} {P : PdObject} {x : AmbixWrite α} {captured : List (List α)} {got put : Nat}

def fileFrame (P : PdObject) (fr : List α) : List α × List α :=
  (fr.take P.ambichannels, fr.drop P.ambichannels)

/-- The child goes on until the fifo is empty: nobody has stopped it, or that is what it has
been asked for. -/
def Asked (x : AmbixWrite α) : Prop :=
  (x.requestcode = .requestBusy ∧ x.state ≠ .stateIdle) ∨
    (x.requestcode = .requestClose ∧ x.state = .stateIdle)

def Finished (x : AmbixWrite α) (got put : Nat) : Prop :=
  (x.requestcode = .requestClose ∨ x.requestcode = .requestNothing) ∧ x.state = .stateIdle ∧
    got = put

def Phase (P : PdObject) (x : AmbixWrite α) (captured : List (List α)) (got put : Nat) : Prop :=
  match x.child with
  | .request => (x.requestcode = .requestOpen ∧ x.state ≠ .stateIdle ∧ got = 0) ∨
      Finished x got put
  | .opening => (x.requestcode = .requestBusy ∧ x.state ≠ .stateIdle ∧ got = 0) ∨
      (x.requestcode = .requestClose ∧ x.state = .stateIdle ∧ got = 0 ∧ put = 0)
  | .emptying => Asked x
  | .splitting size tail n f => Asked x ∧ size = P.fifosize ∧ tail = got%P.fifosize ∧
      got%P.fifosize+n ≤ P.fifosize ∧ got+n ≤ put ∧ f ≤ n ∧
      x.bufs.ambi.items = (((captured.drop got).take f).map (·.take P.ambichannels)).flatten ∧
      x.bufs.other.items = (((captured.drop got).take f).map (·.drop P.ambichannels)).flatten
  | .closing quit => quit = false ∧ x.state = .stateIdle ∧ got = put
  | .ended => False

/-- The fifo when `put` frames have been captured, of which `got` are in the file. -/
structure Recording (P : PdObject) (x : AmbixWrite α) (captured : List (List α))
    (got put : Nat) : Prop where
  size : x.fifosize = P.fifosize
  head : x.fifohead = put%P.fifosize
  tail : x.fifotail = got%P.fifosize
  vectors : P.vecsize ∣ put
  behind : got ≤ put
  room : put < got+P.fifosize
  count : captured.length = put
  widths : ∀ fr ∈ captured, fr.length = P.channels
  written : x.file = (captured.take got).map (fileFrame P)
  keeps : Keeps (frameAt x.buf P.channels) P.fifosize captured got put
  phase : Phase P x captured got put

/-! One step of the child. -/

theorem Recording.writeframes (h : Recording P x captured got put) :
    got%P.fifosize+x.writeframes ≤ P.fifosize ∧ got+x.writeframes ≤ put ∧
      (x.fifohead ≠ x.fifotail → 0 < x.writeframes) := by
  have hbehind := h.behind
  have hroom := h.room
  have hhead : put%P.fifosize < P.fifosize := Nat.mod_lt put (by omega)
  have htail : got%P.fifosize < P.fifosize := Nat.mod_lt got (by omega)
  rw [AmbixWrite.writeframes, h.head, h.tail, h.size]
  by_cases hlap : put%P.fifosize < got%P.fifosize
  · have hdistance := distance_of_lt hbehind hroom hlap
    rw [if_pos hlap, readFrames]
    split <;> omega
  · have hdistance := distance_of_le hbehind hroom (by omega)
    rw [if_neg hlap, readFrames]
    split <;> omega

theorem Recording.split (h : Recording P x captured got put) {size tail n f : Nat}
    (hchild : x.child = .splitting size tail n f) (hf : f < n) (succeeds : Bool) :
    Recording P (x.childStep P succeeds) captured got put := by
  have hphase := h.phase
  rw [Phase, hchild] at hphase
  obtain ⟨hasked, rfl, rfl, hend, hput, hle, hambi, hother⟩ := hphase
  have hslot : (got+f)%P.fifosize = got%P.fifosize+f := mod_offset (by omega)
  have hitem := h.keeps (got+f) (Nat.le_add_right _ _) (by omega)
  have htake : (captured.drop got).take (f+1) = (captured.drop got).take f ++
      [frameAt x.buf P.channels (got%P.fifosize+f)] := by
    rw [List.take_add_one, List.getElem?_drop, hitem, hslot]
    rfl
  have hsplit := splitFrame_eq x.buf (got%P.fifosize) P.ambichannels P.xtrachannels f x.bufs
  change splitFrame (fun i => x.buf (got%P.fifosize*P.channels+i)) _ _ f x.bufs = _ at hsplit
  rw [childStep, hchild]
  dsimp only
  rw [if_pos hf, hsplit]
  refine { h with phase := ⟨hasked, rfl, rfl, hend, hput, hf, ?_, ?_⟩ }
  · rw [Cursor.putAll_items, hambi, htake, List.map_append, List.flatten_append]
    simp [PdObject.channels]
  · rw [Cursor.putAll_items, hother, htake, List.map_append, List.flatten_append]
    simp [PdObject.channels]

theorem framesOf_split (h : Recording P x captured got put) {n : Nat} (hput : got+n ≤ put)
    (hambi : x.bufs.ambi.items =
      (((captured.drop got).take n).map (·.take P.ambichannels)).flatten)
    (hother : x.bufs.other.items =
      (((captured.drop got).take n).map (·.drop P.ambichannels)).flatten) :
    (framesOf x.bufs.ambi.data P.ambichannels n).zip (framesOf x.bufs.other.data P.xtrachannels n) =
      ((captured.drop got).take n).map (fileFrame P) := by
  have hcount := h.count
  have hlength : ((captured.drop got).take n).length = n := by
    rw [List.length_take, List.length_drop]
    omega
  have hwidths : ∀ fr ∈ (captured.drop got).take n, fr.length = P.channels := fun fr hfr =>
    h.widths fr (List.mem_of_mem_drop (List.mem_of_mem_take hfr))
  have hambi' := framesOf_written (w := P.ambichannels) (List.forall_mem_map.mpr fun fr hfr => by
    rw [List.length_take, hwidths fr hfr, PdObject.channels]
    omega) hambi
  have hother' := framesOf_written (w := P.xtrachannels) (List.forall_mem_map.mpr fun fr hfr => by
    rw [List.length_drop, hwidths fr hfr, PdObject.channels]
    omega) hother
  rw [List.length_map, hlength] at hambi' hother'
  rw [hambi', hother', List.zip_map']
  rfl

theorem Recording.write (h : Recording P x captured got put) {size tail n f : Nat}
    (hchild : x.child = .splitting size tail n f) (hf : ¬ f < n) :
    Recording P (x.childStep P true) captured (got+n) put ∧
      (x.childStep P true).child = .emptying := by
  have hphase := h.phase
  rw [Phase, hchild] at hphase
  obtain ⟨hasked, rfl, rfl, hend, hput, hle, hambi, hother⟩ := hphase
  obtain rfl : f = n := by omega
  have hframes := framesOf_split h hput hambi hother
  have hgoing : ¬ (x.requestcode ≠ .requestBusy ∧ x.requestcode ≠ .requestClose) := by
    cases hasked with
    | inl hbusy => exact fun hno => hno.1 hbusy.1
    | inr hclose => exact fun hno => hno.2 hclose.1
  rw [childStep, hchild]
  dsimp only [writef]
  rw [if_neg hf, if_neg nofun, if_neg hgoing, hframes]
  refine ⟨{ h with
    tail := ?_
    behind := hput
    room := Nat.lt_of_lt_of_le h.room (by omega)
    written := ?_
    keeps := h.keeps.drop (Nat.le_add_right _ _)
    phase := hasked }, rfl⟩
  · rw [mod_advance hend, ← h.tail]
  · rw [List.take_add, List.map_append, ← h.written]

theorem Recording.emptying (h : Recording P x captured got put) (hchild : x.child = .emptying)
    (succeeds : Bool) : Recording P (x.childStep P succeeds) captured got put := by
  have hphase := h.phase
  rw [Phase, hchild] at hphase
  obtain ⟨hend, hput, -⟩ := h.writeframes
  rw [childStep, hchild]
  dsimp only
  split
  · split
    · exact { h with phase := ⟨hphase, h.size, h.tail, hend, hput, Nat.zero_le _, rfl, rfl⟩ }
    · exact h
  · rename_i hdone
    refine { h with phase := Or.inr ?_ }
    cases hphase with
    | inl hbusy => exact absurd (Or.inl hbusy.1) hdone
    | inr hclose =>
      refine ⟨Or.inl hclose.1, hclose.2, ?_⟩
      by_cases heq : x.fifohead = x.fifotail
      · have hindex := heq
        rw [h.head, h.tail] at hindex
        have hdistance := distance_of_le h.behind h.room (by omega)
        omega
      · exact absurd (Or.inr ⟨hclose.1, heq⟩) hdone

theorem Recording.childStep (h : Recording P x captured got put) :
    ∃ got', Recording P (x.childStep P true) captured got' put := by
  have hphase := h.phase
  cases hchild : x.child with
  | request =>
    rw [Phase, hchild] at hphase
    rw [AmbixWrite.childStep, hchild]
    dsimp only
    cases hphase with
    | inl hopen =>
      obtain ⟨hcode, hstate, hgot⟩ := hopen
      rw [hcode]
      exact ⟨got, { h with phase := Or.inl ⟨rfl, hstate, hgot⟩ }⟩
    | inr hfinished =>
      obtain ⟨hcode, hstate, hgot⟩ := hfinished
      cases hcode with
      | inl hclose =>
        rw [hclose]
        dsimp only
        split
        · exact ⟨got, { h with phase := ⟨rfl, hstate, hgot⟩ }⟩
        · exact ⟨got, { h with phase := Or.inr ⟨Or.inr rfl, hstate, hgot⟩ }⟩
      | inr hnothing =>
        rw [hnothing]
        exact ⟨got, h⟩
  | opening =>
    rw [Phase, hchild] at hphase
    rw [AmbixWrite.childStep, hchild]
    dsimp only
    rw [if_neg nofun]
    split
    · rename_i hcode
      cases hphase with
      | inl hbusy => exact absurd hbusy.1 hcode
      | inr hclose =>
        obtain ⟨hclose, hstate, hgot, hput⟩ := hclose
        exact ⟨got, { h with phase := Or.inr ⟨Or.inl hclose, hstate, by rw [hgot, hput]⟩ }⟩
    · rename_i hcode
      cases hphase with
      | inl hbusy =>
        obtain ⟨hbusy, hstate, hgot⟩ := hbusy
        exact ⟨got, { h with
          tail := by rw [hgot, Nat.zero_mod]
          phase := Or.inl ⟨hbusy, hstate⟩ }⟩
      | inr hclose => exact absurd (hclose.1.symm.trans (not_not.mp hcode)) nofun
  | emptying => exact ⟨got, h.emptying hchild true⟩
  | splitting size tail n f =>
    by_cases hf : f < n
    · exact ⟨got, h.split hchild hf true⟩
    · exact ⟨got+n, (h.write hchild hf).1⟩
  | closing quit =>
    rw [Phase, hchild] at hphase
    obtain ⟨rfl, hstate, hgot⟩ := hphase
    rw [AmbixWrite.childStep, hchild]
    exact ⟨got, { h with phase := Or.inr ⟨Or.inr rfl, hstate, hgot⟩ }⟩
  | ended =>
    rw [Phase, hchild] at hphase
    exact hphase.elim

/-! One call of the audio thread. -/

/-- A vector would fill the fifo, which then looks empty. -/
def Overruns (P : PdObject) (x : AmbixWrite α) : Prop :=
  x.fifotail = 0 ∧ x.fifohead+P.vecsize = x.fifosize

instance : Decidable (Overruns P x) := inferInstanceAs (Decidable (_ ∧ _))

theorem Recording.vector_room (h : Recording P x captured got put) (hwaits : ¬ x.Waits P)
    (hoverruns : ¬ Overruns P x) :
    put%P.fifosize+P.vecsize ≤ P.fifosize ∧ put+P.vecsize < got+P.fifosize := by
  have hbehind := h.behind
  have hroom := h.room
  have hfits := P.vector_fits h.vectors (show 0 < P.fifosize by omega)
  rw [Waits, h.head, h.tail] at hwaits
  rw [Overruns, h.head, h.tail, h.size] at hoverruns
  refine ⟨hfits, ?_⟩
  by_cases hlap : put%P.fifosize < got%P.fifosize
  · have hdistance := distance_of_lt hbehind hroom hlap
    omega
  · have hdistance := distance_of_le hbehind hroom (by omega)
    omega

theorem Recording.phase_later (h : Recording P x captured got put) (hstate : x.state ≠ .stateIdle)
    (new : List (List α)) : Phase P x (captured ++ new) got (put+new.length) := by
  have hphase := h.phase
  have hcount := h.count
  unfold Phase at hphase ⊢
  cases hchild : x.child with
  | request =>
    rw [hchild] at hphase
    cases hphase with
    | inl hopen => exact Or.inl hopen
    | inr hfinished => exact absurd hfinished.2.1 hstate
  | opening =>
    rw [hchild] at hphase
    cases hphase with
    | inl hbusy => exact Or.inl hbusy
    | inr hclose => exact absurd hclose.2.1 hstate
  | emptying => rwa [hchild] at hphase
  | splitting size tail n f =>
    rw [hchild] at hphase
    obtain ⟨hasked, hsize, htail, hend, hput, hle, hambi, hother⟩ := hphase
    have hsame : ((captured ++ new).drop got).take f = (captured.drop got).take f := by
      rw [List.drop_append_of_le_length (by omega),
        List.take_append_of_le_length (by rw [List.length_drop]; omega)]
    rw [← hsame] at hambi hother
    exact ⟨hasked, hsize, htail, hend, by omega, hle, hambi, hother⟩
  | closing quit =>
    rw [hchild] at hphase
    exact absurd hphase.2.1 hstate
  | ended => rwa [hchild] at hphase

theorem Recording.perform (h : Recording P x captured got put) (invecs : Nat → Nat → α)
    (hoverruns : x.state = .stateStream → ¬ Overruns P x) :
    ∃ put', Recording P (x.perform P invecs).2 (captured ++ (x.perform P invecs).1) got put' := by
  rw [AmbixWrite.perform]
  split
  · exact ⟨put, by rwa [List.append_nil]⟩
  · rename_i hstate
    have hstream := not_not.mp hstate
    split
    · exact ⟨put, by rwa [List.append_nil]⟩
    · rename_i hwaits
      obtain ⟨hend, hroom⟩ := h.vector_room hwaits (hoverruns hstream)
      have hlength := vectorFrames_length invecs P.channels P.vecsize
      have hcount := h.count
      have hkeeps := keeps_putAll (vectorFrames invecs P.channels P.vecsize) x.buf
        vectorFrames_width (by rwa [hlength]) (by rw [hlength]; omega) (fun k hk => by
          rw [List.getElem?_append_right (by omega), ← h.count, Nat.add_sub_cancel_left])
        (h.keeps.append h.count.ge (vectorFrames invecs P.channels P.vecsize))
      have hphase := h.phase_later (by rw [hstream]; exact nofun)
        (vectorFrames invecs P.channels P.vecsize)
      rw [hlength] at hkeeps hphase
      refine ⟨put+P.vecsize, {
        size := h.size
        head := ?_
        tail := h.tail
        vectors := Nat.dvd_add h.vectors (Nat.dvd_refl _)
        behind := h.behind.trans (Nat.le_add_right _ _)
        room := hroom
        count := by rw [List.length_append, h.count, hlength]
        widths := List.forall_mem_append.mpr ⟨h.widths, vectorFrames_width⟩
        written := ?_
        keeps := ?_
        phase := hphase }⟩
      · dsimp only
        rw [mod_advance hend, h.head, h.size]
        split
        · rw [if_pos (by omega)]
        · rw [if_neg (by omega)]
      · rw [List.take_append_of_le_length (h.count ▸ h.behind), ← h.written]
      · dsimp only
        rwa [interleaveSamples_eq, h.head]

theorem Recording.start (h : Recording P x captured got put) :
    Recording P x.start captured got put := by
  rw [AmbixWrite.start]
  split
  · rename_i hstartup
    have hactive : x.state ≠ .stateIdle := by rw [hstartup]; exact nofun
    have hphase := h.phase
    refine { h with phase := ?_ }
    unfold Phase at hphase ⊢
    dsimp only
    cases hchild : x.child with
    | request =>
      rw [hchild] at hphase
      cases hphase with
      | inl hopen => exact Or.inl ⟨hopen.1, nofun, hopen.2.2⟩
      | inr hfinished => exact absurd hfinished.2.1 hactive
    | opening =>
      rw [hchild] at hphase
      cases hphase with
      | inl hbusy => exact Or.inl ⟨hbusy.1, nofun, hbusy.2.2⟩
      | inr hclose => exact absurd hclose.2.1 hactive
    | emptying =>
      rw [hchild] at hphase
      exact Or.inl ⟨(hphase.resolve_right fun hclose => hactive hclose.2).1, nofun⟩
    | splitting size tail n f =>
      rw [hchild] at hphase
      exact ⟨Or.inl ⟨(hphase.1.resolve_right fun hclose => hactive hclose.2).1, nofun⟩, hphase.2⟩
    | closing quit =>
      rw [hchild] at hphase
      exact absurd hphase.2.1 hactive
    | ended => rwa [hchild] at hphase
  · exact h

def inLoop (x : AmbixWrite α) : Bool :=
  match x.child with
  | .emptying | .splitting .. => true
  | _ => false

theorem Recording.stop (h : Recording P x captured got put)
    (htime : x.state = .stateIdle ∨ x.inLoop = true ∨ x.fifohead = 0) :
    Recording P x.stop captured got put := by
  have hphase := h.phase
  -- nothing is in the fifo yet
  have hnone (hloop : x.inLoop = false) (hactive : x.state ≠ .stateIdle) (hgot : got = 0) :
      put = 0 := by
    have hhead := (htime.resolve_left hactive).resolve_left (by rw [hloop]; exact nofun)
    have hroom := h.room
    rw [h.head, Nat.mod_eq_of_lt (by omega)] at hhead
    exact hhead
  refine { h with phase := ?_ }
  have hsame : x.stop.child = x.child := rfl
  unfold Phase at hphase ⊢
  rw [hsame]
  cases hchild : x.child with
  | request =>
    rw [hchild] at hphase
    refine Or.inr ⟨Or.inl rfl, rfl, ?_⟩
    cases hphase with
    | inl hopen =>
      rw [hnone (by rw [inLoop, hchild]) hopen.2.1 hopen.2.2]
      exact hopen.2.2
    | inr hfinished => exact hfinished.2.2
  | opening =>
    rw [hchild] at hphase
    refine Or.inr ⟨rfl, rfl, ?_⟩
    cases hphase with
    | inl hbusy => exact ⟨hbusy.2.2, hnone (by rw [inLoop, hchild]) hbusy.2.1 hbusy.2.2⟩
    | inr hclose => exact hclose.2.2
  | emptying => exact Or.inr ⟨rfl, rfl⟩
  | splitting size tail n f =>
    rw [hchild] at hphase
    exact ⟨Or.inr ⟨rfl, rfl⟩, hphase.2⟩
  | closing quit =>
    rw [hchild] at hphase
    exact ⟨hphase.1, rfl, hphase.2.2⟩
  | ended => rwa [hchild] at hphase

/-! A whole run. -/

def Call.succeeds : Call α → Bool
  | .child false => false
  | _ => true

/-- A tick that does not fill the fifo to the last frame, and a stop that does not come
before the child has opened the file, unless nothing has been captured. -/
def InTime (P : PdObject) (e : Event (AmbixWrite α) (Call α) (List (List α))) : Prop :=
  match e.call with
  | .perform _ => e.state.state = .stateStream → ¬ Overruns P e.state
  | .stop => e.state.state = .stateIdle ∨ e.state.inLoop = true ∨ e.state.fifohead = 0
  | .start | .child _ => True

instance (e : Event (AmbixWrite α) (Call α) (List (List α))) : Decidable (InTime P e) :=
  match e with
  | ⟨x, .perform _, _⟩ => inferInstanceAs (Decidable (x.state = .stateStream → ¬ Overruns P x))
  | ⟨x, .stop, _⟩ =>
    inferInstanceAs (Decidable (x.state = .stateIdle ∨ x.inLoop = true ∨ x.fifohead = 0))
  | ⟨_, .start, _⟩ | ⟨_, .child _, _⟩ => inferInstanceAs (Decidable True)

/-- All frames that ticks have captured. -/
def captures (events : List (Event (AmbixWrite α) (Call α) (List (List α)))) :
    List (List α) := events.flatMap fun e => e.answer

def Rests (x : AmbixWrite α) : Prop := x.child = .request

/-- The file has been closed after a stop. -/
def Done (x : AmbixWrite α) : Prop := x.child = .request ∧ x.requestcode = .requestNothing

theorem Recording.opened (hrests : x.Rests) (hpos : 0 < P.fifosize) :
    Recording P (x.openFile P) [] 0 0 where
  size := rfl
  head := (Nat.zero_mod _).symm
  tail := (Nat.zero_mod _).symm
  vectors := Nat.dvd_zero _
  behind := le_rfl
  room := by omega
  count := rfl
  widths := nofun
  written := rfl
  keeps := Keeps.empty _ _ _ 0
  phase := by
    rw [Phase, show (x.openFile P).child = .request from hrests]
    exact Or.inl ⟨rfl, nofun, rfl⟩

theorem Recording.step (h : Recording P x captured got put) (c : Call α)
    (hsucceeds : c.succeeds = true) (htime : InTime P ⟨x, c, (x.step P c).1⟩) :
    ∃ got' put', Recording P (x.step P c).2 (captured ++ (x.step P c).1) got' put' := by
  cases c with
  | start => exact ⟨got, put, by rw [AmbixWrite.step, List.append_nil]; exact h.start⟩
  | stop => exact ⟨got, put, by rw [AmbixWrite.step, List.append_nil]; exact h.stop htime⟩
  | perform invecs =>
    obtain ⟨put', hnext⟩ := h.perform invecs htime
    exact ⟨got, put', hnext⟩
  | child succeeds =>
    cases succeeds with
    | false => cases hsucceeds
    | true =>
      obtain ⟨got', hnext⟩ := h.childStep
      exact ⟨got', put, by rw [AmbixWrite.step, List.append_nil]; exact hnext⟩

theorem Recording.run {y : AmbixWrite α} (hrests : x.Rests) (hpos : 0 < P.fifosize)
    {events : List (Event (AmbixWrite α) (Call α) (List (List α)))}
    (hrun : Run (fun x c => .ok (x.step P c)) (x.openFile P) events y)
    (hsucceeds : ∀ e ∈ events, e.call.succeeds = true) (htime : ∀ e ∈ events, InTime P e) :
    ∃ got put, Recording P y (captures events) got put := by
  refine hrun.invariant_of (fun e => e.call.succeeds = true ∧ InTime P e)
    (fun events y => ∃ got put, Recording P y (captures events) got put)
    (fun e he => ⟨hsucceeds e he, htime e he⟩) ⟨0, 0, Recording.opened hrests hpos⟩ ?_
  intro events y c a z hcall he h
  obtain ⟨got, put, h⟩ := h
  have hstep : y.step P c = (a, z) := Except.ok.inj hcall
  obtain rfl : (y.step P c).1 = a := congrArg Prod.fst hstep
  obtain rfl : (y.step P c).2 = z := congrArg Prod.snd hstep
  rw [captures, List.flatMap_append, List.flatMap_singleton]
  exact h.step c he.1 he.2

/-! The final drain. -/

def pending (x : AmbixWrite α) (put : Nat) : Nat :=
  match x.child with
  | .request => if x.requestcode = .requestNothing then 0 else 2
  | .opening => 3
  | .emptying => 3*(put-x.file.length)+3
  | .splitting _ _ n f => 3*(put-x.file.length-n)+(n-f)+4
  | .closing _ => 1
  | .ended => 0

theorem Recording.file_length (h : Recording P x captured got put) : x.file.length = got := by
  rw [h.written, List.length_map, List.length_take, h.count, Nat.min_eq_left h.behind]

theorem childStep_state (succeeds : Bool) : (x.childStep P succeeds).state = x.state := by
  rw [childStep]
  cases x.child with
  | request =>
    dsimp only
    split
    · rfl
    · split <;> rfl
    · split <;> rfl
    · rfl
    · rfl
  | opening =>
    dsimp only
    split
    · rfl
    · split <;> rfl
  | emptying =>
    dsimp only
    split
    · split <;> rfl
    · rfl
  | splitting size tail n f =>
    dsimp only
    split
    · rfl
    · split
      · rfl
      · split <;> rfl
  | closing quit => rfl
  | ended => rfl

theorem Recording.pending_request (h : Recording P x captured got put)
    (hchild : x.child = .request) (hidle : x.state = .stateIdle) (hdone : ¬ x.Done) :
    (x.childStep P true).pending put < x.pending put := by
  have hphase := h.phase
  rw [Phase, hchild] at hphase
  cases hphase with
  | inl hopen => exact absurd hidle hopen.2.1
  | inr hfinished =>
    cases hfinished.1 with
    | inl hclose =>
      rw [pending, pending, hchild, AmbixWrite.childStep, hchild]
      dsimp only
      rw [hclose]
      dsimp only
      cases x.handle with
      | true => exact Nat.lt_succ_self 1
      | false => exact Nat.zero_lt_two
    | inr hnothing => exact absurd ⟨hchild, hnothing⟩ hdone

theorem Recording.pending_opening (h : Recording P x captured got put)
    (hchild : x.child = .opening) (hidle : x.state = .stateIdle) :
    (x.childStep P true).pending put < x.pending put := by
  have hphase := h.phase
  rw [Phase, hchild] at hphase
  cases hphase with
  | inl hbusy => exact absurd hidle hbusy.2.1
  | inr hclose =>
    have hcode : x.requestcode ≠ .requestBusy := by rw [hclose.1]; exact nofun
    have hstep : x.childStep P true = { x with child := .request, handle := true } := by
      rw [AmbixWrite.childStep, hchild]
      exact (if_neg nofun).trans (if_pos hcode)
    rw [hstep, pending, pending, hchild]
    dsimp only
    split <;> omega

theorem Recording.pending_emptying (h : Recording P x captured got put)
    (hchild : x.child = .emptying) (hidle : x.state = .stateIdle) :
    (x.childStep P true).pending put < x.pending put := by
  have hphase := h.phase
  rw [Phase, hchild] at hphase
  have hlength := h.file_length
  have hclose := hphase.resolve_left fun hbusy => hbusy.2 hidle
  by_cases heq : x.fifohead = x.fifotail
  · have hgoing : ¬ (x.requestcode = .requestBusy ∨
        (x.requestcode = .requestClose ∧ x.fifohead ≠ x.fifotail)) := by
      rw [hclose.1]
      exact fun hno => hno.elim nofun fun hno => hno.2 heq
    have hstep : x.childStep P true = { x with child := .request } := by
      rw [AmbixWrite.childStep, hchild]
      exact if_neg hgoing
    rw [hstep, pending, pending, hchild]
    dsimp only
    split <;> omega
  · have hstep : x.childStep P true = { x with
        child := .splitting x.fifosize x.fifotail x.writeframes 0
        bufs := ⟨.start x.bufs.ambi.data, .start x.bufs.other.data⟩ } := by
      rw [AmbixWrite.childStep, hchild]
      exact (if_pos (Or.inr ⟨hclose.1, heq⟩)).trans (if_pos (Or.inr (Or.inr ⟨hclose.1, heq⟩)))
    obtain ⟨-, hput, hpos⟩ := h.writeframes
    have hsome := hpos heq
    rw [hstep, pending, pending, hchild]
    dsimp only
    omega

theorem Recording.pending_splitting (h : Recording P x captured got put) {size tail n f : Nat}
    (hchild : x.child = .splitting size tail n f) :
    (x.childStep P true).pending put < x.pending put := by
  have hphase := h.phase
  rw [Phase, hchild] at hphase
  have hlength := h.file_length
  obtain ⟨-, -, -, -, hput, -⟩ := hphase
  by_cases hf : f < n
  · have hstep : x.childStep P true = { x with
        child := .splitting size tail n (f+1)
        bufs := splitFrame (fun i => x.buf (tail*P.channels+i)) P.ambichannels P.xtrachannels f
          x.bufs } := by
      rw [AmbixWrite.childStep, hchild]
      exact if_pos hf
    rw [hstep, pending, pending, hchild]
    dsimp only
    omega
  · obtain ⟨hnext, hemptying⟩ := h.write hchild hf
    have hlonger := hnext.file_length
    rw [pending, pending, hchild, hemptying]
    dsimp only
    omega

/-- Every step after a stop brings the child nearer to its end. -/
theorem Recording.pending_lt (h : Recording P x captured got put) (hidle : x.state = .stateIdle)
    (hdone : ¬ x.Done) : (x.childStep P true).pending put < x.pending put := by
  cases hchild : x.child with
  | request => exact h.pending_request hchild hidle hdone
  | opening => exact h.pending_opening hchild hidle
  | emptying => exact h.pending_emptying hchild hidle
  | splitting size tail n f => exact h.pending_splitting hchild
  | closing quit =>
    have hphase := h.phase
    rw [Phase, hchild] at hphase
    obtain ⟨rfl, -, -⟩ := hphase
    rw [pending, pending, hchild, AmbixWrite.childStep, hchild]
    exact Nat.zero_lt_one
  | ended =>
    have hphase := h.phase
    rw [Phase, hchild] at hphase
    exact hphase.elim

/-- The drain comes to its end. -/
theorem Recording.drains (h : Recording P x captured got put) (hidle : x.state = .stateIdle) :
    ∃ n, ((AmbixWrite.childStep P true)^[n] x).Done := by
  generalize hleft : x.pending put = left
  induction left using Nat.strong_induction_on generalizing x got with
  | _ left ih =>
    by_cases hdone : x.Done
    · exact ⟨0, hdone⟩
    · obtain ⟨got', hnext⟩ := h.childStep
      have hlt := h.pending_lt hidle hdone
      obtain ⟨n, hn⟩ := ih _ (hleft ▸ hlt) hnext ((childStep_state true).trans hidle) rfl
      exact ⟨n+1, hn⟩

/-- The frames of the file are the captured ones in order, a stop is followed by the end of
the drain, and then none is missing. -/
structure RecordsOnce (P : PdObject) (y : AmbixWrite α) (captured : List (List α)) : Prop where
  inOrder : y.file <+: captured.map (fileFrame P)
  drains : y.state = .stateIdle → ∃ n, ((AmbixWrite.childStep P true)^[n] y).Done
  complete : y.Done → y.file = captured.map (fileFrame P)

theorem Recording.records (h : Recording P x captured got put) : RecordsOnce P x captured where
  inOrder := by
    rw [h.written]
    exact (List.take_prefix _ _).map _
  drains := h.drains
  complete hdone := by
    have hphase := h.phase
    rw [Phase, hdone.1] at hphase
    have hall : got = put := by
      cases hphase with
      | inl hopen => exact absurd (hdone.2.symm.trans hopen.1) nofun
      | inr hfinished => exact hfinished.2.2
    rw [h.written, List.take_of_length_le (by rw [h.count, hall])]

theorem recorded_once (P : PdObject) (hpos : 0 < P.fifosize) {x y : AmbixWrite α} (hrests : x.Rests)
    {events : List (Event (AmbixWrite α) (Call α) (List (List α)))}
    (hrun : Run (fun x c => .ok (x.step P c)) (x.openFile P) events y)
    (hsucceeds : ∀ e ∈ events, e.call.succeeds = true) (htime : ∀ e ∈ events, InTime P e) :
    RecordsOnce P y (captures events) := by
  obtain ⟨got, put, h⟩ := Recording.run hrests hpos hrun hsucceeds htime
  exact h.records

theorem captures_perform {cs ds : List (Call α)} {vecs : Nat → Nat → α}
    {before after : List (List α)}
    (hstate : (leadsTo (AmbixWrite.step P) x cs).state = .stateStream)
    (hgoes : ¬ (leadsTo (AmbixWrite.step P) x cs).Waits P)
    (hbefore : captures (trace (AmbixWrite.step P) x cs) = before)
    (hafter : captures (trace (AmbixWrite.step P)
      (leadsTo (AmbixWrite.step P) x (cs ++ [.perform vecs])) ds) = after) :
    captures (trace (AmbixWrite.step P) x (cs ++ .perform vecs :: ds)) =
      before ++ (vectorFrames vecs P.channels P.vecsize ++ after) := by
  have htick : ((leadsTo (AmbixWrite.step P) x cs).perform P vecs).1 =
      vectorFrames vecs P.channels P.vecsize := by
    rw [perform, if_neg (not_not_intro hstate), if_neg hgoes]
  rw [leadsTo_append] at hafter
  rw [trace_append, captures, List.flatMap_append, ← htick, ← hbefore, ← hafter]
  rfl

theorem not_recordsOnce {cs ds : List (Call α)} {vecs : Nat → Nat → α}
    (hstate : (leadsTo (AmbixWrite.step P) x cs).state = .stateStream)
    (hgoes : ¬ (leadsTo (AmbixWrite.step P) x cs).Waits P)
    (hdone : (leadsTo (AmbixWrite.step P) x (cs ++ .perform vecs :: ds)).Done)
    (hnone : (leadsTo (AmbixWrite.step P) x (cs ++ .perform vecs :: ds)).file = []) :
    ¬ RecordsOnce P (leadsTo (AmbixWrite.step P) x (cs ++ .perform vecs :: ds))
      (captures (trace (AmbixWrite.step P) x (cs ++ .perform vecs :: ds))) := by
  intro h
  have hfile := congrArg List.length (h.complete hdone)
  rw [hnone, captures_perform hstate hgoes rfl rfl, List.length_map, List.length_append,
    List.length_append, vectorFrames_length, List.length_nil] at hfile
  have hpos := P.vecsize_pos
  omega

/-- `ambix_write_new`. -/
def newObject [Zero α] (buf : Nat → α) : AmbixWrite α where
  buf := buf
  state := .stateIdle
  requestcode := .requestNothing
  fifosize := 0
  fifohead := 0
  fifotail := 0
  eof := false
  child := .request
  handle := false
  file := []
  bufs := ⟨.start fun _ => 0, .start fun _ => 0⟩

def blockEvents (calls : List (Call Int)) :
    List (Event (AmbixWrite Int) (Call Int) (List (List Int))) :=
  trace (step blockObject) ((newObject fun _ => 0).openFile blockObject) calls

def blockEnd (calls : List (Call Int)) : AmbixWrite Int :=
  leadsTo (step blockObject) ((newObject fun _ => 0).openFile blockObject) calls

/-- Two vectors are captured, the second while the child splits the first, before the stop. -/
def captureCalls : List (Call Int) :=
  [.start, .child true, .child true, .perform fun c f => 4*f+c, .child true, .child true] ++
    .perform (fun c f => -(4*f+c)) :: [.stop]

theorem recorded_once_block : ∃ n,
    (blockEnd (captureCalls ++ List.replicate n (.child true))).Done ∧
    (blockEnd (captureCalls ++ List.replicate n (.child true))).file =
      (captures (blockEvents (captureCalls ++ List.replicate n (.child true)))).map
        (fileFrame blockObject) ∧
    (captures (blockEvents captureCalls)).length = 32768 := by
  have hrecords := recorded_once blockObject (by decide) (x := newObject fun _ => 0) rfl
    (Run.of_calls _ _ captureCalls) (by decide) (by decide)
  obtain ⟨n, hdone⟩ := hrecords.drains rfl
  have hchild (e) (he : e ∈ trace (step blockObject) (blockEnd captureCalls)
      (List.replicate n (.child true))) : e.call = .child true :=
    List.eq_of_mem_replicate (mem_of_mem_trace _ he).1
  have hall := recorded_once blockObject (by decide) (x := newObject fun _ => 0) rfl
    (Run.of_calls _ _ (captureCalls ++ List.replicate n (.child true)))
    (by
      rw [trace_append, List.forall_mem_append]
      exact ⟨by decide, fun e he => by rw [hchild e he]; rfl⟩)
    (by
      rw [trace_append, List.forall_mem_append]
      exact ⟨by decide, fun e he => by rw [InTime, hchild e he]; trivial⟩)
  have hend : (blockEnd (captureCalls ++ List.replicate n (.child true))).Done := by
    rw [blockEnd, leadsTo_append, leadsTo_replicate]
    exact hdone
  refine ⟨n, hend, hall.complete hend, ?_⟩
  have hfirst : captures (blockEvents ([.start, .child true, .child true] ++
      .perform (fun c f => 4*f+c) :: [.child true, .child true])) = [] ++ (_ ++ []) :=
    captures_perform rfl (by decide) rfl rfl
  have hsecond : captures (blockEvents captureCalls) = [] ++ (_ ++ []) ++ (_ ++ []) :=
    captures_perform rfl (by decide) hfirst rfl
  rw [hsecond]
  simp [blockObject]

/-- Four vectors fill the fifo and are lost in it; and a vector is lost when the stop comes
before the child has looked at the request. -/
theorem recorded_once_fails :
    (∃ events y, Run (fun x c => .ok (x.step blockObject c))
        ((newObject fun _ => 0).openFile blockObject) events y ∧
      (∀ e ∈ events, e.call.succeeds = true) ∧
      ¬ RecordsOnce blockObject y (captures (α := Int) events)) ∧
    ∃ events y, Run (fun x c => .ok (x.step blockObject c))
        ((newObject fun _ => 0).openFile blockObject) events y ∧
      (∀ e ∈ events, e.call.succeeds = true) ∧
      ¬ RecordsOnce blockObject y (captures (α := Int) events) := by
  constructor
  · exact ⟨_, _, Run.of_calls _ _ ([.start, .child true, .child true] ++
      .perform (fun _ _ => 7) :: [.perform fun _ _ => 8, .perform fun _ _ => 9,
        .perform fun _ _ => 10, .stop, .child true, .child true, .child true]), by decide,
      not_recordsOnce rfl (by decide) ⟨rfl, rfl⟩ rfl⟩
  · exact ⟨_, _, Run.of_calls _ _ ([.start] ++ .perform (fun _ _ => 7) :: [.stop, .child true]),
      by decide, not_recordsOnce rfl (by decide) ⟨rfl, rfl⟩ rfl⟩

end AmbixWrite
end Ambix
