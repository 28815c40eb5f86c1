import Ambix.PdReadAnswers

/-! Ticks of ambix_read~.c that wait. The child feeds the fifo, or comes to the end of the file,
within so many steps; but after a read that fails it does neither. -/
namespace Ambix
open Machine
namespace AmbixRead
variable {α : Type} [Zero α] {B : SampleBytes α} (P : PdObject) {s : Threads α}

omit [Zero α] in
def Room (x : AmbixRead α) : Prop :=
  match x.child with
  | .feeding => x.fifosize = P.fifosize ∧ x.fifohead < P.fifosize
  | .reading size _ want =>
    x.fifosize = P.fifosize ∧ size = P.fifosize ∧ 0 < want ∧ x.fifohead+want ≤ P.fifosize
  | .merging size _ n _ =>
    x.fifosize = P.fifosize ∧ size = P.fifosize ∧ 0 < n ∧ x.fifohead+n ≤ P.fifosize
  | _ => True

omit [Zero α] in
structure Supplies (s : Threads α) : Prop where
  tail : s.object.fifotail < P.fifosize
  size : s.object.fifosize ≤ P.fifosize
  room : s.object.requestcode = .requestBusy → s.object.Room P
  stuck : ¬ s.object.Stuck
  stopped : s.object.requestcode = .requestClose → s.object.state = .stateIdle
  nothing : s.object.requestcode = .requestNothing →
    s.object.child = .request ∨ s.object.child = .closing ∨ s.object.child = .ended

variable {P}

omit [Zero α] in
theorem wantframes_room {size head tail want : Nat} (h : wantframes size head tail = some want)
    (hhead : head < size) (htail : tail < size) : 0 < want ∧ head+want ≤ size := by
  unfold wantframes readFrames at h
  split at h
  · split at h
    · cases h
      split <;> omega
    · cases h
  · split at h
    · cases h
    · cases h
      omega

omit [Zero α] in
theorem Supplies.lost (h : Supplies P s) {x : AmbixRead α} (htail : x.fifotail = s.object.fifotail)
    (hsize : x.fifosize ≤ P.fifosize) (hstate : x.state = s.object.state)
    (hcode : x.requestcode = s.object.requestcode) : Supplies P ⟨x.lost, s.parent⟩ := by
  refine ⟨htail.trans_lt h.tail, hsize, ?_, lost_not_stuck, ?_, fun _ => Or.inr (Or.inl rfl)⟩
  · by_cases hbusy : x.requestcode = .requestBusy <;> simp [AmbixRead.lost, hbusy]
  · intro hclose
    by_cases hbusy : x.requestcode = .requestBusy
    · simp [AmbixRead.lost, hbusy] at hclose
    · rw [AmbixRead.lost] at hclose
      simp only [hbusy, if_false] at hclose
      exact hstate.trans (h.stopped (hcode.symm.trans hclose))

omit [Zero α] in
def Works (x : AmbixRead α) : Prop :=
  x.child ≠ .request ∧ x.child ≠ .closing ∧ x.child ≠ .ended

omit [Zero α] in
theorem Supplies.goesOn (h : Supplies P s) (hworks : s.object.Works) {x : AmbixRead α}
    (hnext : x.Works) (htail : x.fifotail = s.object.fifotail) (hsize : x.fifosize ≤ P.fifosize)
    (hstate : x.state = s.object.state) (hcode : x.requestcode = s.object.requestcode)
    (hroom : s.object.requestcode = .requestBusy → x.Room P) : Supplies P ⟨x, s.parent⟩ where
  tail := htail.trans_lt h.tail
  size := hsize
  room hbusy := hroom (hcode.symm.trans hbusy)
  stuck hstuck := hstuck.1.elim hnext.1 hnext.2.1
  stopped hclose := hstate.trans (h.stopped (hcode.symm.trans hclose))
  nothing hnothing := by
    cases h.nothing (hcode.symm.trans hnothing) with
    | inl hrequest => exact absurd hrequest hworks.1
    | inr hrests =>
      cases hrests with
      | inl hclosing => exact absurd hclosing hworks.2.1
      | inr hended => exact absurd hended hworks.2.2

theorem Supplies.childStep (h : Supplies P s) (answer : Option Nat) :
    Supplies P { s with object := s.object.childStep B P answer } := by
  have hroom := h.room
  cases hplace : s.object.child with
  | request =>
    cases hcode : s.object.requestcode with
    | requestOpen =>
      simp only [AmbixRead.childStep, hplace, hcode]
      exact ⟨h.tail, h.size, fun _ => trivial, by simp [Stuck], by simp, by simp⟩
    | requestClose =>
      simp only [AmbixRead.childStep, hplace, hcode]
      exact ⟨h.tail, h.size, by simp, by simp [Stuck], by simp, by simp⟩
    | requestQuit =>
      simp only [AmbixRead.childStep, hplace, hcode]
      exact ⟨h.tail, h.size, by simp, by simp [Stuck], by simp, by simp⟩
    | requestNothing => simpa only [AmbixRead.childStep, hplace, hcode] using h
    | requestBusy => simpa only [AmbixRead.childStep, hplace, hcode] using h
  | opening file =>
    have hworks : s.object.Works := by simp [Works, hplace]
    simp only [AmbixRead.childStep, hplace]
    cases answer with
    | none => exact h.lost rfl h.size rfl rfl
    | some n =>
      by_cases hbusy : s.object.requestcode = .requestBusy
      · simp only [opened, hbusy, ne_eq, not_true, if_false]
        refine h.goesOn hworks (by simp [Works]) rfl le_rfl rfl hbusy.symm fun _ => ⟨rfl, ?_⟩
        exact Nat.zero_lt_of_lt h.tail
      · simp only [opened, hbusy, ne_eq, not_false_eq_true, if_true]
        exact h.lost rfl h.size rfl rfl
  | feeding =>
    have hworks : s.object.Works := by simp [Works, hplace]
    simp only [AmbixRead.childStep, hplace]
    split
    · exact h.lost rfl h.size rfl rfl
    · split
      · exact h
      · next want hwant =>
        refine h.goesOn hworks (by simp [Works]) rfl h.size rfl rfl fun hbusy => ?_
        have hfeeding := hroom hbusy
        simp only [Room, hplace] at hfeeding
        have htail := h.tail
        obtain ⟨hpos, hend⟩ := wantframes_room hwant (by omega) (by omega)
        exact ⟨hfeeding.1, hfeeding.1, hpos, by dsimp only; omega⟩
  | reading size head want =>
    have hworks : s.object.Works := by simp [Works, hplace]
    simp only [AmbixRead.childStep, hplace]
    cases answer with
    | none => exact h.lost rfl h.size rfl rfl
    | some n =>
      dsimp only
      split
      · next hpos =>
        refine h.goesOn hworks (by simp [Works]) rfl h.size rfl rfl fun hbusy => ?_
        have hreading := hroom hbusy
        simp only [Room, hplace] at hreading
        have hblock := delivery_le s.object n want
        exact ⟨hreading.1, hreading.2.1, hpos, by simp only [readf]; omega⟩
      · split
        · exact h.lost rfl h.size rfl rfl
        · exact h.lost rfl h.size rfl rfl
  | merging size head n f =>
    have hworks : s.object.Works := by simp [Works, hplace]
    simp only [AmbixRead.childStep, hplace]
    split
    · refine h.goesOn hworks (by simp [Works]) rfl h.size rfl rfl fun hbusy => ?_
      have hmerging := hroom hbusy
      simpa only [Room, hplace] using hmerging
    · split
      · exact h.lost rfl h.size rfl rfl
      · refine h.goesOn hworks (by simp [Works]) rfl h.size rfl rfl fun hbusy => ?_
        have hmerging := hroom hbusy
        simp only [Room, hplace] at hmerging
        refine ⟨hmerging.1, ?_⟩
        dsimp only
        split <;> omega
  | closing =>
    simp only [AmbixRead.childStep, hplace]
    have hbusy : s.object.requestcode ≠ .requestBusy := fun hbusy => h.stuck ⟨Or.inr hplace, hbusy⟩
    exact ⟨h.tail, h.size, fun hbusy' => absurd hbusy' hbusy, fun hstuck => hbusy hstuck.2,
      h.stopped, fun _ => Or.inl rfl⟩
  | ended => simpa only [AmbixRead.childStep, hplace] using h

omit [Zero α] in
theorem Supplies.audio (h : Supplies P s) {x : AmbixRead α} (hchild : x.child = s.object.child)
    (hcode : x.requestcode = s.object.requestcode) (htail : x.fifotail < P.fifosize)
    (hfifo : x.fifosize = s.object.fifosize ∧ x.fifohead = s.object.fifohead)
    (hstate : s.object.state = .stateIdle → x.state = .stateIdle) :
    Supplies P ⟨x, s.parent⟩ where
  tail := htail
  size := hfifo.1.trans_le h.size
  room hbusy := by
    have hroom := h.room (hcode.symm.trans hbusy)
    simpa only [Room, hchild, hfifo.1, hfifo.2] using hroom
  stuck := by simpa only [Stuck, hchild, hcode] using h.stuck
  stopped hclose := hstate (h.stopped (hcode.symm.trans hclose))
  nothing := by simpa only [hchild, hcode] using h.nothing

omit [Zero α] in
theorem Supplies.play_tail (h : Supplies P s) :
    (if s.object.fifotail+P.vecsize ≥ s.object.fifosize then 0
      else s.object.fifotail+P.vecsize) < P.fifosize := by
  have htail := h.tail
  have hsize := h.size
  split <;> omega

theorem Supplies.perform (h : Supplies P s) (outvecs : Nat → Nat → α) :
    Supplies P { s with object := (s.object.perform P outvecs).2 } := by
  unfold AmbixRead.perform
  split
  · exact h
  · split
    · exact h.audio rfl rfl h.tail ⟨rfl, rfl⟩ id
    · split
      · exact h.audio rfl rfl h.tail ⟨rfl, rfl⟩ fun _ => rfl
      · exact h.audio rfl rfl h.play_tail ⟨rfl, rfl⟩ id

theorem Supplies.call {c : Call α} (h : Supplies P s) (hc : c.isChild = false) :
    Supplies P { s with object := (s.object.step B P c).2 } := by
  cases c with
  | child answer => cases hc
  | start =>
    dsimp only [step]
    by_cases hwaiting : s.object.waiting = true
    · rwa [if_pos hwaiting]
    · rw [if_neg hwaiting, start]
      split
      · next hstartup =>
        refine h.audio rfl rfl h.tail ⟨rfl, rfl⟩ fun hidle => ?_
        cases hstartup.symm.trans hidle
      · exact h
  | stop =>
    dsimp only [step]
    by_cases hwaiting : s.object.waiting = true
    · rwa [if_pos hwaiting]
    · rw [if_neg hwaiting]
      exact ⟨h.tail, h.size, by simp [stop], by simp [Stuck, stop], fun _ => rfl, by simp [stop]⟩
  | tick =>
    dsimp only [step]
    by_cases hwaiting : s.object.waiting = true
    · rwa [if_pos hwaiting]
    · rw [if_neg hwaiting]
      exact h.audio rfl rfl h.tail ⟨rfl, rfl⟩ id
  | perform outvecs => exact h.perform outvecs

theorem Supplies.act (h : Supplies P s) (a : Action α) : Supplies P (s.act B P a) := by
  have hpos : 0 < P.fifosize := Nat.zero_lt_of_lt h.tail
  cases a with
  | openFile file =>
    by_cases hwaits : s.parent ≠ .ready ∨ s.object.waiting
    · have hact : s.act B P (.openFile file) = s := if_pos hwaits
      rwa [hact]
    · cases file with
      | none =>
        have hact : s.act B P (.openFile none) = s := if_neg hwaits
        rwa [hact]
      | some file =>
        have hact : s.act B P (.openFile (some file)) =
            { s with object := s.object.openFile file } := if_neg hwaits
        rw [hact]
        exact ⟨hpos, h.size, by simp [openFile], by simp [Stuck, openFile], by simp [openFile],
          by simp [openFile]⟩
  | free =>
    by_cases hwaits : s.parent ≠ .ready ∨ s.object.waiting
    · rwa [Threads.act, if_pos hwaits]
    · rw [Threads.act, if_neg hwaits]
      exact ⟨h.tail, h.size, by simp, by simp [Stuck], by simp, by simp⟩
  | wake =>
    by_cases hwaits : s.object.requestcode ≠ .requestNothing ∨ s.parent ≠ .freeing
    · rwa [Threads.act, if_pos hwaits]
    · rw [Threads.act, if_neg hwaits]
      exact ⟨h.tail, h.size, h.room, h.stuck, h.stopped, h.nothing⟩
  | call c =>
    by_cases hwaits : s.parent ≠ .ready ∧ c.isChild = false
    · rwa [Threads.act, if_pos hwaits]
    · rw [Threads.act, if_neg hwaits]
      cases c with
      | child answer => exact h.childStep answer
      | start => exact h.call rfl
      | stop => exact h.call rfl
      | tick => exact h.call rfl
      | perform outvecs => exact h.call rfl

theorem Supplies.newObject (hpos : 0 < P.fifosize) (buf : Nat → α) :
    Supplies P ⟨AmbixRead.newObject buf, .ready⟩ := by
  constructor <;> simp [AmbixRead.newObject, hpos, Stuck]

theorem Supplies.run {buf : Nat → α} {events : List (Event (Threads α) (Action α) Unit)}
    (hpos : 0 < P.fifosize)
    (hrun : Threads.Runs B P ⟨AmbixRead.newObject buf, .ready⟩ events s) : Supplies P s := by
  apply hrun.preserves (Supplies P) (Supplies.newObject hpos buf)
  intro t a _ u hstep h
  rw [← answered_state hstep]
  exact h.act a

/-! Steps until a tick goes on. -/

omit [Zero α] in
variable (P) in
/-- The test of the loop in which a tick waits. -/
def Hungers (x : AmbixRead α) : Prop := x.eof = false ∧ x.Hungry P

omit [Zero α] in
/-- Nothing is being done any more, and the end of the file has not been found. -/
def Lost (x : AmbixRead α) : Prop := x.requestcode = .requestNothing ∧ x.eof = false

omit [Zero α] in
variable (P) in
/-- Steps of the child until the fifo is not hungry, at most. A frame may come alone. -/
def tickSteps (x : AmbixRead α) : Nat :=
  let whole := (readFrames+3)*(P.vecsize-1)
  let lacking := x.fifotail+P.vecsize-1-x.fifohead
  if x.requestcode = .requestOpen then
    match x.child with
    | .request => whole+2
    | .closing => whole+3
    | .opening _ | .feeding => whole+4
    | .merging _ _ n f => n-f+(whole+4)
    | .reading _ _ want => want+(whole+5)
    | .ended => 0
  else
    match x.child with
    | .opening _ => whole+1
    | .feeding => (readFrames+3)*lacking
    | .reading _ _ want => want+2+(readFrames+3)*(lacking-1)
    | .merging _ _ n f => n-f+1+(readFrames+3)*(lacking-n)
    | .request | .closing | .ended => 0

theorem childStep_opens {x : AmbixRead α} (hcode : x.requestcode = .requestOpen)
    (hlives : x.child ≠ .ended) (answer : Option Nat) :
    ((x.childStep B P answer).requestcode = .requestOpen ∨
        (x.childStep B P answer).requestcode = .requestBusy) ∧
      (x.childStep B P answer).tickSteps P < x.tickSteps P := by
  cases hplace : x.child with
  | request => simp [childStep, hplace, hcode, tickSteps]
  | opening file =>
    cases answer with
    | none => simp [childStep, hplace, hcode, lost, tickSteps]
    | some n => simp [childStep, opened, hplace, hcode, lost, tickSteps]
  | feeding => simp [childStep, hplace, hcode, lost, tickSteps]
  | reading size head want =>
    cases answer with
    | none => simp [childStep, hplace, hcode, lost, tickSteps]; omega
    | some n =>
      have hblock := delivery_le x n want
      by_cases hpos : (x.delivery n want).length > 0
      · simp only [childStep, hplace, hpos, if_true, readf, hcode, tickSteps]
        exact ⟨Or.inl trivial, by omega⟩
      · simp [childStep, hplace, hpos, hcode, lost, tickSteps]
        omega
  | merging size head n f =>
    by_cases hpass : f < n
    · simp only [childStep, hplace, hpass, if_true, hcode, tickSteps]
      exact ⟨Or.inl trivial, by omega⟩
    · simp [childStep, hplace, hpass, hcode, lost, tickSteps]
      omega
  | closing => simp [childStep, hplace, hcode, tickSteps]
  | ended => exact absurd hplace hlives

omit [Zero α] in
theorem wantframes_hungry {x : AmbixRead α} (hfifo : readFrames+P.vecsize ≤ P.fifosize)
    (hhungry : x.Hungry P) :
    ∃ want, wantframes P.fifosize x.fifohead x.fifotail = some want ∧ want ≤ readFrames := by
  obtain ⟨hahead, hnear⟩ := hhungry
  have hroom : x.fifotail ≠ 0 ∨ P.fifosize-x.fifohead > readFrames := by
    by_cases htail : x.fifotail = 0
    · exact Or.inr (by omega)
    · exact Or.inl htail
  refine ⟨_, by rw [wantframes, if_pos hahead, if_pos hroom], ?_⟩
  split <;> omega

theorem Supplies.feeds (h : Supplies P s) (ht : Orderly s)
    (hfifo : readFrames+P.vecsize ≤ P.fifosize) (hready : s.parent = .ready)
    (hbusy : s.object.requestcode = .requestBusy) (hhungers : s.object.Hungers P) (n : Nat) :
    let x := s.object.childStep B P (some n)
    (x.requestcode = .requestBusy ∧ (¬ x.Hungers P ∨ x.tickSteps P < s.object.tickSteps P)) ∨
      x.eof = true := by
  obtain ⟨heof, hhungry⟩ := hhungers
  have hroom := h.room hbusy
  intro x
  cases hplace : s.object.child with
  | request => exact absurd ⟨Or.inl hplace, hbusy⟩ h.stuck
  | closing => exact absurd ⟨Or.inr hplace, hbusy⟩ h.stuck
  | ended => exact absurd hready (ht.ended hplace)
  | opening file =>
    have hx : x = { s.object with
        handle := file, position := 0, ambibuf := fun _ => 0, xtrabuf := fun _ => 0
        infoMatrix := file.hasMatrix || s.object.infoMatrix
        infoAmbix := true
        buf := B.memset s.object.buf (P.bufframes*P.channels)
        fifohead := 0
        fifosize := P.fifosize
        child := .feeding } := by
      simp [x, AmbixRead.childStep, opened, hplace, hbusy]
    rw [hx]
    refine Or.inl ⟨hbusy, ?_⟩
    by_cases htail : s.object.fifotail = 0
    · right
      simp [tickSteps, hplace, hbusy, htail]
    · left
      rintro ⟨-, hstill, -⟩
      exact htail (Nat.le_zero.mp hstill)
  | feeding =>
    simp only [Room, hplace] at hroom
    obtain ⟨want, hwant, hmost⟩ := wantframes_hungry hfifo hhungry
    have hx : x = { s.object with
        child := .reading s.object.fifosize s.object.fifohead want } := by
      simp [x, AmbixRead.childStep, hplace, hbusy, heof, hroom.1, hwant]
    rw [hx]
    refine Or.inl ⟨hbusy, Or.inr ?_⟩
    obtain ⟨k, hk⟩ : ∃ k, s.object.fifotail+P.vecsize-1-s.object.fifohead = k+1 :=
      Nat.exists_eq_add_one.mpr (Nat.sub_pos_of_lt hhungry.2)
    simp only [tickSteps, hplace, hbusy, hk, Nat.mul_succ, Nat.add_sub_cancel, reduceCtorEq,
      if_false]
    omega
  | reading size head want =>
    have hblock := delivery_le s.object n want
    by_cases hpos : (s.object.delivery n want).length > 0
    · have hx : x = { s.object.readf (s.object.delivery n want) with
          child := .merging size head (s.object.delivery n want).length 0 } := by
        simp [x, AmbixRead.childStep, hplace, hpos]
      rw [hx]
      refine Or.inl ⟨hbusy, Or.inr ?_⟩
      have hless : (readFrames+3)*(s.object.fifotail+P.vecsize-1-s.object.fifohead-
          (s.object.delivery n want).length) ≤
            (readFrames+3)*(s.object.fifotail+P.vecsize-1-s.object.fifohead-1) :=
        Nat.mul_le_mul_left _ (by omega)
      simp only [tickSteps, readf, hplace, hbusy, reduceCtorEq, if_false]
      omega
    · right
      simp [x, AmbixRead.childStep, hplace, hpos, hbusy, AmbixRead.lost]
  | merging size head m f =>
    simp only [Room, hplace] at hroom
    have hmost := ht.merging _ _ _ _ hplace
    obtain ⟨-, rfl, hpos, hend⟩ := hroom
    by_cases hpass : f < m
    · have hx : x.requestcode = .requestBusy ∧ x.tickSteps P < s.object.tickSteps P := by
        simp only [x, AmbixRead.childStep, hplace, hpass, if_true, tickSteps, hbusy, reduceCtorEq,
          if_false, true_and]
        omega
      exact Or.inl ⟨hx.1, Or.inr hx.2⟩
    · have hx : x = { s.object with
          fifohead := if s.object.fifohead+m = P.fifosize then 0 else s.object.fifohead+m
          child := .feeding } := by
        simp [x, AmbixRead.childStep, hplace, hpass, hbusy]
      rw [hx]
      refine Or.inl ⟨hbusy, ?_⟩
      by_cases hlast : s.object.fifohead+m = P.fifosize
      · -- The fifo is full up to its end, which is not so in front of a tail at its start.
        left
        rintro ⟨-, hstill, -⟩
        obtain ⟨-, hnear⟩ := hhungry
        simp only [hlast, if_true] at hstill
        omega
      · right
        simp only [tickSteps, hplace, hbusy, hlast, reduceCtorEq, if_false]
        rw [← Nat.sub_sub]
        omega

omit [Zero α] in
theorem tickSteps_le {s : Threads α} (ht : Orderly s) (hhungry : s.object.Hungry P) :
    s.object.tickSteps P ≤ (readFrames+3)*P.vecsize+2 := by
  obtain ⟨hahead, hnear⟩ := hhungry
  obtain ⟨v, hv⟩ : ∃ v, P.vecsize = v+1 := Nat.exists_eq_add_one.mpr P.vecsize_pos
  have hmost {k : Nat} (hk : k ≤ v) : (readFrames+3)*k ≤ (readFrames+3)*v :=
    Nat.mul_le_mul_left _ hk
  have hlacking (n : Nat) : (readFrames+3)*(s.object.fifotail+P.vecsize-1-s.object.fifohead-n) ≤
      (readFrames+3)*v := hmost (by omega)
  have hwhole : (readFrames+3)*P.vecsize = (readFrames+3)*v+(readFrames+3) := by
    rw [hv, Nat.mul_succ]
  have hbefore : (readFrames+3)*(P.vecsize-1) = (readFrames+3)*v := by rw [hv, Nat.add_sub_cancel]
  simp only [tickSteps, hwhole, hbefore]
  cases hplace : s.object.child with
  | reading size head want =>
    have hread := ht.reading _ _ _ hplace
    have hone := hlacking 1
    split <;> (dsimp only; omega)
  | merging size head n f =>
    have hmerge := ht.merging _ _ _ _ hplace
    have hn := hlacking n
    split <;> (dsimp only; omega)
  | feeding =>
    have hzero := hlacking 0
    rw [Nat.sub_zero] at hzero
    split <;> (dsimp only; omega)
  | request => split <;> (dsimp only; omega)
  | opening file => split <;> (dsimp only; omega)
  | closing => split <;> (dsimp only; omega)
  | ended => split <;> (dsimp only; omega)

theorem perform_waits {x : AmbixRead α} (hwaiting : x.waiting = true)
    (outvecs : Nat → Nat → α) : (x.perform P outvecs).1 = .none ↔ x.Hungers P := by
  have hstreams : x.Streams := Or.inl hwaiting
  rw [perform, if_neg (not_not_intro hstreams)]
  by_cases hhungers : x.eof = false ∧ x.Hungry P
  · simp only [hhungers, and_self, if_true]
    exact iff_of_true trivial hhungers
  · rw [if_neg hhungers]
    refine iff_of_false ?_ hhungers
    split
    · simp [drain]
    · simp [play]

/-- What a tick that waits finds. -/
structure Waits (P : PdObject) (s : Threads α) : Prop where
  orderly : Orderly s
  supplies : Supplies P s
  waiting : s.object.waiting = true
  found : ¬ s.object.Lost

theorem Waits.childStep (h : Waits P s) (hfifo : readFrames+P.vecsize ≤ P.fifosize)
    (hhungers : s.object.Hungers P) (n : Nat) :
    Waits P { s with object := s.object.childStep B P (some n) } ∧
      (¬ (s.object.childStep B P (some n)).Hungers P ∨
        (s.object.childStep B P (some n)).tickSteps P < s.object.tickSteps P) := by
  obtain ⟨hstream, hready⟩ := h.orderly.waiting h.waiting
  have horderly := h.orderly.childStep (B := B) (P := P) (some n)
  have hsupplies := h.supplies.childStep (B := B) (some n)
  have hwaiting := (childStep_audio (B := B) (P := P) (x := s.object) (some n)).2.trans h.waiting
  cases hcode : s.object.requestcode with
  | requestNothing => exact absurd ⟨hcode, hhungers.1⟩ h.found
  | requestClose => cases hstream.symm.trans (h.supplies.stopped hcode)
  | requestQuit => cases hready.symm.trans (h.orderly.quits hcode)
  | requestOpen =>
    have hlives : s.object.child ≠ .ended := fun hended => h.orderly.ended hended hready
    obtain ⟨hnext, hless⟩ := childStep_opens (B := B) (P := P) hcode hlives (some n)
    refine ⟨⟨horderly, hsupplies, hwaiting, fun hlost => ?_⟩, Or.inr hless⟩
    have hnothing : (s.object.childStep B P (some n)).requestcode = .requestNothing := hlost.1
    simp [hnothing] at hnext
  | requestBusy =>
    cases h.supplies.feeds (B := B) h.orderly hfifo hready hcode hhungers n with
    | inl hbusy =>
      refine ⟨⟨horderly, hsupplies, hwaiting, fun hlost => ?_⟩, hbusy.2⟩
      cases hbusy.1.symm.trans hlost.1
    | inr heof =>
      refine ⟨⟨horderly, hsupplies, hwaiting, fun hlost => ?_⟩, Or.inl fun hstill => ?_⟩
      · cases heof.symm.trans hlost.2
      · cases heof.symm.trans hstill.1

/-- A tick that waits does not do so for long, unless the child has given up. -/
theorem Waits.goes_on (h : Waits P s) (hfifo : readFrames+P.vecsize ≤ P.fifosize)
    {answers : List Nat} (hlong : (readFrames+3)*P.vecsize+3 ≤ answers.length) :
    ∃ k ≤ (readFrames+3)*P.vecsize+3,
      (s.childSteps B P ((answers.take k).map some)).object.waiting = true ∧
        ¬ (s.childSteps B P ((answers.take k).map some)).object.Hungers P := by
  by_cases hhungers : s.object.Hungers P
  · have hfew := tickSteps_le h.orderly hhungers.2
    have happroaches : Approaches (fun (t : Threads α) n => t.act B P (.call (.child (some n))))
        (fun _ => True) (Waits P) (fun t => ¬ t.object.Hungers P)
        (fun t => t.object.tickSteps P+1) := by
      refine ⟨fun t n _ ht hstill => ?_, fun t _ hzero => absurd hzero (Nat.succ_ne_zero _)⟩
      rw [Threads.act_child]
      obtain ⟨hnext, hless⟩ := ht.childStep (B := B) hfifo (not_not.mp hstill) n
      exact ⟨hnext, hless.imp_right Nat.succ_lt_succ⟩
    obtain ⟨k, hk, ht, hfed⟩ := happroaches.within h (fun _ _ => trivial)
      ((Nat.succ_le_succ hfew).trans hlong)
    refine ⟨k, hk.trans (Nat.succ_le_succ hfew), ?_⟩
    rw [Threads.childSteps, List.foldl_map]
    exact ⟨ht.waiting, hfed⟩
  · exact ⟨0, Nat.zero_le _, h.waiting, hhungers⟩

theorem Threads.childSteps_lost (hcode : s.object.requestcode = .requestNothing)
    (hhungers : s.object.Hungers P)
    (hplace : s.object.child = .request ∨ s.object.child = .closing ∨ s.object.child = .ended)
    (answers : List (Option Nat)) :
    (s.childSteps B P answers).object.waiting = s.object.waiting ∧
      (s.childSteps B P answers).object.Hungers P := by
  induction answers generalizing s with
  | nil => exact ⟨rfl, hhungers⟩
  | cons answer answers ih =>
    rw [Threads.childSteps, List.foldl_cons, Threads.act_child]
    rcases hplace with hrequest | hclosing | hended
    · have hstep : s.object.childStep B P answer = s.object := by
        simp only [childStep, hrequest, hcode]
      rw [hstep]
      exact ih hcode hhungers (Or.inl hrequest)
    · have hstep : s.object.childStep B P answer = { s.object with child := .request } := by
        simp only [childStep, hclosing]
      rw [hstep]
      exact ih hcode hhungers (Or.inl rfl)
    · have hstep : s.object.childStep B P answer = s.object := by
        simp only [childStep, hended]
      rw [hstep]
      exact ih hcode hhungers (Or.inr (Or.inr hended))

omit [Zero α] in
/-- `ambix_readf_float32` is about to fail, while no other request has been made. -/
def ReadFails (x : AmbixRead α) (c : Call α) : Prop :=
  c = .child none ∧ x.requestcode = .requestBusy ∧
    ∃ size head want, x.child = .reading size head want

omit [Zero α] in
theorem lost_found {x : AmbixRead α} (h : ¬ x.Lost) (hbusy : x.requestcode ≠ .requestBusy) :
    ¬ x.lost.Lost := by
  simpa [lost, Lost, hbusy] using h

theorem childStep_found {x : AmbixRead α} (h : ¬ x.Lost) (hclose : x.requestcode ≠ .requestClose)
    (hquit : x.requestcode ≠ .requestQuit) {answer : Option Nat}
    (hreads : ¬ x.ReadFails (.child answer)) : ¬ (x.childStep B P answer).Lost := by
  cases hplace : x.child with
  | request =>
    cases hcode : x.requestcode with
    | requestOpen => simp [childStep, hplace, hcode, Lost]
    | requestClose => exact absurd hcode hclose
    | requestQuit => exact absurd hcode hquit
    | requestNothing => simpa only [childStep, hplace, hcode] using h
    | requestBusy => simpa only [childStep, hplace, hcode] using h
  | opening file =>
    cases answer with
    | none => simp [childStep, hplace, lost, Lost]
    | some n =>
      by_cases hbusy : x.requestcode = .requestBusy
      · simp [childStep, opened, hplace, hbusy, Lost]
      · simpa [childStep, opened, hplace, hbusy, lost, Lost] using h
  | feeding =>
    simp only [childStep, hplace]
    split
    · next hleaves =>
      cases hleaves with
      | inl hbusy => exact lost_found h hbusy
      | inr heof => simp [lost, Lost, heof]
    · split
      · exact h
      · exact h
  | reading size head want =>
    simp only [childStep, hplace]
    cases answer with
    | none =>
      apply lost_found h
      exact fun hbusy => hreads ⟨rfl, hbusy, _, _, _, hplace⟩
    | some n =>
      dsimp only
      split
      · exact h
      · split
        · next hbusy => exact lost_found h hbusy
        · simp [lost, Lost]
  | merging size head n f =>
    simp only [childStep, hplace]
    split
    · exact h
    · split
      · next hbusy => exact lost_found h hbusy
      · exact h
  | closing =>
    simp only [childStep, hplace]
    exact h
  | ended => simpa only [childStep, hplace] using h

/-- A file that is being played has not been given up. -/
def Threads.Found (s : Threads α) : Prop :=
  s.parent = .ready → s.object.state ≠ .stateIdle → ¬ s.object.Lost

theorem step_found {c : Call α} {x : AmbixRead α} (hc : c.isChild = false)
    (h : x.state ≠ .stateIdle → ¬ x.Lost) (hstate : (x.step B P c).2.state ≠ .stateIdle) :
    ¬ (x.step B P c).2.Lost := by
  cases c with
  | child answer => cases hc
  | start =>
    by_cases hwaiting : x.waiting = true
    · rw [step, if_pos hwaiting] at hstate ⊢
      exact h hstate
    · rw [step, if_neg hwaiting] at hstate ⊢
      by_cases hstartup : x.state = .stateStartup
      · rw [start, if_pos hstartup]
        exact h (by simp [hstartup])
      · rw [start, if_neg hstartup] at hstate ⊢
        exact h hstate
  | stop =>
    by_cases hwaiting : x.waiting = true
    · rw [step, if_pos hwaiting] at hstate ⊢
      exact h hstate
    · rw [step, if_neg hwaiting] at hstate
      exact absurd rfl hstate
  | tick =>
    by_cases hwaiting : x.waiting = true
    · rw [step, if_pos hwaiting] at hstate ⊢
      exact h hstate
    · rw [step, if_neg hwaiting] at hstate ⊢
      exact h hstate
  | perform outvecs =>
    by_cases hstreams : ¬ x.Streams
    · rw [step, perform, if_pos hstreams] at hstate ⊢
      exact h hstate
    · by_cases hhungers : x.eof = false ∧ x.Hungry P
      · rw [step, perform, if_neg hstreams, if_pos hhungers] at hstate ⊢
        exact h hstate
      · by_cases hdrains : x.eof = true ∧ x.Hungry P
        · rw [step, perform, if_neg hstreams, if_neg hhungers, if_pos hdrains] at hstate
          exact absurd rfl hstate
        · rw [step, perform, if_neg hstreams, if_neg hhungers, if_neg hdrains] at hstate ⊢
          exact h hstate

theorem Threads.act_found (h : s.Found) (ht : Orderly s) (hs : Supplies P s) {a : Action α}
    (hreads : ∀ c, a = .call c → ¬ s.object.ReadFails c) : (s.act B P a).Found := by
  cases a with
  | openFile file =>
    by_cases hwaits : s.parent ≠ .ready ∨ s.object.waiting
    · have hact : s.act B P (.openFile file) = s := if_pos hwaits
      rwa [hact]
    · cases file with
      | none =>
        have hact : s.act B P (.openFile none) = s := if_neg hwaits
        rwa [hact]
      | some file =>
        have hact : s.act B P (.openFile (some file)) =
            { s with object := s.object.openFile file } := if_neg hwaits
        rw [hact]
        exact fun _ _ hlost => by cases hlost.1
  | free =>
    by_cases hwaits : s.parent ≠ .ready ∨ s.object.waiting
    · rwa [act, if_pos hwaits]
    · rw [act, if_neg hwaits]
      exact fun hready => by cases hready
  | wake =>
    by_cases hwaits : s.object.requestcode ≠ .requestNothing ∨ s.parent ≠ .freeing
    · rwa [act, if_pos hwaits]
    · rw [act, if_neg hwaits]
      exact fun hready => by cases hready
  | call c =>
    by_cases hwaits : s.parent ≠ .ready ∧ c.isChild = false
    · rwa [act, if_pos hwaits]
    · rw [act, if_neg hwaits]
      intro hready hstate
      cases hc : c.isChild with
      | false => exact step_found hc (h hready) hstate
      | true =>
        cases c with
        | child answer =>
          have hstate' : s.object.state ≠ .stateIdle := by
            rwa [step, (childStep_audio answer).1] at hstate
          apply childStep_found (h hready hstate')
          · exact fun hclose => hstate' (hs.stopped hclose)
          · intro hquit
            cases hready.symm.trans (ht.quits hquit)
          · exact hreads _ rfl
        | start => cases hc
        | stop => cases hc
        | tick => cases hc
        | perform outvecs => cases hc

theorem found_run {buf : Nat → α} {events : List (Event (Threads α) (Action α) Unit)}
    (hpos : 0 < P.fifosize) (hrun : Threads.Runs B P ⟨newObject buf, .ready⟩ events s)
    (hreads : ∀ e ∈ events, ∀ c, e.call = .call c → ¬ e.state.object.ReadFails c) :
    Orderly s ∧ Supplies P s ∧ s.Found := by
  refine hrun.invariant_of (fun e => ∀ c, e.call = .call c → ¬ e.state.object.ReadFails c)
    (fun _ t => Orderly t ∧ Supplies P t ∧ t.Found) hreads
    ⟨Orderly.newObject buf, Supplies.newObject hpos buf, ?_⟩ ?_
  · intro _ hstate
    exact absurd rfl hstate
  · intro _ t a _ u hstep hgood h
    obtain ⟨ht, hs, hfound⟩ := h
    rw [← answered_state hstep]
    exact ⟨ht.act a, hs.act a, Threads.act_found hfound ht hs hgood⟩

/-- A tick that waits goes on once the child has fed the fifo or found the end of the file, if
no read fails. -/
theorem tick_goes_on {buf : Nat → α} {events : List (Event (Threads α) (Action α) Unit)}
    (hfifo : readFrames+P.vecsize ≤ P.fifosize)
    (hrun : Threads.Runs B P ⟨newObject buf, .ready⟩ events s)
    (hreads : ∀ e ∈ events, ∀ c, e.call = .call c → ¬ e.state.object.ReadFails c)
    (hwaiting : s.object.waiting = true) {answers : List Nat}
    (hlong : (readFrames+3)*P.vecsize+3 ≤ answers.length) (outvecs : Nat → Nat → α) :
    ∃ k ≤ (readFrames+3)*P.vecsize+3,
      ((s.childSteps B P ((answers.take k).map some)).object.perform P outvecs).1 ≠ .none := by
  have hpos : 0 < P.fifosize := by
    have := P.vecsize_pos
    omega
  obtain ⟨horderly, hsupplies, hfound⟩ := found_run hpos hrun hreads
  obtain ⟨hstream, hready⟩ := horderly.waiting hwaiting
  have hwaits : Waits P s :=
    ⟨horderly, hsupplies, hwaiting, hfound hready (by simp [hstream])⟩
  obtain ⟨k, hk, hstill, hfed⟩ := hwaits.goes_on (B := B) hfifo hlong
  exact ⟨k, hk, fun hnone => hfed ((perform_waits hstill outvecs).mp hnone)⟩

def waits : List (Action Int) :=
  [.openFile (some twoFrames), .call .start, .call (.perform fun _ _ => 0)]

theorem tick_goes_on_waits : ∃ k ≤ 32777,
    (((played waits).childSteps ⟨4, fun _ s => s⟩ smallObject
      (((List.replicate 32777 1).take k).map some)).object.perform smallObject fun _ _ => 0).1 ≠
        .none := by
  have hreads : ∀ e ∈ trace (Threads.answer ⟨4, fun _ s => s⟩ smallObject)
      ⟨newObject fun _ => 0, .ready⟩ waits,
      ∀ c, e.call = .call c → ¬ e.state.object.ReadFails c := by
    rintro e he c hcall ⟨rfl, -⟩
    simp only [waits, trace, List.mem_cons, List.not_mem_nil, or_false] at he
    rcases he with rfl | rfl | rfl <;> cases hcall
  exact tick_goes_on (s := played waits) (by decide) (Run.of_calls _ _ waits) hreads rfl
    (List.length_replicate ..).ge _

/-- A tick waits for ever if the child has given up before the fifo was fed, and only then. -/
theorem tick_waits_iff {buf : Nat → α} {events : List (Event (Threads α) (Action α) Unit)}
    (hfifo : readFrames+P.vecsize ≤ P.fifosize)
    (hrun : Threads.Runs B P ⟨newObject buf, .ready⟩ events s)
    (hwaiting : s.object.waiting = true) (outvecs : Nat → Nat → α) :
    (∀ answers, ((s.childSteps B P answers).object.perform P outvecs).1 = .none) ↔
      s.object.requestcode = .requestNothing ∧ s.object.Hungers P := by
  have hpos : 0 < P.fifosize := by
    have := P.vecsize_pos
    omega
  have hsupplies := Supplies.run hpos hrun
  constructor
  · intro hforever
    have hnow : s.object.Hungers P := (perform_waits hwaiting outvecs).mp (hforever [])
    refine ⟨?_, hnow⟩
    by_contra hfound
    have hwaits : Waits P s := ⟨Orderly.run hrun, hsupplies, hwaiting, fun hlost => hfound hlost.1⟩
    have hlong : (readFrames+3)*P.vecsize+3 ≤
        (List.replicate ((readFrames+3)*P.vecsize+3) 0).length := (List.length_replicate ..).ge
    obtain ⟨k, -, hstill, hfed⟩ := hwaits.goes_on (B := B) hfifo hlong
    exact hfed ((perform_waits hstill outvecs).mp (hforever _))
  · rintro ⟨hcode, hhungers⟩ answers
    obtain ⟨hsame, hstill⟩ := Threads.childSteps_lost (B := B) hcode hhungers
      (hsupplies.nothing hcode) answers
    exact (perform_waits (hsame.trans hwaiting) outvecs).mpr hstill

def givesUp : List (Action Int) :=
  waits ++ [.call (.child none), .call (.child (some 0)), .call (.child none),
    .call (.child none)]

theorem tick_waits_iff_givesUp :
    ((played givesUp).object.eof = false) ∧ ∀ answers,
      (((played givesUp).childSteps ⟨4, fun _ s => s⟩ smallObject answers).object.perform
        smallObject fun _ _ => 0).1 = .none :=
  ⟨rfl, (tick_waits_iff (s := played givesUp) (by decide) (Run.of_calls _ _ givesUp) rfl _).mpr
    ⟨rfl, rfl, by decide, by decide⟩⟩

end AmbixRead
end Ambix
