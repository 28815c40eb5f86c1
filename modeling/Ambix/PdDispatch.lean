import Ambix.PlaysOnce
import Ambix.RecordsOnce

/-! The request code of ambix_write~.c and ambix_read~.c. Both threads write it: Pd's thread
in `open`, `stop` and `free`, the child wherever it takes a request or is done with it. A child
that is busy must not look for a request, since it would do so forever and keep the mutex. -/
namespace Ambix
open Machine

inductive PdThread where
  | ready
  /-- In `ambix_write_open`, until nothing is requested. -/
  | opening
  /-- In `free`, until nothing is requested. -/
  | freeing
  /-- In `pthread_join`, or gone. -/
  | freed
deriving DecidableEq

namespace AmbixWrite
variable {α : Type} (P : PdObject)

/-- The child is at the top of its loop and finds itself busy. -/
def Spins (x : AmbixWrite α) : Prop := x.child = .request ∧ x.requestcode = .requestBusy

structure Threads (α : Type) where
  object : AmbixWrite α
  parent : PdThread

inductive Action (α : Type) where
  /-- `ambix_write_open`, up to the loop in which it waits. -/
  | openFile (parsed : Bool)
  | free
  /-- Pd's thread looks at the request code again. -/
  | wake
  | call (c : Call α)

def Call.isChild : Call α → Bool
  | .child _ => true
  | _ => false

def Threads.act (s : Threads α) : Action α → Threads α
  | .openFile parsed =>
    if s.parent ≠ .ready then s
    else
      { object := if s.object.state ≠ .stateIdle then s.object.stop else s.object
        parent := if parsed then .opening else .ready }
  | .free =>
    if s.parent ≠ .ready then s
    else { object := { s.object with requestcode := .requestQuit }, parent := .freeing }
  | .wake =>
    if s.object.requestcode ≠ .requestNothing then s
    else match s.parent with
      | .opening => { object := s.object.openFile P, parent := .ready }
      | .freeing => { s with parent := .freed }
      | .ready | .freed => s
  | .call c =>
    if s.parent ≠ .ready ∧ c.isChild = false then s
    else { s with object := (s.object.step P c).2 }

/-- `ambix_writef_float32` is about to take fewer frames than it gets, while no other request
has been made. -/
def WriteFails (x : AmbixWrite α) (c : Call α) : Prop :=
  c = .child false ∧ x.requestcode = .requestBusy ∧
    ∃ fifosize fifotail writeframes f,
      x.child = .splitting fifosize fifotail writeframes f ∧ writeframes ≤ f

variable {P} {x : AmbixWrite α}

@[simp] theorem writef_requestcode (n : Nat) : (x.writef P n).requestcode = x.requestcode := rfl

/-- What leads to a child that spins: only a write that fails. -/
theorem childStep_spins (succeeds : Bool) (h : ¬ x.Spins) :
    (x.childStep P succeeds).Spins ↔ x.WriteFails (.child succeeds) := by
  cases hchild : x.child with
  | request =>
    have hbusy : x.requestcode ≠ .requestBusy := fun hcode => h ⟨hchild, hcode⟩
    cases hcode : x.requestcode <;> cases hhandle : x.handle <;>
      simp_all [childStep, Spins, WriteFails]
  | opening =>
    cases succeeds <;> by_cases hcode : x.requestcode = .requestBusy <;>
      simp [childStep, Spins, WriteFails, hchild, hcode]
  | emptying =>
    by_cases hcode : x.requestcode = .requestBusy
    · by_cases hfull : x.Full <;> simp [childStep, Spins, WriteFails, hchild, hcode, hfull]
    · by_cases hclose : x.requestcode = .requestClose ∧ x.fifohead ≠ x.fifotail
      · by_cases hfull : x.Full <;>
          simp [childStep, Spins, WriteFails, hchild, hclose, hfull]
      · simp [childStep, Spins, WriteFails, hchild, hcode, hclose]
  | splitting fifosize fifotail writeframes f =>
    by_cases hf : f < writeframes
    · simp [childStep, Spins, WriteFails, hchild, hf]
    · cases succeeds with
      | false => simp [childStep, Spins, WriteFails, hchild, hf, Nat.not_lt.mp hf]
      | true =>
        by_cases hother : x.requestcode ≠ .requestBusy ∧ x.requestcode ≠ .requestClose
        · simp [childStep, Spins, WriteFails, hchild, hf, hother]
        · simp [childStep, Spins, WriteFails, hchild, hf, hother]
  | closing quit => cases quit <;> simp [childStep, Spins, WriteFails, hchild]
  | ended => simp [childStep, Spins, WriteFails, hchild]

theorem step_spins (c : Call α) (h : ¬ x.Spins) : (x.step P c).2.Spins ↔ x.WriteFails c := by
  cases c with
  | child succeeds => exact childStep_spins succeeds h
  | start =>
    apply iff_of_false
    · intro hspins
      apply h
      by_cases hstate : x.state = .stateStartup <;>
        simpa [step, start, hstate, Spins] using hspins
    · intro hfails
      cases hfails.1
  | stop =>
    apply iff_of_false
    · intro hspins
      cases hspins.2
    · intro hfails
      cases hfails.1
  | perform invecs =>
    apply iff_of_false
    · intro hspins
      apply h
      by_cases hstate : x.state = .stateStream <;> by_cases hwaits : x.Waits P <;>
        simpa [step, perform, hstate, hwaits, Spins] using hspins
    · intro hfails
      cases hfails.1

theorem Threads.act_not_spins {s : Threads α} {a : Action α} (ha : ∀ c, a ≠ .call c)
    (h : ¬ s.object.Spins) : ¬ (s.act P a).object.Spins := by
  cases a with
  | openFile parsed =>
    by_cases hready : s.parent = .ready
    · by_cases hidle : s.object.state = .stateIdle
      · simpa [act, hready, hidle] using h
      · simp [act, hready, hidle, stop, Spins]
    · simpa [act, hready] using h
  | free =>
    by_cases hready : s.parent = .ready
    · simp [act, hready, Spins]
    · simpa [act, hready] using h
  | wake =>
    by_cases hnothing : s.object.requestcode = .requestNothing
    · cases hparent : s.parent <;> simp [act, hnothing, hparent, AmbixWrite.openFile, Spins]
    · simpa [act, hnothing] using h
  | call c => exact absurd rfl (ha c)

theorem Threads.act_spins {s : Threads α} (a : Action α) (h : ¬ s.object.Spins) :
    (s.act P a).object.Spins ↔ ∃ c, a = .call c ∧ s.object.WriteFails c := by
  by_cases hother : ∀ c, a ≠ .call c
  · apply iff_of_false (act_not_spins hother h)
    rintro ⟨c, hc, -⟩
    exact hother c hc
  · simp only [ne_eq, not_forall, not_not] at hother
    obtain ⟨c, rfl⟩ := hother
    simp only [Action.call.injEq, exists_eq_left']
    by_cases hwaits : s.parent ≠ .ready ∧ c.isChild = false
    · rw [act, if_pos hwaits]
      apply iff_of_false h
      intro hfails
      rw [hfails.1] at hwaits
      cases hwaits.2
    · rw [act, if_neg hwaits]
      exact step_spins c h

variable (P) in
def Threads.answer (s : Threads α) (a : Action α) : Unit × Threads α := ((), s.act P a)

variable (P) in
abbrev Threads.Runs (s : Threads α) (events : List (Event (Threads α) (Action α) Unit))
    (t : Threads α) : Prop := Run (fun s a => .ok (s.answer P a)) s events t

/-- No file operation of a run is a write that fails. -/
def Writes (events : List (Event (Threads α) (Action α) Unit)) : Prop :=
  ∀ e ∈ events, ∀ c, e.call = .call c → ¬ e.state.object.WriteFails c

theorem writes_iff {events : List (Event (Threads α) (Action α) Unit)} {t : Threads α}
    (hcode : x.requestcode = .requestNothing) (hrun : Threads.Runs P ⟨x, .ready⟩ events t) :
    Writes events ↔ Avoids (fun s => s.object.Spins) events t := by
  refine hrun.avoids_iff (fun e => ∀ c, e.call = .call c → ¬ e.state.object.WriteFails c)
    (fun s => s.object.Spins) (fun h => ?_) fun s a _ u hstep hgood => ?_
  · exact absurd (hcode.symm.trans h.2) (by decide)
  · have hspins := Threads.act_spins a hgood (P := P)
    rw [show s.act P a = u from answered_state hstep] at hspins
    rw [hspins]
    simp only [not_exists, not_and]

theorem Threads.act_child (s : Threads α) (succeeds : Bool) :
    s.act P (.call (.child succeeds)) = { s with object := s.object.childStep P succeeds } := by
  apply if_neg
  intro h
  cases h.2

theorem childStep_passes {size tail n f : Nat} (k : Nat)
    (hchild : x.child = .splitting size tail n f) (hk : f+k ≤ n) :
    ∃ bufs, (AmbixWrite.childStep P true)^[k] x =
      { x with child := .splitting size tail n (f+k), bufs := bufs } := by
  induction k with
  | zero => exact ⟨x.bufs, by rw [Nat.add_zero, ← hchild]; rfl⟩
  | succ k ih =>
    obtain ⟨bufs, hbefore⟩ := ih (by omega)
    have hpass : f+k < n := by omega
    rw [Function.iterate_succ_apply', hbefore]
    exact ⟨_, if_pos hpass⟩

theorem Threads.children (s : Threads α) (k : Nat) :
    (fun s : Threads α => { s with object := s.object.childStep P true })^[k] s =
      { s with object := (AmbixWrite.childStep P true)^[k] s.object } := by
  induction k generalizing s with
  | zero => rfl
  | succ k ih => exact ih _

theorem childStep_block {size tail n : Nat} (hchild : x.child = .splitting size tail n 0)
    (hbusy : x.requestcode = .requestBusy) :
    ∃ bufs file, (AmbixWrite.childStep P true)^[n+1] x = { x with
      child := .emptying
      fifotail := if x.fifotail+n = size then 0 else x.fifotail+n
      bufs := bufs
      file := file } := by
  obtain ⟨bufs, hsplit⟩ := childStep_passes (P := P) n hchild (Nat.zero_add _).le
  have hwritten : ¬ 0+n < n := by omega
  have hsucceeds : ¬ true = false := by decide
  rw [Function.iterate_succ_apply', hsplit]
  exact ⟨_, _, by
    rw [childStep]
    exact (if_neg hwritten).trans ((if_neg hsucceeds).trans (if_neg fun h => h.1 hbusy))⟩

theorem splits_spins {s : Threads α} {fifosize fifotail writeframes : Nat}
    (hchild : s.object.child = .splitting fifosize fifotail writeframes 0)
    (hcode : s.object.requestcode = .requestBusy) :
    (leadsTo (Threads.answer P) s (List.replicate writeframes (.call (.child true)) ++
      [.call (.child false)])).object.Spins := by
  obtain ⟨bufs, hsplit⟩ := childStep_passes (P := P) writeframes hchild (Nat.zero_add _).le
  have hstep (s : Threads α) : (Threads.answer P s (.call (.child true))).2 =
      { s with object := s.object.childStep P true } := s.act_child true
  rw [leadsTo_append, leadsTo_replicate, funext hstep, Threads.children, hsplit]
  refine (Threads.act_spins (.call (.child false)) fun hspins => ?_).mpr
    ⟨_, rfl, rfl, hcode, _, _, _, _, rfl, (Nat.zero_add _).ge⟩
  cases hspins.1

end AmbixWrite

namespace AmbixRead
variable {α : Type} [Zero α] (B : SampleBytes α) (P : PdObject)

omit [Zero α] in
/-- The child is at the top of its loop and finds itself busy. -/
def Spins (x : AmbixRead α) : Prop := x.child = .request ∧ x.requestcode = .requestBusy

structure Threads (α : Type) where
  object : AmbixRead α
  parent : PdThread

inductive Action (α : Type) where
  /-- `ambix_read_open`; without a file name it returns at once. -/
  | openFile (file : Option (PdSoundfile α))
  | free
  /-- Pd's thread looks at the request code again. -/
  | wake
  | call (c : Call α)

omit [Zero α] in
def Call.isChild : Call α → Bool
  | .child _ => true
  | _ => false

def Threads.act (s : Threads α) : Action α → Threads α
  | .openFile file =>
    if s.parent ≠ .ready ∨ s.object.waiting then s
    else match file with
      | none => s
      | some file => { s with object := s.object.openFile file }
  | .free =>
    if s.parent ≠ .ready ∨ s.object.waiting then s
    else { object := { s.object with requestcode := .requestQuit }, parent := .freeing }
  | .wake =>
    if s.object.requestcode ≠ .requestNothing ∨ s.parent ≠ .freeing then s
    else { s with parent := .freed }
  | .call c =>
    if s.parent ≠ .ready ∧ c.isChild = false then s
    else { s with object := (s.object.step B P c).2 }

omit [Zero α] in
/-- A busy child is neither at the top of its loop nor on its way there. -/
def Stuck (x : AmbixRead α) : Prop :=
  (x.child = .request ∨ x.child = .closing) ∧ x.requestcode = .requestBusy

variable {B P} {x : AmbixRead α}

omit [Zero α] in
theorem Stuck.of_spins (h : x.Spins) : x.Stuck := ⟨Or.inl h.1, h.2⟩

omit [Zero α] in
theorem lost_not_stuck : ¬ x.lost.Stuck := by
  by_cases hcode : x.requestcode = .requestBusy <;> simp [Stuck, lost, hcode]

theorem childStep_not_stuck (answer : Option Nat) (h : ¬ x.Stuck) :
    ¬ (x.childStep B P answer).Stuck := by
  cases hchild : x.child with
  | request =>
    have hbusy : x.requestcode ≠ .requestBusy := fun hcode => h ⟨Or.inl hchild, hcode⟩
    cases hcode : x.requestcode <;> simp_all [childStep, Stuck]
  | opening file =>
    cases answer with
    | none => simpa only [childStep, hchild] using lost_not_stuck
    | some n =>
      by_cases hcode : x.requestcode = .requestBusy
      · simp [childStep, opened, hchild, hcode, Stuck]
      · simpa only [childStep, opened, hchild, hcode, ne_eq, not_false_eq_true, if_true] using
          lost_not_stuck
  | feeding =>
    by_cases hleaves : x.requestcode ≠ .requestBusy ∨ x.eof = true
    · simpa only [childStep, hchild, hleaves, if_true] using lost_not_stuck
    · cases hwant : wantframes x.fifosize x.fifohead x.fifotail <;>
        simp [childStep, hchild, hleaves, hwant, Stuck]
  | reading fifosize fifohead want =>
    cases answer with
    | none => simpa only [childStep, hchild] using lost_not_stuck
    | some n =>
      by_cases hframes : (x.delivery n want).length > 0
      · simp [childStep, hchild, hframes, Stuck]
      · by_cases hcode : x.requestcode = .requestBusy
        · simpa only [childStep, hchild, hframes, hcode, ne_eq, not_true, if_false] using
            lost_not_stuck
        · simpa only [childStep, hchild, hframes, hcode, ne_eq, not_false_eq_true, if_false,
            if_true] using lost_not_stuck
  | merging fifosize fifohead sysrtn f =>
    by_cases hf : f < sysrtn
    · simp [childStep, hchild, hf, Stuck]
    · by_cases hcode : x.requestcode = .requestBusy
      · simp [childStep, hchild, hf, hcode, Stuck]
      · simpa only [childStep, hchild, hf, hcode, ne_eq, not_false_eq_true, if_false, if_true]
          using lost_not_stuck
  | closing =>
    intro hstuck
    have hnext : x.childStep B P answer = { x with child := .request } := by
      simp only [childStep, hchild]
    rw [hnext] at hstuck
    exact h ⟨Or.inr hchild, hstuck.2⟩
  | ended => simp [childStep, hchild, Stuck]

theorem step_not_stuck (c : Call α) (h : ¬ x.Stuck) : ¬ (x.step B P c).2.Stuck := by
  cases c with
  | child answer => exact childStep_not_stuck answer h
  | start =>
    by_cases hwaiting : x.waiting = true <;> by_cases hstate : x.state = .stateStartup <;>
      simpa [step, start, hwaiting, hstate, Stuck] using h
  | stop =>
    by_cases hwaiting : x.waiting = true
    · simpa [step, hwaiting] using h
    · simp [step, stop, hwaiting, Stuck]
  | tick =>
    by_cases hwaiting : x.waiting = true <;> simpa [step, tick, hwaiting, Stuck] using h
  | perform outvecs =>
    have hcode : (x.perform P outvecs).2.requestcode = x.requestcode ∧
        (x.perform P outvecs).2.child = x.child := by
      unfold perform
      split
      · exact ⟨rfl, rfl⟩
      · split
        · exact ⟨rfl, rfl⟩
        · split <;> exact ⟨rfl, rfl⟩
    rw [Stuck] at h ⊢
    rw [step, hcode.1, hcode.2]
    exact h

theorem Threads.act_not_stuck {s : Threads α} (a : Action α) (h : ¬ s.object.Stuck) :
    ¬ (s.act B P a).object.Stuck := by
  cases a with
  | openFile file =>
    by_cases hwaits : s.parent ≠ .ready ∨ s.object.waiting
    · simpa [act, hwaits] using h
    · cases file with
      | none => simpa [act, hwaits] using h
      | some file => simp [act, hwaits, AmbixRead.openFile, Stuck]
  | free =>
    by_cases hwaits : s.parent ≠ .ready ∨ s.object.waiting
    · rwa [act, if_pos hwaits]
    · simp [act, hwaits, Stuck]
  | wake =>
    by_cases hwaits : s.object.requestcode ≠ .requestNothing ∨ s.parent ≠ .freeing
    · rwa [act, if_pos hwaits]
    · rwa [act, if_neg hwaits]
  | call c =>
    by_cases hwaits : s.parent ≠ .ready ∧ c.isChild = false
    · rwa [act, if_pos hwaits]
    · rw [act, if_neg hwaits]
      exact step_not_stuck c h

variable (B P) in
def Threads.answer (s : Threads α) (a : Action α) : Unit × Threads α := ((), s.act B P a)

variable (B P) in
abbrev Threads.Runs (s : Threads α) (events : List (Event (Threads α) (Action α) Unit))
    (t : Threads α) : Prop := Run (fun s a => .ok (s.answer B P a)) s events t

theorem never_spins {events : List (Event (Threads α) (Action α) Unit)} {t : Threads α}
    (hcode : x.requestcode = .requestNothing) (hrun : Threads.Runs B P ⟨x, .ready⟩ events t) :
    Avoids (fun s => s.object.Spins) events t := by
  have hstuck := (hrun.avoids_iff (fun _ => True) (fun s => s.object.Stuck)
    (fun h => absurd (hcode.symm.trans h.2) (by decide)) fun s a _ u hstep hgood => ?_).mp
    fun _ _ => trivial
  · exact ⟨fun e he h => hstuck.1 e he (.of_spins h), fun h => hstuck.2 (.of_spins h)⟩
  · rw [← answered_state hstep]
    exact iff_of_true trivial (Threads.act_not_stuck a hgood)

end AmbixRead

/-! Both objects. -/

section dispatch
variable {α β : Type} [Zero β] (B : SampleBytes β) (P Q : PdObject)

/-- The child of ambix_write~ finds itself busy once a write fails, and only then; that of
ambix_read~ never does. -/
theorem dispatches_iff {x : AmbixWrite α} {y : AmbixRead β}
    (hx : x.requestcode = .requestNothing) (hy : y.requestcode = .requestNothing)
    {writes : List (Event (AmbixWrite.Threads α) (AmbixWrite.Action α) Unit)}
    {reads : List (Event (AmbixRead.Threads β) (AmbixRead.Action β) Unit)}
    {s : AmbixWrite.Threads α} {t : AmbixRead.Threads β}
    (hwrites : AmbixWrite.Threads.Runs P ⟨x, .ready⟩ writes s)
    (hreads : AmbixRead.Threads.Runs B Q ⟨y, .ready⟩ reads t) :
    (AmbixWrite.Writes writes ↔ Avoids (fun s => s.object.Spins) writes s) ∧
      Avoids (fun t => t.object.Spins) reads t :=
  ⟨AmbixWrite.writes_iff hx hwrites, AmbixRead.never_spins hy hreads⟩

end dispatch

def blockWrites (actions : List (AmbixWrite.Action Int)) :
    List (Event (AmbixWrite.Threads Int) (AmbixWrite.Action Int) Unit) :=
  trace (AmbixWrite.Threads.answer blockObject) ⟨AmbixWrite.newObject fun _ => 0, .ready⟩ actions

def blockWritten (actions : List (AmbixWrite.Action Int)) : AmbixWrite.Threads Int :=
  leadsTo (AmbixWrite.Threads.answer blockObject) ⟨AmbixWrite.newObject fun _ => 0, .ready⟩ actions

def blockReads (actions : List (AmbixRead.Action Int)) :
    List (Event (AmbixRead.Threads Int) (AmbixRead.Action Int) Unit) :=
  trace (AmbixRead.Threads.answer ⟨4, fun _ s => s⟩ blockObject)
    ⟨AmbixRead.newObject fun _ => 0, .ready⟩ actions

def closedWrites : List (AmbixWrite.Action Int) :=
  [.openFile true, .wake, .call (.child true), .call .stop, .call (.child false), .free,
    .call (.child true), .wake]

def closedReads : List (AmbixRead.Action Int) :=
  [.openFile (some AmbixRead.twoFrames), .call (.child none), .call .stop, .call (.child none),
    .call (.child none), .free, .call (.child none), .wake]

theorem dispatches_closed :
    (AmbixWrite.Writes (blockWrites closedWrites) ↔
      Avoids (fun s => s.object.Spins) (blockWrites closedWrites) (blockWritten closedWrites)) ∧
    ∃ t, Avoids (fun t => t.object.Spins) (blockReads closedReads) t := by
  obtain ⟨hwrites, hreads⟩ := dispatches_iff ⟨4, fun _ s => s⟩ blockObject blockObject
    (x := AmbixWrite.newObject fun _ => (0 : Int)) (y := AmbixRead.newObject fun _ => (0 : Int))
    rfl rfl (Run.of_calls _ _ closedWrites) (Run.of_calls _ _ closedReads)
  exact ⟨hwrites, _, hreads⟩

/-- A vector of 16384 frames is captured and split, and then the disk is full. -/
theorem dispatches_fails : ∃ events s, AmbixWrite.Threads.Runs blockObject
      ⟨AmbixWrite.newObject fun _ => (0 : Int), .ready⟩ events s ∧
    ¬ Avoids (fun s => s.object.Spins) events s := by
  let captures : List (AmbixWrite.Action Int) := [.openFile true, .wake, .call (.child true),
    .call (.child true), .call .start, .call (.perform fun _ _ => 7), .call (.child true)]
  have hchild : (blockWritten captures).object.child = .splitting 65536 0 16384 0 := rfl
  have hcode : (blockWritten captures).object.requestcode = .requestBusy := rfl
  refine ⟨_, _, Run.of_calls _ _ (captures ++ (List.replicate 16384 (.call (.child true)) ++
    [.call (.child false)])), fun h => h.2 ?_⟩
  rw [leadsTo_append]
  exact AmbixWrite.splits_spins hchild hcode

end Ambix
