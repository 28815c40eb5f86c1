import Ambix.Machine.Response
import Ambix.PdWriteThreads

/-! What ambix_write~.c answers. Pd's thread waits in `open` and in `free` until nothing is
requested any more, and a tick waits until the child has made room for it. -/
namespace Ambix
open Machine
namespace AmbixWrite
variable {α : Type} {P : PdObject} {s : Threads α}

/-! Steps until an answer comes. -/

/-- Frames that have not been written yet, behind `tail`. -/
def ahead (x : AmbixWrite α) (tail : Nat) : Nat :=
  if x.fifohead < tail then x.fifosize-tail+x.fifohead else x.fifohead-tail

def stepsLeft (after : Nat → Nat) (x : AmbixWrite α) : Nat :=
  match x.child with
  | .request => 2
  | .opening => 3
  | .emptying => after x.fifotail
  | .splitting size tail n f => (n-f)+1+after (if tail+n = size then 0 else tail+n)
  | .closing _ => 1
  | .ended => 0

def drainSteps (x : AmbixWrite α) : Nat := x.stepsLeft fun tail => 3*x.ahead tail+3

theorem ahead_writeframes {x : AmbixWrite α}
    (hhead : x.fifohead < x.fifosize ∨ x.fifohead = 0)
    (htail : x.fifotail < x.fifosize ∨ x.fifotail = 0) :
    x.ahead (if x.fifotail+x.writeframes = x.fifosize then 0 else x.fifotail+x.writeframes) +
      x.writeframes = x.ahead x.fifotail := by
  obtain ⟨hend, -, -⟩ := writeframes_fits hhead htail
  have hn : x.writeframes ≤
      (if x.fifohead < x.fifotail then x.fifosize else x.fifohead)-x.fifotail := by
    have hcap (n : Nat) : (if n > readFrames then readFrames else n) ≤ n := by
      split <;> omega
    exact hcap _
  by_cases hwraps : x.fifohead < x.fifotail
  · rw [if_pos hwraps] at hn
    by_cases hlast : x.fifotail+x.writeframes = x.fifosize
    · simp only [ahead, hlast, hwraps, if_true, Nat.not_lt_zero, if_false]
      omega
    · have hbehind : x.fifohead < x.fifotail+x.writeframes := by omega
      simp only [ahead, hlast, hwraps, hbehind, if_true, if_false]
      omega
  · rw [if_neg hwraps] at hn
    by_cases hlast : x.fifotail+x.writeframes = x.fifosize
    · simp only [ahead, hlast, hwraps, if_true, Nat.not_lt_zero, if_false]
      omega
    · have hbehind : ¬ x.fifohead < x.fifotail+x.writeframes := by omega
      simp only [ahead, hlast, hwraps, hbehind, if_false]
      omega

/-- A pass through the loop, or the way out of it. -/
theorem empties {x : AmbixWrite α} {after : Nat → Nat} (hafter : ∀ tail, 2 < after tail)
    (hplace : x.child = .emptying)
    (hgoes : x.requestcode = .requestBusy ∨
        (x.requestcode = .requestClose ∧ x.fifohead ≠ x.fifotail) →
      x.Full ∧ x.writeframes+1 +
        after (if x.fifotail+x.writeframes = x.fifosize then 0
          else x.fifotail+x.writeframes) < after x.fifotail)
    (succeeds : Bool) :
    (x.childStep P succeeds).requestcode = x.requestcode ∧
      (x.childStep P succeeds).stepsLeft after < x.stepsLeft after := by
  by_cases hloop : x.requestcode = .requestBusy ∨
      (x.requestcode = .requestClose ∧ x.fifohead ≠ x.fifotail)
  · obtain ⟨hfull, hless⟩ := hgoes hloop
    simp only [AmbixWrite.childStep, hplace, hloop, hfull, if_true, stepsLeft, Nat.sub_zero,
      true_and]
    exact hless
  · simp only [AmbixWrite.childStep, hplace, hloop, if_false, stepsLeft, true_and]
    exact hafter _

theorem Orderly.writes (h : Orderly P s) {after : Nat → Nat} (hafter : ∀ tail, 2 < after tail)
    {size tail n f : Nat} (hplace : s.object.child = .splitting size tail n f)
    (succeeds : Bool) :
    (s.object.childStep P succeeds).requestcode = s.object.requestcode ∧
      (s.object.childStep P succeeds).stepsLeft after < s.object.stepsLeft after := by
  obtain ⟨-, rfl, -, -, -⟩ := h.splitting _ _ _ _ hplace
  have hless := hafter (if s.object.fifotail+n = size then 0 else s.object.fifotail+n)
  by_cases hpass : f < n
  · simp only [AmbixWrite.childStep, hplace, hpass, if_true, stepsLeft, true_and]
    omega
  · cases succeeds with
    | false =>
      simp only [AmbixWrite.childStep, hplace, hpass, if_true, if_false, stepsLeft, true_and]
      omega
    | true =>
      by_cases hother : s.object.requestcode ≠ .requestBusy ∧
          s.object.requestcode ≠ .requestClose
      · simp only [AmbixWrite.childStep, hplace, hpass, writef_requestcode, hother, ne_eq,
          not_false_eq_true, and_self, Bool.true_eq_false, if_true, if_false, stepsLeft, true_and]
        omega
      · simp only [AmbixWrite.childStep, hplace, hpass, writef_requestcode, hother,
          Bool.true_eq_false, if_false, stepsLeft, true_and]
        change after (if s.object.fifotail+n = size then 0 else s.object.fifotail+n) < _
        omega

theorem ended_of_stepsLeft {x : AmbixWrite α} {after : Nat → Nat} (hafter : ∀ tail, 0 < after tail)
    (hzero : x.stepsLeft after = 0) : x.child = .ended := by
  cases hplace : x.child with
  | ended => rfl
  | request => simp [stepsLeft, hplace] at hzero
  | opening => simp [stepsLeft, hplace] at hzero
  | emptying =>
    simp only [stepsLeft, hplace] at hzero
    exact absurd hzero (hafter _).ne'
  | splitting size tail n f => simp [stepsLeft, hplace] at hzero
  | closing quit => simp [stepsLeft, hplace] at hzero

theorem drainSteps_childStep (x : AmbixWrite α) (succeeds : Bool) :
    (x.childStep P succeeds).drainSteps =
      (x.childStep P succeeds).stepsLeft fun tail => 3*x.ahead tail+3 := by
  obtain ⟨hhead, hsize⟩ := childStep_fifo (P := P) x succeeds
  simp only [drainSteps, ahead, hhead, hsize]

theorem Orderly.drains (h : Orderly P s) (hplace : s.object.child = .emptying)
    (hbusy : s.object.requestcode = .requestBusy → s.object.fifohead < s.object.fifotail)
    (succeeds : Bool) :
    (s.object.childStep P succeeds).requestcode = s.object.requestcode ∧
      (s.object.childStep P succeeds).drainSteps < s.object.drainSteps := by
  rw [drainSteps_childStep]
  apply empties (fun tail => by omega) hplace
  intro hloop
  obtain ⟨-, -, hpos⟩ := writeframes_fits h.head h.tail
  have hblock := ahead_writeframes h.head h.tail
  have hdiffers : s.object.fifohead ≠ s.object.fifotail := by
    cases hloop with
    | inl hcode => exact (hbusy hcode).ne
    | inr hclose => exact hclose.2
  have hsome := hpos hdiffers
  refine ⟨?_, by omega⟩
  cases hloop with
  | inl hcode => exact Or.inl (hbusy hcode)
  | inr hclose => exact Or.inr (Or.inr hclose)

theorem Orderly.answers (h : Orderly P s) (hbusy : s.object.requestcode ≠ .requestBusy)
    (hopen : s.object.requestcode ≠ .requestOpen)
    (hnothing : s.object.requestcode ≠ .requestNothing) (succeeds : Bool) :
    (s.object.childStep P succeeds).requestcode = .requestNothing ∨
      ((s.object.childStep P succeeds).requestcode = s.object.requestcode ∧
        (s.object.childStep P succeeds).drainSteps < s.object.drainSteps) := by
  have hfits : s.object.child.Fits s.object.requestcode := h.child
  cases hplace : s.object.child with
  | request =>
    cases hcode : s.object.requestcode with
    | requestClose =>
      cases hhandle : s.object.handle <;>
        simp [AmbixWrite.childStep, hplace, hcode, hhandle, drainSteps, stepsLeft]
    | requestQuit =>
      cases hhandle : s.object.handle <;>
        simp [AmbixWrite.childStep, hplace, hcode, hhandle, drainSteps, stepsLeft]
    | requestNothing => exact absurd hcode hnothing
    | requestOpen => exact absurd hcode hopen
    | requestBusy => exact absurd hcode hbusy
  | opening =>
    cases succeeds <;> simp [AmbixWrite.childStep, hplace, hbusy, drainSteps, stepsLeft]
  | emptying => exact Or.inr (h.drains hplace (fun hcode => absurd hcode hbusy) succeeds)
  | splitting size tail n f =>
    rw [drainSteps_childStep]
    exact Or.inr (h.writes (fun tail => by omega) hplace succeeds)
  | closing quit => simp [AmbixWrite.childStep, hplace]
  | ended =>
    rw [hplace] at hfits
    exact absurd hfits hnothing

theorem Orderly.drainSteps_le (h : Orderly P s) : s.object.drainSteps ≤ 4*P.fifosize+4 := by
  have hsize := h.size
  have hhead := h.head
  have hahead (tail : Nat) (htail : tail ≤ s.object.fifosize) :
      s.object.ahead tail ≤ s.object.fifosize := by
    unfold ahead
    split <;> omega
  unfold drainSteps stepsLeft
  cases hplace : s.object.child with
  | emptying =>
    have := hahead s.object.fifotail (by have := h.tail; omega)
    dsimp only
    omega
  | splitting size tail n f =>
    obtain ⟨rfl, -, hend, -, -⟩ := h.splitting _ _ _ _ hplace
    have := hahead (if tail+n = s.object.fifosize then 0 else tail+n) (by split <;> omega)
    dsimp only
    omega
  | request => exact Nat.le_add_left _ _
  | opening => dsimp only; omega
  | closing quit => dsimp only; omega
  | ended => exact Nat.zero_le _

theorem Threads.childSteps_parent (s : Threads α) (outcomes : List Bool) :
    (s.childSteps P outcomes).parent = s.parent := by
  induction outcomes generalizing s with
  | nil => rfl
  | cons succeeds outcomes ih =>
    rw [childSteps, List.foldl_cons, locked_child]
    exact ih _

theorem Orderly.childSteps (h : Orderly P s) (outcomes : List Bool) :
    Orderly P (s.childSteps P outcomes) := by
  induction outcomes generalizing s with
  | nil => exact h
  | cons succeeds outcomes ih =>
    rw [Threads.childSteps, List.foldl_cons, Threads.locked_child]
    exact ih (h.childStep succeeds)

theorem Threads.locked_free (a : Action α) (h : ¬ s.object.Spins) : s.locked P a = s.act P a := by
  unfold locked
  split
  · rfl
  · next hplace hcode => exact absurd ⟨hplace, hcode⟩ h
  · rfl

theorem Threads.wake_nothing (hnothing : s.object.requestcode = .requestNothing) :
    (s.locked P .wake).parent =
      match s.parent with
      | .opening => .ready
      | .freeing => .freed
      | .ready => .ready
      | .freed => .freed := by
  have hfree : ¬ s.object.Spins := fun hspins => by simpa [hnothing] using hspins.2
  rw [locked_free _ hfree, act, if_neg (not_not_intro hnothing)]
  cases hparent : s.parent <;> simp [hparent]

/-- Pd's thread leaves `open` and `free` again, whatever becomes of the files. -/
theorem waits_end [Zero α] {buf : Nat → α} {events : List (Event (Threads α) (Action α) Unit)}
    (hrun : Threads.LockedRuns P ⟨newObject buf, .ready⟩ events s)
    (hwaits : s.parent = .opening ∨ s.parent = .freeing) {outcomes : List Bool}
    (hlong : 4*P.fifosize+4 ≤ outcomes.length) :
    ∃ k ≤ 4*P.fifosize+4, ((s.childSteps P (outcomes.take k)).locked P .wake).parent =
      if s.parent = .opening then .ready else .freed := by
  have horderly := Orderly.run hrun
  have happroaches : Approaches (fun (t : Threads α) o => t.locked P (.call (.child o)))
      (fun _ => True) (fun t => Orderly P t ∧ t.parent = s.parent)
      (fun t => t.object.requestcode = .requestNothing) (fun t => t.object.drainSteps) := by
    constructor
    · intro t succeeds _ h hnothing
      obtain ⟨ht, hparent⟩ := h
      rw [Threads.locked_child]
      have hrequest : t.Waiting := ht.parent
      have hpressed : t.object.requestcode ≠ .requestBusy ∧
          t.object.requestcode ≠ .requestOpen := by
        rw [Threads.Waiting, hparent] at hrequest
        cases hwaits with
        | inl hopening => simp only [hopening] at hrequest; cases hrequest <;> simp [*]
        | inr hfreeing => simp only [hfreeing] at hrequest; cases hrequest <;> simp [*]
      refine ⟨⟨ht.childStep succeeds, hparent⟩, ?_⟩
      exact (ht.answers hpressed.1 hpressed.2 hnothing succeeds).imp_right And.right
    · intro t h hzero
      have hended := ended_of_stepsLeft (fun tail => by omega) hzero
      have hfits : t.object.child.Fits t.object.requestcode := h.1.child
      rwa [hended] at hfits
  obtain ⟨k, hk, ⟨ht, -⟩, hnothing⟩ := happroaches.within ⟨horderly, rfl⟩
    (fun _ _ => trivial) (horderly.drainSteps_le.trans hlong)
  refine ⟨k, hk.trans horderly.drainSteps_le, ?_⟩
  change (s.childSteps P (outcomes.take k)).object.requestcode = .requestNothing at hnothing
  rw [Threads.wake_nothing hnothing, Threads.childSteps_parent]
  cases hwaits with
  | inl hopening => simp [hopening]
  | inr hfreeing => simp [hfreeing]

def lockedWritten (P : PdObject) (actions : List (Action Int)) : Threads Int :=
  leadsTo (Threads.lockedAnswer P) ⟨newObject fun _ => 0, .ready⟩ actions

def reopens : List (Action Int) :=
  [.openFile true, .wake, .call (.child true), .call (.child true), .call .start,
    .call (.perform fun _ _ => 7), .openFile true]

theorem waits_end_reopens : ∃ k ≤ 262148,
    (((lockedWritten blockObject reopens).childSteps blockObject
      ((List.replicate 262148 false).take k)).locked blockObject .wake).parent = .ready :=
  waits_end (P := blockObject) (s := lockedWritten blockObject reopens) (Run.of_calls _ _ reopens)
    (Or.inl rfl) (by rw [List.length_replicate]; decide)

/-! The end of an object. -/

def quitSteps (x : AmbixWrite α) : Nat := x.stepsLeft fun _ => 3

/-- The request to quit is still there, and the child is on its way to it. -/
def Quits (x : AmbixWrite α) : Prop :=
  x.child = .ended ∨
    (x.requestcode = .requestQuit ∧ x.child ≠ .opening ∧ x.child ≠ .closing false)

theorem Quits.childStep {x : AmbixWrite α} (h : x.Quits) (hlives : x.child ≠ .ended)
    (succeeds : Bool) :
    (x.childStep P succeeds).Quits ∧
      ((x.childStep P succeeds).child = .ended ∨
        (x.childStep P succeeds).quitSteps < x.quitSteps) := by
  obtain ⟨hcode, hopening, hclosing⟩ := h.resolve_left hlives
  cases hplace : x.child with
  | request =>
    cases hhandle : x.handle <;>
      simp [AmbixWrite.childStep, hplace, hcode, hhandle, Quits, quitSteps, stepsLeft]
  | opening => exact absurd hplace hopening
  | emptying =>
    simp [AmbixWrite.childStep, hplace, hcode, Quits, quitSteps, stepsLeft]
  | splitting size tail n f =>
    by_cases hpass : f < n
    · simp only [AmbixWrite.childStep, hplace, hpass, if_true, Quits, hcode, quitSteps, stepsLeft]
      refine ⟨by simp, Or.inr (by omega)⟩
    · cases succeeds <;>
        simp [AmbixWrite.childStep, hplace, hpass, hcode, Quits, quitSteps, stepsLeft]
  | closing quit =>
    cases quit with
    | false => exact absurd hplace hclosing
    | true => simp [AmbixWrite.childStep, hplace, Quits]
  | ended => exact absurd hplace hlives

theorem Threads.childSteps_rests (hplace : s.object.child = .request)
    (hcode : s.object.requestcode = .requestNothing ∨ s.object.requestcode = .requestBusy)
    (outcomes : List Bool) : s.childSteps P outcomes = s := by
  induction outcomes with
  | nil => rfl
  | cons succeeds outcomes ih =>
    have hstep : s.locked P (.call (.child succeeds)) = s := by
      rw [locked_child]
      cases hcode with
      | inl hnothing => simp [childStep, hplace, hnothing]
      | inr hbusy => simp [childStep, hplace, hbusy]
    rw [childSteps, List.foldl_cons, hstep]
    exact ih

theorem Orderly.quitSteps_le (h : Orderly P s) : s.object.quitSteps ≤ readFrames+4 := by
  unfold quitSteps stepsLeft
  cases hplace : s.object.child with
  | splitting size tail n f =>
    obtain ⟨-, -, -, -, hblock⟩ := h.splitting _ _ _ _ hplace
    dsimp only
    omega
  | request => exact Nat.le_add_left _ _
  | opening => exact Nat.le_add_left _ _
  | emptying => exact Nat.le_add_left _ _
  | closing quit => exact Nat.le_add_left _ _
  | ended => exact Nat.zero_le _

theorem Quits.ends (h : s.object.Quits) {outcomes : List Bool}
    (hlong : s.object.quitSteps ≤ outcomes.length) :
    (s.childSteps P outcomes).object.child = .ended := by
  have happroaches : Approaches (fun (t : Threads α) o => t.locked P (.call (.child o)))
      (fun _ => True) (fun t => t.object.Quits) (fun t => t.object.child = .ended)
      (fun t => t.object.quitSteps) := by
    constructor
    · intro t succeeds _ ht hlives
      rw [Threads.locked_child]
      exact ht.childStep hlives succeeds
    · intro t _ hzero
      exact ended_of_stepsLeft (fun _ => Nat.succ_pos 2) hzero
  refine happroaches.stays (fun t succeeds hended => ?_) h (fun _ _ => trivial) hlong
  rw [Threads.locked_child]
  simp [AmbixWrite.childStep, hended]

/-- A child that is on its way says so. -/
theorem Orderly.ends (h : Orderly P s) (hquits : s.object.Quits) {outcomes : List Bool}
    (hlong : s.object.quitSteps ≤ outcomes.length) :
    (s.childSteps P outcomes).object.child = .ended ∧
      (s.childSteps P outcomes).object.requestcode = .requestNothing := by
  have hended := hquits.ends (P := P) hlong
  have hfits : (s.childSteps P outcomes).object.child.Fits
      (s.childSteps P outcomes).object.requestcode := (h.childSteps outcomes).child
  rw [hended] at hfits
  exact ⟨hended, hfits⟩

theorem Threads.childSteps_answers (s : Threads α) {succeeds : Bool} (outcomes : List Bool)
    (hplace : (s.object.childStep P succeeds).child = .request)
    (hcode : (s.object.childStep P succeeds).requestcode = .requestNothing) :
    (s.childSteps P (succeeds :: outcomes)).object.child = .request ∧
      (s.childSteps P (succeeds :: outcomes)).object.requestcode = .requestNothing := by
  rw [childSteps, List.foldl_cons, locked_child]
  have hrests := childSteps_rests (P := P)
    (s := { s with object := s.object.childStep P succeeds }) hplace (Or.inl hcode) outcomes
  rw [childSteps] at hrests
  rw [hrests]
  exact ⟨hplace, hcode⟩

theorem Orderly.quit_answered (h : Orderly P s) (hcode : s.object.requestcode = .requestQuit)
    {outcomes : List Bool} (hlong : readFrames+4 ≤ outcomes.length) :
    (s.childSteps P outcomes).object.requestcode = .requestNothing ∧
      ((s.childSteps P outcomes).object.child = .ended ↔ s.object.child ≠ .closing false ∧
        (s.object.child = .opening → outcomes.head? = some true)) := by
  have hmany := h.quitSteps_le.trans hlong
  cases outcomes with
  | nil => simp at hlong
  | cons succeeds outcomes =>
    by_cases hopening : s.object.child = .opening
    · cases succeeds with
      | false =>
        have hfails : (s.object.childStep P false).child = .request ∧
            (s.object.childStep P false).requestcode = .requestNothing := by
          simp [AmbixWrite.childStep, hopening]
        obtain ⟨hrests, hnothing⟩ := s.childSteps_answers outcomes hfails.1 hfails.2
        exact ⟨hnothing, by simp [hrests, hopening]⟩
      | true =>
        have hquits : (s.object.childStep P true).Quits := by
          simp [AmbixWrite.childStep, hopening, hcode, Quits]
        have hsteps : (s.object.childStep P true).quitSteps ≤ outcomes.length := by
          rw [List.length_cons] at hlong
          have htwo : (s.object.childStep P true).quitSteps = 2 := by
            simp [AmbixWrite.childStep, hopening, hcode, quitSteps, stepsLeft]
          omega
        obtain ⟨hended, hnothing⟩ := (h.childStep true).ends hquits hsteps
        rw [Threads.childSteps, List.foldl_cons, Threads.locked_child]
        exact ⟨hnothing, iff_of_true hended ⟨by simp [hopening], fun _ => rfl⟩⟩
    · by_cases hclosing : s.object.child = .closing false
      · have hcloses : (s.object.childStep P succeeds).child = .request ∧
            (s.object.childStep P succeeds).requestcode = .requestNothing := by
          simp [AmbixWrite.childStep, hclosing]
        obtain ⟨hrests, hnothing⟩ := s.childSteps_answers outcomes hcloses.1 hcloses.2
        exact ⟨hnothing, by simp [hrests, hclosing]⟩
      · obtain ⟨hended, hnothing⟩ := h.ends (Or.inr ⟨hcode, hopening, hclosing⟩) hmany
        exact ⟨hnothing, iff_of_true hended ⟨hclosing, fun hplace => absurd hplace hopening⟩⟩

/-- The child ends when the object does, unless it is about to say that something else is done:
that a file has been closed, or could not be opened. Pd's thread takes either for an answer to
its own request, and waits for the child in `pthread_join`. -/
theorem free_ends_iff [Zero α] {buf : Nat → α}
    {events : List (Event (Threads α) (Action α) Unit)}
    (hrun : Threads.LockedRuns P ⟨newObject buf, .ready⟩ events s) (hready : s.parent = .ready)
    (hmutex : ¬ s.object.Spins) {outcomes : List Bool} (hlong : readFrames+4 ≤ outcomes.length) :
    let t := (s.locked P .free).childSteps P outcomes
    (t.locked P .wake).parent = .freed ∧
      (t.object.child = .ended ↔ s.object.child ≠ .closing false ∧
        (s.object.child = .opening → outcomes.head? = some true)) := by
  have hfree : s.act P .free = ⟨{ s.object with requestcode := .requestQuit }, .freeing⟩ :=
    if_neg (not_not_intro hready)
  have horderly := (Orderly.run hrun).act .free
  rw [hfree] at horderly
  obtain ⟨hnothing, hended⟩ := horderly.quit_answered rfl hlong
  rw [Threads.locked_free _ hmutex, hfree]
  refine ⟨?_, hended⟩
  rw [Threads.wake_nothing hnothing, Threads.childSteps_parent]

def opens : List (Action Int) := [.openFile true, .wake, .call (.child true)]

/-- An object that goes away then ends, unless the file cannot be opened. -/
theorem free_ends_iff_opens :
    (((lockedWritten blockObject opens).locked blockObject .free).childSteps blockObject
      (true :: List.replicate 16388 true)).object.child = .ended ∧
    (((lockedWritten blockObject opens).locked blockObject .free).childSteps blockObject
      (false :: List.replicate 16388 true)).object.child ≠ .ended := by
  have hmutex : ¬ (lockedWritten blockObject opens).object.Spins := fun hspins => by
    cases hspins.1
  have hmany (succeeds : Bool) : readFrames+4 ≤ (succeeds :: List.replicate 16388 true).length := by
    rw [List.length_cons, List.length_replicate]
    decide
  obtain ⟨-, hends⟩ := free_ends_iff (P := blockObject) (s := lockedWritten blockObject opens)
    (Run.of_calls _ _ opens) rfl hmutex (hmany true)
  obtain ⟨-, hhangs⟩ := free_ends_iff (P := blockObject) (s := lockedWritten blockObject opens)
    (Run.of_calls _ _ opens) rfl hmutex (hmany false)
  constructor
  · exact hends.mpr ⟨fun hclosing => (by cases hclosing), fun _ => rfl⟩
  · intro hended
    cases (hhangs.mp hended).2 rfl

/-! Ticks. -/

theorem Orderly.waits (h : Orderly P s) (hready : s.parent = .ready)
    (hstate : s.object.state = .stateStream) (hmutex : ¬ s.object.Spins)
    (hwaits : s.object.Waits P) :
    s.object.requestcode = .requestBusy ∧ (s.object.child = .emptying ∨
      ∃ size tail n f, s.object.child = .splitting size tail n f) := by
  have hparent : s.Waiting := h.parent
  simp only [Threads.Waiting, hready] at hparent
  have hbehind := hwaits.1
  obtain ⟨-, hserves⟩ := hparent.2.2 (by simp [hstate])
  obtain ⟨hbusy, hplace⟩ := hserves.resolve_left (by omega)
  exact ⟨hbusy, hplace.resolve_left fun hrequest => hmutex ⟨hrequest, hbusy⟩⟩

/-- A tick that waits for the child captures its vector in the end, as long as the file can be
written. -/
theorem tick_captures [Zero α] {buf : Nat → α}
    {events : List (Event (Threads α) (Action α) Unit)}
    (hrun : Threads.LockedRuns P ⟨newObject buf, .ready⟩ events s) (hready : s.parent = .ready)
    (hstate : s.object.state = .stateStream) (hmutex : ¬ s.object.Spins) {outcomes : List Bool}
    (hwritten : ∀ succeeds ∈ outcomes, succeeds = true)
    (hlong : 4*P.fifosize+4 ≤ outcomes.length) (invecs : Nat → Nat → α) :
    ∃ k ≤ 4*P.fifosize+4, ((s.childSteps P (outcomes.take k)).object.perform P invecs).1 =
      vectorFrames invecs P.channels P.vecsize := by
  have horderly := Orderly.run hrun
  have happroaches : Approaches (fun (t : Threads α) o => t.locked P (.call (.child o)))
      (fun o => o = true)
      (fun t => Orderly P t ∧ t.parent = .ready ∧ t.object.state = .stateStream ∧
        ¬ t.object.Spins)
      (fun t => ¬ t.object.Waits P) (fun t => t.object.drainSteps) := by
    constructor
    · rintro t _ rfl ⟨ht, htready, htstate, htmutex⟩ hwaits
      rw [not_not] at hwaits
      obtain ⟨hbusy, hplace⟩ := ht.waits htready htstate htmutex hwaits
      have hspins : ¬ (t.object.childStep P true).Spins := by
        rw [childStep_spins true htmutex]
        rintro ⟨hfails, -⟩
        cases hfails
      rw [Threads.locked_child]
      refine ⟨⟨ht.childStep true, htready, (childStep_state true).trans htstate, hspins⟩, Or.inr ?_⟩
      cases hplace with
      | inl hemptying => exact (ht.drains hemptying (fun _ => hwaits.1) true).2
      | inr hsplitting =>
        obtain ⟨size, tail, n, f, hsplitting⟩ := hsplitting
        rw [drainSteps_childStep]
        exact (ht.writes (fun tail => by omega) hsplitting true).2
    · rintro t ⟨ht, htready, htstate, htmutex⟩ hzero hwaits
      obtain ⟨-, hplace⟩ := ht.waits htready htstate htmutex hwaits
      have hended := ended_of_stepsLeft (fun tail => by omega) hzero
      simp [hended] at hplace
  obtain ⟨k, hk, ⟨-, -, hstate', -⟩, hgoes⟩ := happroaches.within
    ⟨horderly, hready, hstate, hmutex⟩ hwritten (horderly.drainSteps_le.trans hlong)
  change ¬ (s.childSteps P (outcomes.take k)).object.Waits P at hgoes
  change (s.childSteps P (outcomes.take k)).object.state = .stateStream at hstate'
  refine ⟨k, hk.trans horderly.drainSteps_le, ?_⟩
  rw [perform, if_neg (not_not_intro hstate'), if_neg hgoes]

def streams : List (Action Int) :=
  [.openFile true, .wake, .call (.child true), .call (.child true), .call .start,
    .call (.perform fun c f => 4*f+c), .call (.child true)]

/-- The first vector is written, and the next ones reach the end of the fifo. -/
def fillsUp : List (Action Int) := List.replicate 16385 (.call (.child true)) ++
  [.call (.perform fun _ _ => 4), .call (.perform fun _ _ => 5), .call (.perform fun _ _ => 6)]

/-- The next tick waits for the child, and captures its vector. -/
theorem tick_captures_waits : (lockedWritten blockObject (streams ++ fillsUp)).object.Waits
      blockObject ∧
    ∃ k ≤ 4*blockObject.fifosize+4,
      (((lockedWritten blockObject (streams ++ fillsUp)).childSteps blockObject
        ((List.replicate 262148 true).take k)).object.perform blockObject fun _ _ => 8).1 =
        vectorFrames (fun _ _ => 8) 4 16384 := by
  have hsplits : (lockedWritten blockObject streams).object.child =
      .splitting 65536 0 16384 0 := rfl
  obtain ⟨bufs, file, hblock⟩ := childStep_block (P := blockObject) hsplits rfl
  have hstep (s : Threads Int) : (Threads.lockedAnswer blockObject s (.call (.child true))).2 =
      { s with object := s.object.childStep blockObject true } := Threads.locked_child true
  obtain ⟨s, hs, hready, hchild, hstate, hsize, htail, hhead⟩ : ∃ s : Threads Int,
      leadsTo (Threads.lockedAnswer blockObject) (lockedWritten blockObject streams)
        (List.replicate 16385 (.call (.child true))) = s ∧ s.parent = .ready ∧
      s.object.child = .emptying ∧ s.object.state = .stateStream ∧ s.object.fifosize = 65536 ∧
      s.object.fifotail = 16384 ∧ s.object.fifohead = 16384 := by
    have hstart : (lockedWritten blockObject streams).object.fifotail = 0 := rfl
    rw [leadsTo_replicate, funext hstep, Threads.children, hblock, hstart]
    exact ⟨_, rfl, rfl, rfl, rfl, rfl, rfl, rfl⟩
  obtain ⟨t, ht, hready, hchild, hstate, htail, hhead⟩ : ∃ t : Threads Int,
      lockedWritten blockObject (streams ++ fillsUp) = t ∧ t.parent = .ready ∧
      t.object.child = .emptying ∧ t.object.state = .stateStream ∧ t.object.fifotail = 16384 ∧
      t.object.fifohead = 0 := by
    rw [lockedWritten, fillsUp, leadsTo_append, leadsTo_append, ← lockedWritten, hs]
    simp [leadsTo, Threads.lockedAnswer, Threads.locked, Threads.act, Call.isChild, step, perform,
      Waits, blockObject, hready, hchild, hstate, hsize, htail, hhead]
  have hrun := Run.of_calls (Threads.lockedAnswer blockObject) ⟨newObject fun _ => 0, .ready⟩
    (streams ++ fillsUp)
  rw [← lockedWritten, ht] at hrun
  rw [ht]
  refine ⟨⟨by rw [htail, hhead]; decide, by rw [htail, hhead]; decide⟩, ?_⟩
  exact tick_captures hrun hready hstate (fun hspins => by cases hchild.symm.trans hspins.1)
    (fun _ h => List.eq_of_mem_replicate h) (by rw [List.length_replicate]; decide) _

end AmbixWrite
end Ambix
