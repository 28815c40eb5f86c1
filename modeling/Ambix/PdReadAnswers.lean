import Ambix.Machine.Response
import Ambix.PdDispatch

/-! What ambix_read~.c answers. Pd's thread waits in `free` until the child has ended, and a tick
that finds the fifo hungry waits until the child has fed it, or has come to the end of the file. -/
namespace Ambix
open Machine
namespace AmbixRead
variable {α : Type} [Zero α] (B : SampleBytes α) (P : PdObject)

/-- Steps of the child, with what the library answers in them. -/
def Threads.childSteps (s : Threads α) (answers : List (Option Nat)) : Threads α :=
  answers.foldl (fun s answer => s.act B P (.call (.child answer))) s

omit [Zero α] in
structure Orderly (s : Threads α) : Prop where
  reading : ∀ size head want, s.object.child = .reading size head want → want ≤ readFrames
  merging : ∀ size head n f, s.object.child = .merging size head n f → n ≤ readFrames
  quits : s.object.requestcode = .requestQuit → s.parent = .freeing
  freeing : s.parent = .freeing → s.object.requestcode = .requestQuit ∨
    (s.object.child = .ended ∧ s.object.requestcode = .requestNothing)
  ended : s.object.child = .ended → s.parent ≠ .ready
  waiting : s.object.waiting = true → s.object.state = .stateStream ∧ s.parent = .ready

variable {B P} {s : Threads α}

theorem Threads.act_child (s : Threads α) (answer : Option Nat) :
    s.act B P (.call (.child answer)) =
      { s with object := s.object.childStep B P answer } := by
  apply if_neg
  intro h
  cases h.2

omit [Zero α] in
theorem wantframes_le {size head tail want : Nat}
    (h : wantframes size head tail = some want) : want ≤ readFrames := by
  unfold wantframes at h
  split at h
  · split at h
    · cases h
      split <;> omega
    · cases h
  · split at h
    · cases h
    · cases h
      exact le_rfl

omit [Zero α] in
theorem delivery_le (x : AmbixRead α) (n want : Nat) : (x.delivery n want).length ≤ want :=
  (List.length_take_le _ _).trans (Nat.min_le_right _ _)

omit [Zero α] in
theorem Orderly.goesOn (h : Orderly s) (hlives : s.object.child ≠ .ended) {x : AmbixRead α}
    (hcode : x.requestcode = s.object.requestcode)
    (haudio : x.state = s.object.state ∧ x.waiting = s.object.waiting) (hended : x.child ≠ .ended)
    (hreading : ∀ size head want, x.child = .reading size head want → want ≤ readFrames)
    (hmerging : ∀ size head n f, x.child = .merging size head n f → n ≤ readFrames) :
    Orderly ⟨x, s.parent⟩ where
  reading := hreading
  merging := hmerging
  quits hquit := h.quits (hcode.symm.trans hquit)
  freeing hfreeing := Or.inl (hcode.trans
    ((h.freeing hfreeing).resolve_right fun hend => hlives hend.1))
  ended hend := absurd hend hended
  waiting := by
    simp only [haudio.1, haudio.2]
    exact h.waiting

omit [Zero α] in
theorem Orderly.lost (h : Orderly s) (hlives : s.object.child ≠ .ended) {x : AmbixRead α}
    (hcode : x.requestcode = s.object.requestcode)
    (haudio : x.state = s.object.state ∧ x.waiting = s.object.waiting) :
    Orderly ⟨x.lost, s.parent⟩ := by
  refine ⟨by simp [AmbixRead.lost], by simp [AmbixRead.lost], ?_, ?_, by simp [AmbixRead.lost], ?_⟩
  · by_cases hbusy : x.requestcode = .requestBusy
    · simp [AmbixRead.lost, hbusy]
    · intro hquit
      rw [AmbixRead.lost] at hquit
      simp only [hbusy, if_false] at hquit
      exact h.quits (hcode.symm.trans hquit)
  · intro hfreeing
    have hquit := (h.freeing hfreeing).resolve_right fun hend => hlives hend.1
    exact Or.inl (by simp [AmbixRead.lost, hcode, hquit])
  · simp only [AmbixRead.lost, haudio.1, haudio.2]
    exact h.waiting

theorem Orderly.childStep (h : Orderly s) (answer : Option Nat) :
    Orderly { s with object := s.object.childStep B P answer } := by
  cases hplace : s.object.child with
  | request =>
    have hlives : s.object.child ≠ .ended := by simp [hplace]
    have hfreeing (hparent : s.parent = .freeing) : s.object.requestcode = .requestQuit :=
      (h.freeing hparent).resolve_right fun hend => hlives hend.1
    cases hcode : s.object.requestcode with
    | requestOpen =>
      simp only [AmbixRead.childStep, hplace, hcode]
      refine ⟨by simp, by simp, by simp, fun hparent => ?_, by simp, h.waiting⟩
      cases hcode.symm.trans (hfreeing hparent)
    | requestClose =>
      simp only [AmbixRead.childStep, hplace, hcode]
      refine ⟨by simp, by simp, by simp, fun hparent => ?_, by simp, h.waiting⟩
      cases hcode.symm.trans (hfreeing hparent)
    | requestQuit =>
      simp only [AmbixRead.childStep, hplace, hcode]
      have hparent := h.quits hcode
      exact ⟨by simp, by simp, by simp, fun _ => Or.inr ⟨rfl, rfl⟩, by simp [hparent], h.waiting⟩
    | requestNothing => simpa only [AmbixRead.childStep, hplace, hcode] using h
    | requestBusy => simpa only [AmbixRead.childStep, hplace, hcode] using h
  | opening file =>
    have hlives : s.object.child ≠ .ended := by simp [hplace]
    simp only [AmbixRead.childStep, hplace]
    cases answer with
    | none => exact h.lost hlives rfl ⟨rfl, rfl⟩
    | some n =>
      by_cases hbusy : s.object.requestcode = .requestBusy
      · simp only [opened, hbusy, ne_eq, not_true, if_false]
        exact h.goesOn hlives hbusy.symm ⟨rfl, rfl⟩ (by simp) (by simp) (by simp)
      · simp only [opened, hbusy, ne_eq, not_false_eq_true, if_true]
        exact h.lost hlives rfl ⟨rfl, rfl⟩
  | feeding =>
    have hlives : s.object.child ≠ .ended := by simp [hplace]
    simp only [AmbixRead.childStep, hplace]
    split
    · exact h.lost hlives rfl ⟨rfl, rfl⟩
    · split
      · exact h
      · next want hwant =>
        refine h.goesOn hlives rfl ⟨rfl, rfl⟩ (by simp) ?_ (by simp)
        rintro size head want' ⟨⟩
        exact wantframes_le hwant
  | reading size head want =>
    have hlives : s.object.child ≠ .ended := by simp [hplace]
    simp only [AmbixRead.childStep, hplace]
    cases answer with
    | none => exact h.lost hlives rfl ⟨rfl, rfl⟩
    | some n =>
      dsimp only
      split
      · refine h.goesOn hlives rfl ⟨rfl, rfl⟩ (by simp) (by simp) ?_
        rintro size' head' n' f ⟨⟩
        exact (delivery_le _ n want).trans (h.reading _ _ _ hplace)
      · split
        · exact h.lost hlives rfl ⟨rfl, rfl⟩
        · exact h.lost hlives rfl ⟨rfl, rfl⟩
  | merging size head n f =>
    have hlives : s.object.child ≠ .ended := by simp [hplace]
    simp only [AmbixRead.childStep, hplace]
    split
    · refine h.goesOn hlives rfl ⟨rfl, rfl⟩ (by simp) (by simp) ?_
      rintro size' head' n' f' ⟨⟩
      exact h.merging _ _ _ _ hplace
    · split
      · exact h.lost hlives rfl ⟨rfl, rfl⟩
      · exact h.goesOn hlives rfl ⟨rfl, rfl⟩ (by simp) (by simp) (by simp)
  | closing =>
    have hlives : s.object.child ≠ .ended := by simp [hplace]
    simp only [AmbixRead.childStep, hplace]
    exact h.goesOn hlives rfl ⟨rfl, rfl⟩ (by simp) (by simp) (by simp)
  | ended => simpa only [AmbixRead.childStep, hplace] using h

omit [Zero α] in
theorem Orderly.audio (h : Orderly s) {x : AmbixRead α} (hchild : x.child = s.object.child)
    (hcode : x.requestcode = s.object.requestcode)
    (hwaiting : x.waiting = true → x.state = .stateStream ∧ s.parent = .ready) :
    Orderly ⟨x, s.parent⟩ where
  reading := by simpa only [hchild] using h.reading
  merging := by simpa only [hchild] using h.merging
  quits := by simpa only [hcode] using h.quits
  freeing := by simpa only [hchild, hcode] using h.freeing
  ended := by simpa only [hchild] using h.ended
  waiting := hwaiting

theorem Orderly.perform (h : Orderly s) (hready : s.parent = .ready)
    (outvecs : Nat → Nat → α) : Orderly { s with object := (s.object.perform P outvecs).2 } := by
  unfold AmbixRead.perform
  split
  · exact h
  · next hstreams =>
    split
    · refine h.audio rfl rfl fun _ => ⟨?_, hready⟩
      cases not_not.mp hstreams with
      | inl hwaiting => exact (h.waiting hwaiting).1
      | inr hstate => exact hstate.2.2
    · split
      · exact h.audio rfl rfl (by simp [drain])
      · exact h.audio rfl rfl (by simp [play])

omit [Zero α] in
theorem Orderly.stop (h : Orderly s) (hready : s.parent = .ready)
    (hwaiting : ¬ s.object.waiting = true) : Orderly { s with object := s.object.stop } := by
  refine ⟨h.reading, h.merging, by simp [AmbixRead.stop], by simp [hready], h.ended, ?_⟩
  exact fun hwait => absurd hwait hwaiting

theorem Orderly.call {c : Call α} (h : Orderly s) (hready : s.parent = .ready)
    (hc : c.isChild = false) : Orderly { s with object := (s.object.step B P c).2 } := by
  cases c with
  | child answer => cases hc
  | start =>
    dsimp only [step]
    by_cases hwaiting : s.object.waiting = true
    · rwa [if_pos hwaiting]
    · rw [if_neg hwaiting, AmbixRead.start]
      split
      · exact h.audio rfl rfl fun hwait => absurd hwait hwaiting
      · exact h
  | stop =>
    dsimp only [step]
    by_cases hwaiting : s.object.waiting = true
    · rwa [if_pos hwaiting]
    · rw [if_neg hwaiting]
      exact h.stop hready hwaiting
  | tick =>
    dsimp only [step]
    by_cases hwaiting : s.object.waiting = true
    · rwa [if_pos hwaiting]
    · rw [if_neg hwaiting]
      exact h.audio rfl rfl fun hwait => absurd hwait hwaiting
  | perform outvecs => exact h.perform hready outvecs

theorem Orderly.act (h : Orderly s) (a : Action α) : Orderly (s.act B P a) := by
  cases a with
  | openFile file =>
    by_cases hwaits : s.parent ≠ .ready ∨ s.object.waiting
    · have hact : s.act B P (.openFile file) = s := if_pos hwaits
      rwa [hact]
    · obtain ⟨hready, hwaiting⟩ := not_or.mp hwaits
      cases file with
      | none =>
        have hact : s.act B P (.openFile none) = s := if_neg hwaits
        rwa [hact]
      | some file =>
        have hact : s.act B P (.openFile (some file)) =
            { s with object := s.object.openFile file } := if_neg hwaits
        rw [hact]
        refine ⟨h.reading, h.merging, by simp [AmbixRead.openFile], ?_, h.ended, ?_⟩
        · simp [not_not.mp hready]
        · exact fun hwait => absurd hwait hwaiting
  | free =>
    by_cases hwaits : s.parent ≠ .ready ∨ s.object.waiting
    · rwa [Threads.act, if_pos hwaits]
    · rw [Threads.act, if_neg hwaits]
      obtain ⟨hready, hwaiting⟩ := not_or.mp hwaits
      exact ⟨h.reading, h.merging, fun _ => rfl, fun _ => Or.inl rfl, by simp,
        fun hwait => absurd hwait hwaiting⟩
  | wake =>
    by_cases hwaits : s.object.requestcode ≠ .requestNothing ∨ s.parent ≠ .freeing
    · rwa [Threads.act, if_pos hwaits]
    · rw [Threads.act, if_neg hwaits]
      obtain ⟨hnothing, hfreeing⟩ := not_or.mp hwaits
      refine ⟨h.reading, h.merging, ?_, by simp, by simp, ?_⟩
      · simp [not_not.mp hnothing]
      · intro hwait
        simpa [not_not.mp hfreeing] using h.waiting hwait
  | call c =>
    by_cases hwaits : s.parent ≠ .ready ∧ c.isChild = false
    · rwa [Threads.act, if_pos hwaits]
    · rw [Threads.act, if_neg hwaits]
      have hready (hc : c.isChild = false) : s.parent = .ready :=
        not_not.mp fun hbusy => hwaits ⟨hbusy, hc⟩
      cases c with
      | child answer => exact h.childStep answer
      | start => exact h.call (hready rfl) rfl
      | stop => exact h.call (hready rfl) rfl
      | tick => exact h.call (hready rfl) rfl
      | perform outvecs => exact h.call (hready rfl) rfl

theorem Orderly.newObject (buf : Nat → α) : Orderly ⟨AmbixRead.newObject buf, .ready⟩ := by
  constructor <;> simp [AmbixRead.newObject]

theorem Orderly.run {buf : Nat → α} {events : List (Event (Threads α) (Action α) Unit)}
    (hrun : Threads.Runs B P ⟨AmbixRead.newObject buf, .ready⟩ events s) : Orderly s := by
  apply hrun.preserves Orderly (Orderly.newObject buf)
  intro t a _ u hstep h
  rw [← answered_state hstep]
  exact h.act a

theorem Threads.childSteps_parent (s : Threads α) (answers : List (Option Nat)) :
    (s.childSteps B P answers).parent = s.parent := by
  induction answers generalizing s with
  | nil => rfl
  | cons answer answers ih =>
    rw [childSteps, List.foldl_cons, act_child]
    exact ih _

/-! The end of an object. -/

omit [Zero α] in
def quitSteps (x : AmbixRead α) : Nat :=
  match x.child with
  | .request => 1
  | .closing => 2
  | .opening _ | .feeding => 3
  | .merging _ _ n f => n-f+3
  | .reading _ _ want => want+4
  | .ended => 0

theorem childStep_quits {x : AmbixRead α} (hcode : x.requestcode = .requestQuit)
    (hlives : x.child ≠ .ended) (answer : Option Nat) :
    ((x.childStep B P answer).requestcode = .requestQuit ∧
        (x.childStep B P answer).child ≠ .ended ∧
        (x.childStep B P answer).quitSteps < x.quitSteps) ∨
      ((x.childStep B P answer).requestcode = .requestNothing ∧
        (x.childStep B P answer).child = .ended) := by
  cases hplace : x.child with
  | request => exact Or.inr (by simp [childStep, hplace, hcode])
  | opening file =>
    left
    simp only [childStep, hplace]
    cases answer with
    | none => simp [hcode, lost, quitSteps, hplace]
    | some n => simp [opened, hcode, lost, quitSteps, hplace]
  | feeding =>
    left
    simp [childStep, hplace, hcode, lost, quitSteps]
  | reading size head want =>
    left
    simp only [childStep, hplace]
    cases answer with
    | none => simp [hcode, lost, quitSteps, hplace]
    | some n =>
      have hblock := delivery_le x n want
      dsimp only
      split
      · simp only [readf, hcode, quitSteps, hplace, true_and]
        exact ⟨by simp, by omega⟩
      · simp [hcode, lost, quitSteps, hplace]
  | merging size head n f =>
    left
    simp only [childStep, hplace]
    split
    · simp only [hcode, quitSteps, hplace, true_and]
      exact ⟨by simp, by omega⟩
    · simp [hcode, lost, quitSteps, hplace]
  | closing =>
    left
    simp [childStep, hplace, hcode, quitSteps]
  | ended => exact absurd hplace hlives

omit [Zero α] in
theorem Orderly.quitSteps_le (h : Orderly s) : s.object.quitSteps ≤ readFrames+4 := by
  unfold quitSteps
  cases hplace : s.object.child with
  | reading size head want => exact Nat.add_le_add_right (h.reading _ _ _ hplace) 4
  | merging size head n f =>
    have hblock := h.merging _ _ _ _ hplace
    dsimp only
    omega
  | request => exact Nat.le_add_left _ _
  | opening file => exact Nat.le_add_left _ _
  | feeding => exact Nat.le_add_left _ _
  | closing => exact Nat.le_add_left _ _
  | ended => exact Nat.zero_le _

/-- The child ends when the object does, wherever it is and whatever the library answers. -/
theorem free_ends {buf : Nat → α} {events : List (Event (Threads α) (Action α) Unit)}
    (hrun : Threads.Runs B P ⟨newObject buf, .ready⟩ events s) (hready : s.parent = .ready)
    (hwaiting : s.object.waiting = false) {answers : List (Option Nat)}
    (hlong : readFrames+4 ≤ answers.length) :
    let t := (s.act B P .free).childSteps B P answers
    t.object.child = .ended ∧ (t.act B P .wake).parent = .freed := by
  have horderly := (Orderly.run hrun).act (B := B) (P := P) .free
  have hfree : s.act B P .free =
      ⟨{ s.object with requestcode := .requestQuit }, .freeing⟩ :=
    if_neg (by simp [hready, hwaiting])
  have happroaches : Approaches (fun (t : Threads α) a => t.act B P (.call (.child a)))
      (fun _ => True)
      (fun t => (t.object.requestcode = .requestQuit ∧ t.object.child ≠ .ended) ∨
        (t.object.requestcode = .requestNothing ∧ t.object.child = .ended))
      (fun t => t.object.requestcode = .requestNothing ∧ t.object.child = .ended)
      (fun t => t.object.quitSteps) := by
    constructor
    · intro t answer _ h hgoal
      obtain ⟨hcode, hlives⟩ := h.resolve_right hgoal
      rw [Threads.act_child]
      cases childStep_quits (B := B) (P := P) hcode hlives answer with
      | inl hnext => exact ⟨Or.inl ⟨hnext.1, hnext.2.1⟩, Or.inr hnext.2.2⟩
      | inr hend => exact ⟨Or.inr hend, Or.inl hend⟩
    · intro t h hzero
      refine h.resolve_left fun hlives => hlives.2 ?_
      cases hplace : t.object.child <;> simp_all [quitSteps]
  intro t
  have hended : t.object.requestcode = .requestNothing ∧ t.object.child = .ended := by
    refine happroaches.stays (fun u answer hend => ?_) (Or.inl ?_) (fun _ _ => trivial)
      (horderly.quitSteps_le.trans hlong)
    · rw [Threads.act_child]
      simp [childStep, hend]
    · rw [hfree]
      exact ⟨rfl, fun hend => (Orderly.run hrun).ended hend hready⟩
  have hparent : t.parent = .freeing := by
    rw [Threads.childSteps_parent, hfree]
  refine ⟨hended.2, ?_⟩
  rw [Threads.act, if_neg (by simp [hended.1, hparent])]

def played (actions : List (Action Int)) : Threads Int :=
  leadsTo (Threads.answer ⟨4, fun _ s => s⟩ smallObject) ⟨newObject fun _ => 0, .ready⟩ actions

def reopens : List (Action Int) :=
  [.openFile (some twoFrames), .call (.child none), .call (.child (some 0)), .call (.child none),
    .openFile (some twoFrames)]

theorem free_ends_reopens :
    let t := ((played reopens).act ⟨4, fun _ s => s⟩ smallObject .free).childSteps
      ⟨4, fun _ s => s⟩ smallObject (List.replicate 16388 none)
    t.object.child = .ended ∧ (t.act ⟨4, fun _ s => s⟩ smallObject .wake).parent = .freed :=
  free_ends (s := played reopens) (Run.of_calls _ _ reopens) rfl rfl
    (by rw [List.length_replicate]; decide)

end AmbixRead
end Ambix
