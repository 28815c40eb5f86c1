import Ambix.PdDispatch

/-! The threads of ambix_write~.c with the mutex: a child that spins keeps it, so that Pd's
thread does nothing any more. Where either thread is says which requests there may be. -/
namespace Ambix
open Machine

/-- Requests that may be there where the child is. -/
def WriteChild.Fits : WriteChild → RequestCode → Prop
  | .request, _ => True
  | .opening, code | .emptying, code | .splitting .., code =>
    code = .requestBusy ∨ code = .requestClose ∨ code = .requestQuit
  | .closing quit, code => code = .requestQuit ∨ (code = .requestClose ∧ quit = false)
  | .ended, code => code = .requestNothing

namespace AmbixWrite
variable {α : Type} (P : PdObject)

/-- A step of Pd's thread needs the mutex. -/
def Threads.locked (s : Threads α) (a : Action α) : Threads α :=
  match a, s.object.child, s.object.requestcode with
  | .call (.child succeeds), _, _ => s.act P (.call (.child succeeds))
  | _, .request, .requestBusy => s
  | _, _, _ => s.act P a

def Threads.lockedAnswer (s : Threads α) (a : Action α) : Unit × Threads α := ((), s.locked P a)

abbrev Threads.LockedRuns (s : Threads α) (events : List (Event (Threads α) (Action α) Unit))
    (t : Threads α) : Prop := Run (fun s a => .ok (s.lockedAnswer P a)) s events t

/-- Steps of the child, with what becomes of the calls of the library in them. -/
def Threads.childSteps (s : Threads α) (outcomes : List Bool) : Threads α :=
  outcomes.foldl (fun s succeeds => s.locked P (.call (.child succeeds))) s

/-- The child gets the object ready for a tick that waits, or cannot any more. -/
def Serves (x : AmbixWrite α) : Prop :=
  x.requestcode = .requestBusy ∧
    (x.child = .request ∨ x.child = .emptying ∨ ∃ size tail n f, x.child = .splitting size tail n f)

/-- Requests that may be there where Pd's thread is. -/
def Threads.Waiting (s : Threads α) : Prop :=
  match s.parent with
  | .ready =>
    s.object.requestcode ≠ .requestQuit ∧
      (s.object.state = .stateIdle →
        s.object.requestcode ≠ .requestOpen ∧ s.object.requestcode ≠ .requestBusy) ∧
      (s.object.state ≠ .stateIdle →
        s.object.requestcode ≠ .requestClose ∧ (s.object.fifotail = 0 ∨ s.object.Serves))
  | .opening => s.object.requestcode = .requestClose ∨ s.object.requestcode = .requestNothing
  | .freeing => s.object.requestcode = .requestQuit ∨ s.object.requestcode = .requestNothing
  | .freed => s.object.requestcode = .requestNothing

structure Orderly (s : Threads α) : Prop where
  size : s.object.fifosize ≤ P.fifosize
  head : s.object.fifohead < s.object.fifosize ∨ s.object.fifohead = 0
  tail : s.object.fifotail < s.object.fifosize ∨ s.object.fifotail = 0
  splitting : ∀ size tail n f, s.object.child = .splitting size tail n f →
    size = s.object.fifosize ∧ tail = s.object.fifotail ∧ tail+n ≤ size ∧ f ≤ n ∧ n ≤ readFrames
  child : s.object.child.Fits s.object.requestcode
  ended : s.object.child = .ended ∨ s.object.child = .closing true →
    s.parent = .freeing ∨ s.parent = .freed
  parent : s.Waiting

variable {P} {s : Threads α}

theorem Threads.locked_child (succeeds : Bool) :
    s.locked P (.call (.child succeeds)) =
      { s with object := s.object.childStep P succeeds } := by
  rw [locked, act_child]

theorem Threads.locked_cases (a : Action α) : s.locked P a = s ∨ s.locked P a = s.act P a := by
  unfold locked
  split
  · exact Or.inr rfl
  · exact Or.inl rfl
  · exact Or.inr rfl

theorem childStep_fifo (x : AmbixWrite α) (succeeds : Bool) :
    (x.childStep P succeeds).fifohead = x.fifohead ∧
      (x.childStep P succeeds).fifosize = x.fifosize := by
  rw [childStep]
  cases x.child with
  | request =>
    dsimp only
    split
    · exact ⟨rfl, rfl⟩
    · split <;> exact ⟨rfl, rfl⟩
    · split <;> exact ⟨rfl, rfl⟩
    · exact ⟨rfl, rfl⟩
    · exact ⟨rfl, rfl⟩
  | opening =>
    dsimp only
    split
    · exact ⟨rfl, rfl⟩
    · split <;> exact ⟨rfl, rfl⟩
  | emptying =>
    dsimp only
    split
    · split <;> exact ⟨rfl, rfl⟩
    · exact ⟨rfl, rfl⟩
  | splitting size tail n f =>
    dsimp only
    split
    · exact ⟨rfl, rfl⟩
    · split
      · exact ⟨rfl, rfl⟩
      · split <;> exact ⟨rfl, rfl⟩
  | closing quit => exact ⟨rfl, rfl⟩
  | ended => exact ⟨rfl, rfl⟩

@[simp] theorem writef_fifotail (x : AmbixWrite α) (n : Nat) :
    (x.writef P n).fifotail = x.fifotail := rfl

theorem writeframes_fits {x : AmbixWrite α}
    (hhead : x.fifohead < x.fifosize ∨ x.fifohead = 0)
    (htail : x.fifotail < x.fifosize ∨ x.fifotail = 0) :
    x.fifotail+x.writeframes ≤ x.fifosize ∧ x.writeframes ≤ readFrames ∧
      (x.fifohead ≠ x.fifotail → 0 < x.writeframes) := by
  unfold writeframes readFrames
  by_cases hwraps : x.fifohead < x.fifotail
  · simp only [hwraps, if_true]
    split <;> omega
  · simp only [hwraps, if_false]
    split <;> omega

theorem Threads.Waiting.opens (h : s.Waiting) (hcode : s.object.requestcode = .requestOpen) :
    s.parent = .ready ∧ s.object.state ≠ .stateIdle ∧ s.object.fifotail = 0 := by
  unfold Waiting at h
  cases hparent : s.parent with
  | ready =>
    simp only [hparent, hcode] at h
    have hstate : s.object.state ≠ .stateIdle := fun hidle => (h.2.1 hidle).1 rfl
    refine ⟨rfl, hstate, (h.2.2 hstate).2.resolve_right fun hserves => ?_⟩
    exact absurd (hcode.symm.trans hserves.1) (by decide)
  | opening => simp [hparent, hcode] at h
  | freeing => simp [hparent, hcode] at h
  | freed => simp [hparent, hcode] at h

theorem Threads.Waiting.quits (h : s.Waiting) (hcode : s.object.requestcode = .requestQuit) :
    s.parent = .freeing := by
  unfold Waiting at h
  cases hparent : s.parent with
  | ready => simp [hparent, hcode] at h
  | opening => simp [hparent, hcode] at h
  | freeing => rfl
  | freed => simp [hparent, hcode] at h

theorem Threads.Waiting.answered (h : s.Waiting) (hserves : ¬ s.object.Serves) {x : AmbixWrite α}
    (hstate : x.state = s.object.state) (htail : x.fifotail = s.object.fifotail)
    (hcode : x.requestcode = .requestNothing) : Threads.Waiting ⟨x, s.parent⟩ := by
  unfold Waiting at h ⊢
  cases hparent : s.parent with
  | ready =>
    simp only [hparent] at h
    simp only [hcode, hstate, htail]
    refine ⟨by decide, fun _ => by decide, fun hrunning => ⟨by decide, ?_⟩⟩
    exact Or.inl ((h.2.2 hrunning).2.resolve_right hserves)
  | opening => exact Or.inr hcode
  | freeing => exact Or.inr hcode
  | freed => exact hcode

theorem Threads.Waiting.goesOn (h : s.Waiting) {x : AmbixWrite α}
    (hstate : x.state = s.object.state) (hcode : x.requestcode = s.object.requestcode)
    (htail : s.object.requestcode ≠ .requestClose →
      s.object.fifotail = 0 ∨ s.object.Serves → x.fifotail = 0 ∨ x.Serves) :
    Threads.Waiting ⟨x, s.parent⟩ := by
  unfold Waiting at h ⊢
  cases hparent : s.parent with
  | ready =>
    simp only [hparent] at h
    simp only [hcode, hstate]
    exact ⟨h.1, h.2.1, fun hrunning =>
      ⟨(h.2.2 hrunning).1, htail (h.2.2 hrunning).1 (h.2.2 hrunning).2⟩⟩
  | opening => simpa only [hparent, hcode] using h
  | freeing => simpa only [hparent, hcode] using h
  | freed => simpa only [hparent, hcode] using h

theorem Orderly.request (h : Orderly P s) (hplace : s.object.child = .request)
    (succeeds : Bool) : Orderly P { s with object := s.object.childStep P succeeds } := by
  have hserves (hcode : s.object.requestcode ≠ .requestBusy) : ¬ s.object.Serves :=
    fun hserves => hcode hserves.1
  cases hcode : s.object.requestcode with
  | requestNothing => simpa only [AmbixWrite.childStep, hplace, hcode] using h
  | requestOpen =>
    obtain ⟨hready, hstate, htail⟩ := h.parent.opens hcode
    simp only [AmbixWrite.childStep, hplace, hcode]
    refine ⟨h.size, h.head, h.tail, by simp, Or.inl rfl, by simp, ?_⟩
    simp [Threads.Waiting, hready, hstate, htail]
  | requestClose =>
    have hanswered := hserves (by simp [hcode])
    by_cases hhandle : s.object.handle = true
    · simp only [AmbixWrite.childStep, hplace, hcode, hhandle, if_true]
      refine ⟨h.size, h.head, h.tail, by simp, Or.inr ⟨rfl, rfl⟩, by simp, ?_⟩
      exact h.parent.goesOn rfl hcode.symm fun hclose => absurd hcode hclose
    · simp only [AmbixWrite.childStep, hplace, hcode, hhandle]
      exact ⟨h.size, h.head, h.tail, by simp, by simp [WriteChild.Fits], by simp,
        h.parent.answered hanswered rfl rfl rfl⟩
  | requestQuit =>
    have hanswered := hserves (by simp [hcode])
    have hfreeing := h.parent.quits hcode
    by_cases hhandle : s.object.handle = true
    · simp only [AmbixWrite.childStep, hplace, hcode, hhandle, if_true]
      refine ⟨h.size, h.head, h.tail, by simp, Or.inl rfl, fun _ => Or.inl hfreeing, ?_⟩
      exact h.parent.goesOn rfl hcode.symm fun _ => Or.imp_right fun hserve =>
        absurd hserve hanswered
    · simp only [AmbixWrite.childStep, hplace, hcode, hhandle]
      exact ⟨h.size, h.head, h.tail, by simp, rfl, fun _ => Or.inl hfreeing,
        h.parent.answered hanswered rfl rfl rfl⟩
  | requestBusy => simpa only [AmbixWrite.childStep, hplace, hcode] using h

theorem Orderly.opening (h : Orderly P s) (hplace : s.object.child = .opening)
    (succeeds : Bool) : Orderly P { s with object := s.object.childStep P succeeds } := by
  have hserves : ¬ s.object.Serves := by simp [Serves, hplace]
  cases succeeds with
  | false =>
    simp only [AmbixWrite.childStep, hplace, if_true]
    exact ⟨h.size, h.head, h.tail, by simp, trivial, by simp,
      h.parent.answered hserves rfl rfl rfl⟩
  | true =>
    by_cases hbusy : s.object.requestcode = .requestBusy
    · simp only [AmbixWrite.childStep, hplace, hbusy, Bool.true_eq_false, ne_eq, not_true,
        if_false]
      refine ⟨h.size, h.head, Or.inr rfl, by simp, Or.inl rfl, by simp, ?_⟩
      exact h.parent.goesOn rfl hbusy.symm fun _ _ => Or.inl rfl
    · simp only [AmbixWrite.childStep, hplace, hbusy, Bool.true_eq_false, ne_eq, not_false_eq_true,
        if_true, if_false]
      refine ⟨h.size, h.head, h.tail, by simp, trivial, by simp, ?_⟩
      exact h.parent.goesOn rfl rfl fun _ => Or.imp_right fun hserve => absurd hserve hserves

theorem Orderly.emptying (h : Orderly P s) (hplace : s.object.child = .emptying)
    (succeeds : Bool) : Orderly P { s with object := s.object.childStep P succeeds } := by
  have hfits : s.object.child.Fits s.object.requestcode := h.child
  rw [hplace] at hfits
  by_cases hgoes : s.object.requestcode = .requestBusy ∨
      (s.object.requestcode = .requestClose ∧ s.object.fifohead ≠ s.object.fifotail)
  · by_cases hfull : s.object.Full
    · obtain ⟨hend, hblock, -⟩ := writeframes_fits h.head h.tail
      simp only [AmbixWrite.childStep, hplace, hgoes, hfull, if_true]
      refine ⟨h.size, h.head, h.tail, ?_, hfits, by simp, ?_⟩
      · rintro size tail n f ⟨⟩
        exact ⟨rfl, rfl, hend, Nat.zero_le _, hblock⟩
      · exact h.parent.goesOn rfl rfl fun _ => Or.imp_right fun hserve =>
          ⟨hserve.1, Or.inr (Or.inr ⟨_, _, _, _, rfl⟩)⟩
    · simpa only [AmbixWrite.childStep, hplace, hgoes, hfull, if_true, if_false] using h
  · simp only [AmbixWrite.childStep, hplace, hgoes, if_false]
    refine ⟨h.size, h.head, h.tail, by simp, trivial, by simp, ?_⟩
    exact h.parent.goesOn rfl rfl fun _ => Or.imp_right fun hserve => ⟨hserve.1, Or.inl rfl⟩

theorem Orderly.splits {size tail n f : Nat} (h : Orderly P s)
    (hplace : s.object.child = .splitting size tail n f) (succeeds : Bool) :
    Orderly P { s with object := s.object.childStep P succeeds } := by
  obtain ⟨hsize, htail, hend, hf, hblock⟩ := h.splitting _ _ _ _ hplace
  have hfits : s.object.child.Fits s.object.requestcode := h.child
  rw [hplace] at hfits
  by_cases hpass : f < n
  · simp only [AmbixWrite.childStep, hplace, hpass, if_true]
    refine ⟨h.size, h.head, h.tail, ?_, hfits, by simp, ?_⟩
    · rintro size' tail' n' f' ⟨⟩
      exact ⟨hsize, htail, hend, hpass, hblock⟩
    · exact h.parent.goesOn rfl rfl fun _ => Or.imp_right fun hserve =>
        ⟨hserve.1, Or.inr (Or.inr ⟨_, _, _, _, rfl⟩)⟩
  · cases succeeds with
    | false =>
      simp only [AmbixWrite.childStep, hplace, hpass, if_true, if_false]
      refine ⟨h.size, h.head, h.tail, by simp, trivial, by simp, ?_⟩
      exact h.parent.goesOn rfl rfl fun _ => Or.imp_right fun hserve => ⟨hserve.1, Or.inl rfl⟩
    | true =>
      by_cases hother : s.object.requestcode ≠ .requestBusy ∧
          s.object.requestcode ≠ .requestClose
      · simp only [AmbixWrite.childStep, hplace, hpass, writef_requestcode, hother, ne_eq,
          not_false_eq_true, and_self, Bool.true_eq_false, if_true, if_false]
        refine ⟨h.size, h.head, h.tail, by simp, trivial, by simp, ?_⟩
        exact h.parent.goesOn rfl rfl fun _ => Or.imp_right fun hserve => absurd hserve.1 hother.1
      · simp only [AmbixWrite.childStep, hplace, hpass, writef_requestcode, hother,
          Bool.true_eq_false, if_false]
        refine ⟨h.size, h.head, ?_, by simp, hfits, by simp, ?_⟩
        · rw [writef_fifotail]
          by_cases hlast : s.object.fifotail+n = size
          · exact Or.inr (if_pos hlast)
          · have hlt : s.object.fifotail+n < s.object.fifosize := by omega
            rw [if_neg hlast]
            exact Or.inl hlt
        · refine h.parent.goesOn rfl rfl fun hclose _ => Or.inr ⟨?_, Or.inr (Or.inl rfl)⟩
          exact not_not.mp fun hbusy => hother ⟨hbusy, hclose⟩

theorem Orderly.closing {quit : Bool} (h : Orderly P s) (hplace : s.object.child = .closing quit)
    (succeeds : Bool) : Orderly P { s with object := s.object.childStep P succeeds } := by
  have hserves : ¬ s.object.Serves := by simp [Serves, hplace]
  simp only [AmbixWrite.childStep, hplace]
  cases quit with
  | false =>
    exact ⟨h.size, h.head, h.tail, by simp, trivial, by simp,
      h.parent.answered hserves rfl rfl rfl⟩
  | true =>
    exact ⟨h.size, h.head, h.tail, by simp, rfl, fun _ => h.ended (Or.inr hplace),
      h.parent.answered hserves rfl rfl rfl⟩

theorem Orderly.childStep (h : Orderly P s) (succeeds : Bool) :
    Orderly P { s with object := s.object.childStep P succeeds } := by
  cases hplace : s.object.child with
  | request => exact h.request hplace succeeds
  | opening => exact h.opening hplace succeeds
  | emptying => exact h.emptying hplace succeeds
  | splitting size tail n f => exact h.splits hplace succeeds
  | closing quit => exact h.closing hplace succeeds
  | ended => simpa only [AmbixWrite.childStep, hplace] using h

theorem Orderly.rests (h : Orderly P s) (hcode : s.object.requestcode = .requestNothing) :
    s.object.child = .request ∨ s.object.child = .ended := by
  have hfits : s.object.child.Fits s.object.requestcode := h.child
  cases hplace : s.object.child <;> simp_all [WriteChild.Fits]

theorem Orderly.lives (h : Orderly P s) (hready : s.parent = .ready) :
    s.object.child ≠ .ended ∧ s.object.child ≠ .closing true := by
  constructor <;> intro hplace
  · simpa [hready] using h.ended (Or.inl hplace)
  · simpa [hready] using h.ended (Or.inr hplace)

theorem Orderly.fits_close (h : Orderly P s) (hready : s.parent = .ready) :
    s.object.child.Fits .requestClose := by
  obtain ⟨hended, hclosing⟩ := h.lives hready
  cases hplace : s.object.child with
  | request => trivial
  | opening => exact Or.inr (Or.inl rfl)
  | emptying => exact Or.inr (Or.inl rfl)
  | splitting size tail n f => exact Or.inr (Or.inl rfl)
  | closing quit =>
    cases quit with
    | false => exact Or.inr ⟨rfl, rfl⟩
    | true => exact absurd hplace hclosing
  | ended => exact absurd hplace hended

theorem Orderly.stop (h : Orderly P s) (hready : s.parent = .ready) :
    Orderly P { s with object := s.object.stop } := by
  refine ⟨h.size, h.head, h.tail, h.splitting, h.fits_close hready, h.ended, ?_⟩
  simp [Threads.Waiting, hready, AmbixWrite.stop]

theorem Orderly.start (h : Orderly P s) (hready : s.parent = .ready) :
    Orderly P { s with object := s.object.start } := by
  have hparent : s.Waiting := h.parent
  simp only [Threads.Waiting, hready] at hparent
  by_cases hstate : s.object.state = .stateStartup
  · simp only [AmbixWrite.start, hstate, if_true]
    refine ⟨h.size, h.head, h.tail, h.splitting, h.child, h.ended, ?_⟩
    simp only [hstate] at hparent
    simp only [Threads.Waiting, hready]
    exact ⟨hparent.1, by simp, fun _ => hparent.2.2 (by simp)⟩
  · simpa only [AmbixWrite.start, hstate, if_false] using h

theorem Orderly.perform (h : Orderly P s) (invecs : Nat → Nat → α) :
    Orderly P { s with object := (s.object.perform P invecs).2 } := by
  by_cases hstate : s.object.state ≠ .stateStream
  · simpa only [AmbixWrite.perform, if_pos hstate] using h
  · by_cases hwaits : s.object.Waits P
    · simpa only [AmbixWrite.perform, if_neg hstate, if_pos hwaits] using h
    · simp only [AmbixWrite.perform, if_neg hstate, if_neg hwaits]
      refine ⟨h.size, ?_, h.tail, h.splitting, h.child, h.ended, ?_⟩
      · by_cases hlast : s.object.fifohead+P.vecsize ≥ s.object.fifosize
        · exact Or.inr (if_pos hlast)
        · rw [if_neg hlast]
          exact Or.inl (Nat.not_le.mp hlast)
      · exact h.parent.goesOn rfl rfl fun _ hserves => hserves

theorem Orderly.openFile (h : Orderly P s) (hready : s.parent = .ready) (parsed : Bool) :
    Orderly P (s.act P (.openFile parsed)) := by
  have hparent : s.Waiting := h.parent
  simp only [Threads.Waiting, hready] at hparent
  obtain ⟨hended, hclosing⟩ := h.lives hready
  rw [Threads.act, if_neg (not_not_intro hready)]
  by_cases hidle : s.object.state = .stateIdle
  · obtain ⟨hopen, hbusy⟩ := hparent.2.1 hidle
    rw [if_neg (not_not_intro hidle)]
    refine ⟨h.size, h.head, h.tail, h.splitting, h.child, by simp [hended, hclosing], ?_⟩
    cases parsed with
    | false => simpa [Threads.Waiting] using hparent
    | true => cases hcode : s.object.requestcode <;> simp_all [Threads.Waiting]
  · rw [if_pos hidle]
    refine ⟨h.size, h.head, h.tail, h.splitting, h.fits_close hready, ?_, ?_⟩
    · simp [AmbixWrite.stop, hended, hclosing]
    · cases parsed <;> simp [Threads.Waiting, AmbixWrite.stop]

theorem Orderly.free (h : Orderly P s) (hready : s.parent = .ready) :
    Orderly P (s.act P .free) := by
  rw [Threads.act, if_neg (not_not_intro hready)]
  refine ⟨h.size, h.head, h.tail, h.splitting, ?_, fun _ => Or.inl rfl, Or.inl rfl⟩
  obtain ⟨hended, -⟩ := h.lives hready
  cases hplace : s.object.child <;> simp_all [WriteChild.Fits]

theorem Orderly.wake (h : Orderly P s) : Orderly P (s.act P .wake) := by
  by_cases hcode : s.object.requestcode = .requestNothing
  · rw [Threads.act, if_neg (not_not_intro hcode)]
    cases hparent : s.parent with
    | ready => exact h
    | freed => exact h
    | freeing =>
      exact ⟨h.size, h.head, h.tail, h.splitting, h.child, fun _ => Or.inr rfl, hcode⟩
    | opening =>
      have hplace := (h.rests hcode).resolve_right fun hended => by
        simpa [hparent] using h.ended (Or.inl hended)
      refine ⟨le_rfl, Or.inr rfl, Or.inr rfl, ?_, ?_, ?_, ?_⟩
      · simp [AmbixWrite.openFile, hplace]
      · simp [AmbixWrite.openFile, hplace, WriteChild.Fits]
      · simp [AmbixWrite.openFile, hplace]
      · simp [AmbixWrite.openFile, Threads.Waiting]
  · rwa [Threads.act, if_pos hcode]

theorem Orderly.act (h : Orderly P s) (a : Action α) : Orderly P (s.act P a) := by
  cases a with
  | openFile parsed =>
    by_cases hready : s.parent = .ready
    · exact h.openFile hready parsed
    · rwa [Threads.act, if_pos hready]
  | free =>
    by_cases hready : s.parent = .ready
    · exact h.free hready
    · rwa [Threads.act, if_pos hready]
  | wake => exact h.wake
  | call c =>
    by_cases hwaits : s.parent ≠ .ready ∧ c.isChild = false
    · rwa [Threads.act, if_pos hwaits]
    · rw [Threads.act, if_neg hwaits]
      have hready (hc : c.isChild = false) : s.parent = .ready :=
        not_not.mp fun hbusy => hwaits ⟨hbusy, hc⟩
      cases c with
      | child succeeds => exact h.childStep succeeds
      | start => exact h.start (hready rfl)
      | stop => exact h.stop (hready rfl)
      | perform invecs => exact h.perform invecs

theorem Orderly.newObject [Zero α] (buf : Nat → α) : Orderly P ⟨newObject buf, .ready⟩ where
  size := Nat.zero_le _
  head := Or.inr rfl
  tail := Or.inr rfl
  splitting := by simp [AmbixWrite.newObject]
  child := trivial
  ended := by simp [AmbixWrite.newObject]
  parent := by simp [AmbixWrite.newObject, Threads.Waiting]

theorem Orderly.run [Zero α] {buf : Nat → α}
    {events : List (Event (Threads α) (Action α) Unit)}
    (hrun : Threads.LockedRuns P ⟨AmbixWrite.newObject buf, .ready⟩ events s) : Orderly P s := by
  apply hrun.preserves (Orderly P) (Orderly.newObject buf)
  intro t a _ u hstep h
  rw [← answered_state hstep]
  cases Threads.locked_cases a with
  | inl hstays => rwa [Threads.lockedAnswer, hstays]
  | inr hacts => rw [Threads.lockedAnswer, hacts]; exact h.act a

end AmbixWrite
end Ambix
