import Mathlib.Algebra.Order.Group.Int
import Mathlib.Logic.Function.Iterate

/-! A thread that sleeps until there is enough of something, and another one that makes more of
it and then leaves a token to wake the first. -/
namespace Machine

/-- Where the first thread is. -/
inductive Wait where
  | measuring
  /-- Waits for a token. -/
  | sleeping
  /-- Has measured that much. -/
  | enough (space : Nat)
deriving DecidableEq

namespace Wait

/-- A step of it, with the tokens it leaves. -/
def step (wanted : Int) (space tokens : Nat) : Wait → Wait × Nat
  | .measuring => (if (space : Int) < wanted then .sleeping else .enough space, tokens)
  | .sleeping => if tokens = 0 then (.sleeping, 0) else (.measuring, tokens-1)
  | .enough found => (.enough found, tokens)

/-- What has been measured is still there, and whoever sleeps while there is enough is about to
be woken. -/
structure Sound (wanted : Int) (space tokens : Nat) (waking : Bool) (w : Wait) : Prop where
  found : ∀ n, w = .enough n → wanted ≤ n ∧ n ≤ space
  awake : w = .sleeping → wanted ≤ space → 0 < tokens ∨ waking = true

variable {wanted : Int} {space tokens : Nat} {waking : Bool} {w : Wait}

theorem sound_measuring : Sound wanted space tokens waking .measuring where
  found := nofun
  awake := nofun

namespace Sound

theorem step (h : Sound wanted space tokens waking w) :
    Sound wanted space (w.step wanted space tokens).2 waking (w.step wanted space tokens).1 := by
  cases w with
  | measuring =>
    by_cases hspace : (space : Int) < wanted
    · rw [Wait.step, if_pos hspace]
      exact ⟨nofun, fun _ hle => absurd hspace (not_lt.mpr hle)⟩
    · rw [Wait.step, if_neg hspace]
      refine ⟨fun n hn => ?_, nofun⟩
      rw [← Wait.enough.inj hn]
      exact ⟨not_lt.mp hspace, le_rfl⟩
  | sleeping =>
    by_cases htokens : tokens = 0
    · rw [Wait.step, if_pos htokens]
      exact ⟨nofun, fun hw hle => htokens ▸ h.awake hw hle⟩
    · rw [Wait.step, if_neg htokens]
      exact sound_measuring
  | enough n => exact h

/-- There is more, and a token follows. -/
theorem grow (h : Sound wanted space tokens waking w) {space' : Nat} (hle : space ≤ space') :
    Sound wanted space' tokens true w where
  found n hn := ⟨(h.found n hn).1, (h.found n hn).2.trans hle⟩
  awake _ _ := Or.inr rfl

theorem wake (h : Sound wanted space tokens waking w) :
    Sound wanted space (tokens+1) false w where
  found := h.found
  awake _ _ := Or.inl (Nat.succ_pos _)

end Sound
end Wait
end Machine
