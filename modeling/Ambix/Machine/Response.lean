import Mathlib.Data.List.Basic

/-! Goals that are reached after boundedly many steps, whatever these are fed with. -/
namespace Machine
variable {S I : Type}

/-- Until the goal is reached, every admissible input keeps the invariant, and reaches the goal
or makes the measure smaller; without anything left to measure the goal has been reached. -/
structure Approaches (f : S → I → S) (Q : I → Prop) (Inv Goal : S → Prop) (m : S → Nat) :
    Prop where
  step : ∀ s i, Q i → Inv s → ¬ Goal s →
    Inv (f s i) ∧ (Goal (f s i) ∨ m (f s i) < m s)
  done : ∀ s, Inv s → m s = 0 → Goal s

theorem Approaches.within {f : S → I → S} {Q : I → Prop} {Inv Goal : S → Prop} {m : S → Nat}
    (ha : Approaches f Q Inv Goal m) {s : S} (h : Inv s) {is : List I} (hQ : ∀ i ∈ is, Q i)
    (hlong : m s ≤ is.length) :
    ∃ k ≤ m s, Inv ((is.take k).foldl f s) ∧ Goal ((is.take k).foldl f s) := by
  induction is generalizing s with
  | nil => exact ⟨0, Nat.zero_le _, h, ha.done s h (Nat.eq_zero_of_le_zero hlong)⟩
  | cons i is ih =>
    by_cases hgoal : Goal s
    · exact ⟨0, Nat.zero_le _, h, hgoal⟩
    · obtain ⟨hi, his⟩ := List.forall_mem_cons.mp hQ
      obtain ⟨hinv, hnext⟩ := ha.step s i hi h hgoal
      have hpos : m s ≠ 0 := fun hzero => hgoal (ha.done s h hzero)
      rw [List.length_cons] at hlong
      cases hnext with
      | inl hreached => exact ⟨1, by omega, hinv, hreached⟩
      | inr hless =>
        obtain ⟨k, hk, hresult⟩ := ih hinv his (by omega)
        exact ⟨k+1, by omega, hresult⟩

/-- A goal that is not left again is there at the end. -/
theorem Approaches.stays {f : S → I → S} {Q : I → Prop} {Inv Goal : S → Prop} {m : S → Nat}
    (ha : Approaches f Q Inv Goal m) (hstays : ∀ s i, Goal s → Goal (f s i)) {s : S} (h : Inv s)
    {is : List I} (hQ : ∀ i ∈ is, Q i) (hlong : m s ≤ is.length) : Goal (is.foldl f s) := by
  obtain ⟨k, -, -, hgoal⟩ := ha.within h hQ hlong
  have hrest (s : S) (is : List I) (hgoal : Goal s) : Goal (is.foldl f s) := by
    induction is generalizing s with
    | nil => exact hgoal
    | cons i is ih => exact ih _ (hstays s i hgoal)
  rw [← List.take_append_drop k is, List.foldl_append]
  exact hrest _ _ hgoal

end Machine
