import Ambix.Machine.Loop

/-! A ring buffer between one writer and one reader. Items are numbered from the start;
`stored` of them have been stored and `taken` of them taken, and item `i` has its place in slot
`i % size`. -/
namespace Machine
variable {α : Type*}

/-! Positions. -/

section positions
variable {size taken stored : Nat}

theorem mod_advance {i n : Nat} (h : i%size+n ≤ size) :
    (i+n)%size = if i%size+n = size then 0 else i%size+n := by
  have hmod : (i+n)%size = (i%size+n)%size := (Nat.mod_add_mod i size n).symm
  split
  · rename_i hend
    rw [hmod, hend, Nat.mod_self]
  · rw [hmod, Nat.mod_eq_of_lt (by omega)]

theorem mod_offset {i n : Nat} (h : i%size+n < size) : (i+n)%size = i%size+n := by
  rw [← Nat.mod_add_mod, Nat.mod_eq_of_lt h]

/-- Writer and reader are in one lap or in two adjacent ones. -/
theorem laps (hle : taken ≤ stored) (hfull : stored < taken+size) :
    stored/size = taken/size ∨ stored/size = taken/size+1 := by
  have hpos : 0 < size := by omega
  have hlow := Nat.div_le_div_right (c := size) hle
  have hhigh := Nat.div_le_div_right (c := size) (Nat.le_of_lt hfull)
  rw [Nat.add_div_right taken hpos] at hhigh
  omega

theorem distance_of_le (hle : taken ≤ stored) (hfull : stored < taken+size)
    (h : taken%size ≤ stored%size) :
    stored = taken+(stored%size-taken%size) := by
  have hwriter := Nat.div_add_mod stored size
  have hreader := Nat.div_add_mod taken size
  cases laps hle hfull with
  | inl hlap =>
    rw [hlap] at hwriter
    omega
  | inr hlap =>
    rw [hlap, Nat.mul_succ] at hwriter
    omega

theorem distance_of_lt (hle : taken ≤ stored) (hfull : stored < taken+size)
    (h : stored%size < taken%size) :
    stored+(taken%size-stored%size) = taken+size := by
  have hwriter := Nat.div_add_mod stored size
  have hreader := Nat.div_add_mod taken size
  cases laps hle hfull with
  | inl hlap =>
    rw [hlap] at hwriter
    omega
  | inr hlap =>
    rw [hlap, Nat.mul_succ] at hwriter
    omega

end positions

/-! Contents. -/

/-- The ring keeps the items from number `taken` up to number `stored`. -/
def Keeps (slots : Nat → α) (size : Nat) (items : List α) (taken stored : Nat) : Prop :=
  ∀ i, taken ≤ i → i < stored → items[i]? = some (slots (i%size))

namespace Keeps
variable {slots slots' : Nat → α} {size taken stored : Nat} {items : List α}

theorem empty (slots : Nat → α) (size : Nat) (items : List α) (i : Nat) :
    Keeps slots size items i i := fun j hlow hhigh => absurd hhigh (by omega)

theorem drop (h : Keeps slots size items taken stored) {taken' : Nat} (hle : taken ≤ taken') :
    Keeps slots size items taken' stored := fun i hlow hhigh => h i (hle.trans hlow) hhigh

theorem front (h : Keeps slots size items taken stored) {stored' : Nat} (hle : stored' ≤ stored) :
    Keeps slots size items taken stored' := fun i hlow hhigh => h i hlow (hhigh.trans_le hle)

theorem append (h : Keeps slots size items taken stored) (hstored : stored ≤ items.length)
    (new : List α) :
    Keeps slots size (items ++ new) taken stored := by
  intro i hlow hhigh
  rw [List.getElem?_append_left (by omega)]
  exact h i hlow hhigh

theorem store (h : Keeps slots size items taken stored) (hfree : stored < taken+size)
    (hitem : items[stored]? = some (slots' (stored%size)))
    (hsame : ∀ j, j ≠ stored%size → slots' j = slots j) :
    Keeps slots' size items taken (stored+1) := by
  intro i hlow hhigh
  by_cases hi : i = stored
  · rw [hi]
    exact hitem
  · have hslot : i%size ≠ stored%size := by
      intro heq
      have hlt : i < stored := by omega
      have hzero := Nat.sub_mod_eq_zero_of_mod_eq heq.symm
      have hle := Nat.le_of_dvd (by omega) (Nat.dvd_of_mod_eq_zero hzero)
      omega
    rw [hsame _ hslot]
    exact h i hlow (by omega)

theorem window (h : Keeps slots size items taken stored) {n : Nat} (hn : taken+n ≤ stored)
    (hend : taken%size+n ≤ size) :
    Machine.window slots (taken%size) n = (items.drop taken).take n := by
  induction n with
  | zero => rw [List.take_zero]; rfl
  | succ n ih =>
    have hitem := h (taken+n) (by omega) (by omega)
    rw [mod_offset (by omega)] at hitem
    rw [window_succ, ih (by omega) (by omega), List.take_add_one, List.getElem?_drop, hitem]
    rfl

end Keeps
end Machine
