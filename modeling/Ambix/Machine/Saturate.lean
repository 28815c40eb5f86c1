import Mathlib.Algebra.Order.Floor.Ring

/-! Exact numbers and a signed integer type. The cast drops the fraction; it is only defined
where what is left fits. Saturation goes to the nearest bound of the type instead. -/
namespace Machine

/-- A signed integer of `bits` bits. -/
abbrev Sample (bits : Nat) := {x : Int // -2^(bits-1) ≤ x ∧ x < 2^(bits-1)}

theorem Sample.bound_pos (bits : Nat) : (0 : Int) < 2^(bits-1) := Int.pow_pos (by decide)

def Sample.zero (bits : Nat) : Sample bits := ⟨0, by have hpos := bound_pos bits; omega⟩

def Sample.minusOne (bits : Nat) : Sample bits := ⟨-1, by have hpos := bound_pos bits; omega⟩

section numbers
variable {R : Type*} [Ring R] [LinearOrder R] [FloorRing R]

def truncate (x : R) : Int := if 0 ≤ x then ⌊x⌋ else ⌈x⌉

abbrev InRange (bits : Nat) (x : R) : Prop :=
  -2^(bits-1) ≤ truncate x ∧ truncate x < 2^(bits-1)

/-- The cast; `none` where it is not defined. -/
def castTo (bits : Nat) (x : R) : Option (Sample bits) :=
  if h : InRange bits x then some ⟨truncate x, h⟩ else none

theorem truncate_intCast [IsStrictOrderedRing R] (n : Int) : truncate (n : R) = n := by
  rw [truncate, Int.floor_intCast, Int.ceil_intCast, ite_self]

theorem inRange_sample [IsStrictOrderedRing R] {bits : Nat} (x : Sample bits) :
    InRange bits (x.val : R) := by
  rw [InRange, truncate_intCast]
  exact x.property

theorem castTo_sample [IsStrictOrderedRing R] {bits : Nat} (x : Sample bits) :
    castTo bits (x.val : R) = some x := by
  rw [castTo, dif_pos (inRange_sample x)]
  exact congrArg some (Subtype.ext (truncate_intCast x.val))

theorem castTo_value {bits : Nat} {x : R} (h : InRange bits x) :
    (castTo bits x).map Subtype.val = some (truncate x) := by
  rw [castTo, dif_pos h]
  rfl

end numbers
end Machine
