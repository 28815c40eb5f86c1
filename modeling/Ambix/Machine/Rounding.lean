import Mathlib.Data.Int.Log
import Mathlib.Data.Rat.Floor
import Mathlib.Tactic.FieldSimp
import Mathlib.Tactic.Linarith

/-! Binary floating point as rounding on the rationals, to nearest and ties to even. -/
namespace Machine

/-- Numbers of `precision` bits whose last place is at least `2^minExponent`, below
`2^maxExponent`. -/
structure FloatFormat where
  precision : Nat
  minExponent : Int
  maxExponent : Int

namespace FloatFormat

/-- The exponent of the last place. -/
def place (F : FloatFormat) (x : ℚ) : Int :=
  max (Int.log 2 |x|+1-F.precision) F.minExponent

end FloatFormat
end Machine
