import Ambix.MatrixData
import Ambix.Machine.Rounding
import Mathlib.Algebra.Order.BigOperators.Ring.Finset

/-! The integer samples that a matrix is applied to. All three loops round in every step and cast
the sum to the sample type; none of them saturates, so a sum out of range is lost. -/
namespace Ambix
open Machine

section places
variable {S K F : Type} [Zero K] (arith : SumType K S F)

end places

/-! The sums that are cast. -/

section sums
variable {bits : Nat} (F : FloatFormat) (matrix : AmbixMatrix ℚ) (source : Nat → Sample bits)
  (place : Nat → Nat) (outchan : Nat)

variable {F matrix outchan}

end sums

end Ambix
