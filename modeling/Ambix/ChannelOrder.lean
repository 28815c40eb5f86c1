import Ambix.Utils
import Ambix.Machine.Nearest
import Ambix.Machine.Saturate
import Mathlib.Analysis.Real.Sqrt

/-! The order of a channel count in the types utils.c computes it with: `sqrt` returns a
`double`, its cast is an `int32_t`, and so is the product that is compared with the unsigned
count. -/
namespace Ambix
open Machine

/-- `sqrt((double)channels)`, correctly rounded. No root comes near the limits of the exponent. -/
def RoundedRoot (channels : UInt32) (root : ℚ) : Prop :=
  Nearest (binary 53) (Real.sqrt channels.toNat) root

/-- `ambix_channels2order`, where `sqrt` returns `root`. It is `none` where a signed operation
overflows. -/
def signedOrder (root : ℚ) (channels : UInt32) : Option Int := do
  let order1 ← castTo 32 root
  let square ← castTo 32 (order1.val*order1.val)
  if UInt32.ofInt square.val = channels then
    let order ← castTo 32 (order1.val-1)
    some order.val
  else some (-1)

/-- `ambix_is_fullset`, likewise; the order is converted to `uint32_t`. -/
def signedFullset (root : ℚ) (channels : UInt32) : Option Bool := do
  let order ← signedOrder root channels
  some (order2channels (UInt32.ofInt order) == channels)

theorem RoundedRoot.truncate {channels : UInt32} {root : ℚ} (h : RoundedRoot channels root) :
    truncate root = channels.toNat.sqrt := by
  have hlt := channels.toNat_lt
  have hs : channels.toNat.sqrt < 65536 := by
    rw [Nat.sqrt_lt]
    omega
  have hmem : (channels.toNat.sqrt : ℚ) ∈ binary 53 := natCast_binary (by omega)
  have hlow : (channels.toNat.sqrt : ℝ) ≤ Real.sqrt channels.toNat := by
    apply Real.le_sqrt_of_sq_le
    exact_mod_cast (Nat.pow_two _).trans_le (Nat.sqrt_le channels.toNat)
  -- the numbers before a whole one are closer together than the roots
  have hpred := pred_binary (n := channels.toNat.sqrt+1) (k := 18) (p := 53) (by omega) (by omega)
  have hhigh : Real.sqrt channels.toNat ≤
      (((channels.toNat.sqrt+1 : Nat) : ℚ)-1/2^18 : ℚ) := by
    have hnext : channels.toNat+1 ≤ (channels.toNat.sqrt+1)*(channels.toNat.sqrt+1) :=
      Nat.lt_succ_sqrt channels.toNat
    have hnext' : (channels.toNat : ℝ)+1 ≤
        ((channels.toNat.sqrt : ℝ)+1)*((channels.toNat.sqrt : ℝ)+1) := by exact_mod_cast hnext
    have hs' : (channels.toNat.sqrt : ℝ)+1 ≤ 65536 := by exact_mod_cast hs
    have h0 : (0 : ℝ) ≤ channels.toNat.sqrt := Nat.cast_nonneg _
    push_cast
    rw [Real.sqrt_le_left (by linarith)]
    nlinarith
  have hfloor : ⌊root⌋ = channels.toNat.sqrt := by
    refine h.floor hmem hlow hpred hhigh ?_
    push_cast
    linarith
  have hroot : 0 ≤ root := Int.floor_nonneg.mp (by omega)
  rw [Machine.truncate, if_pos hroot, hfloor]

/-! Signed arithmetic that fits. -/

theorem castTo_fits {n : Int} (h : -2^31 ≤ n ∧ n < 2^31) : castTo 32 n = some ⟨n, h⟩ :=
  castTo_sample (R := Int) ⟨n, h⟩

theorem castTo_overflows {n : Int} (h : 2^31 ≤ n) : castTo 32 n = none := by
  refine dif_neg fun hin => ?_
  have hn : Machine.truncate n = n := truncate_intCast (R := Int) n
  rw [InRange, hn] at hin
  omega

theorem ofInt_toInt (x : Int32) : UInt32.ofInt x.toInt = x.toUInt32 := by
  have hlt := x.toUInt32.toNat_lt
  have hx : x.toInt = if 2*x.toUInt32.toNat < 2^32 then (x.toUInt32.toNat : Int)
      else (x.toUInt32.toNat : Int)-(2^32 : Nat) := BitVec.toInt_eq_toNat_cond x.toBitVec
  rw [← UInt32.toNat_inj, UInt32.ofInt, UInt32.toNat_ofNat', hx]
  split <;> omega

section order
variable {channels : UInt32} {root : ℚ}

theorem RoundedRoot.order1 (h : RoundedRoot channels root) :
    ∃ order1 : Sample 32, castTo 32 root = some order1 ∧ order1.val = channels.toNat.sqrt := by
  have hlt := channels.toNat_lt
  have hs : channels.toNat.sqrt < 65536 := by
    rw [Nat.sqrt_lt]
    omega
  have hin : InRange 32 root := by
    rw [InRange, h.truncate]
    omega
  exact ⟨⟨Machine.truncate root, hin⟩, dif_pos hin, h.truncate⟩

theorem signedOrder_overflows (h : RoundedRoot channels root) (hs : 46340 < channels.toNat.sqrt) :
    signedOrder root channels = none := by
  obtain ⟨order1, hcast, hval⟩ := h.order1
  have hsquare : 46341*46341 ≤ channels.toNat.sqrt*channels.toNat.sqrt :=
    Nat.mul_self_le_mul_self hs
  have hover : castTo 32 (order1.val*order1.val) = none := by
    apply castTo_overflows
    rw [hval]
    omega
  simp only [signedOrder, hcast, Option.bind_eq_bind, Option.bind_some, hover, Option.bind_none]

theorem channels2order_toInt (hsq : channels.toNat.sqrt*channels.toNat.sqrt = channels.toNat) :
    (channels2order channels).toInt = (channels.toNat.sqrt : Int)-1 := by
  have hlt := channels.toNat_lt
  have hs : channels.toNat.sqrt < 65536 := by
    rw [Nat.sqrt_lt]
    omega
  have hint : (Int32.ofNat channels.toNat.sqrt).toInt = channels.toNat.sqrt :=
    Int32.toInt_ofNat_of_lt (by omega)
  rw [channels2order_square channels hsq, Int32.toInt_sub, hint]
  simp only [Int32.reduceToInt]
  exact Int.bmod_eq_of_le (by omega) (by omega)

theorem signedOrder_fits (h : RoundedRoot channels root) (hs : channels.toNat.sqrt ≤ 46340) :
    signedOrder root channels = some (channels2order channels).toInt := by
  obtain ⟨order1, hcast, hval⟩ := h.order1
  have hsquare : channels.toNat.sqrt*channels.toNat.sqrt ≤ 46340*46340 :=
    Nat.mul_self_le_mul_self hs
  have hcast2 := castTo_fits (n := order1.val*order1.val) (by rw [hval]; omega)
  have hcast3 := castTo_fits (n := order1.val-1) (by rw [hval]; omega)
  have hiff : UInt32.ofInt (order1.val*order1.val) = channels ↔
      channels.toNat.sqrt*channels.toNat.sqrt = channels.toNat := by
    rw [hval, ← UInt32.toNat_inj, UInt32.ofInt, UInt32.toNat_ofNat']
    omega
  simp only [signedOrder, hcast, Option.bind_eq_bind, Option.bind_some, hcast2, hcast3, hiff]
  split
  · rename_i hsq
    rw [hval, channels2order_toInt hsq]
  · rename_i hother
    rw [channels2order_other channels hother]
    rfl

theorem signedOrder_square (h : RoundedRoot channels root) (hs : channels.toNat.sqrt ≤ 46340)
    {k : Nat} (hk : channels.toNat = (k+1)^2) : signedOrder root channels = some (k : Int) := by
  have hsqrt : channels.toNat.sqrt = k+1 := by rw [hk, Nat.sqrt_eq']
  rw [signedOrder_fits h hs, channels2order_toInt (by rw [hsqrt, hk, Nat.pow_two]), hsqrt]
  simp

theorem signedOrder_other (h : RoundedRoot channels root) (hs : channels.toNat.sqrt ≤ 46340)
    (hpos : 0 < channels.toNat) (hnone : ∀ k : Nat, channels.toNat ≠ (k+1)^2) :
    signedOrder root channels = some (-1) := by
  rw [signedOrder_fits h hs, channels2order_other channels fun hsq => ?_]
  · rfl
  · cases hroot : channels.toNat.sqrt with
    | zero =>
      rw [hroot] at hsq
      omega
    | succ k => exact hnone k (by rw [← hsq, hroot, Nat.pow_two])

theorem signedFullset_fits (h : RoundedRoot channels root) (hs : channels.toNat.sqrt ≤ 46340) :
    signedFullset root channels = some (isFullset channels) := by
  simp only [signedFullset, signedOrder_fits h hs, Option.bind_eq_bind, Option.bind_some, isFullset]
  rw [ofInt_toInt]

/-- What utils.c promises about a number of channels. -/
structure OrderArithmetic (channels : UInt32) (root : ℚ) : Prop where
  full : ∀ k : Nat, channels.toNat = (k+1)^2 → signedOrder root channels = some (k : Int)
  other : (∀ k : Nat, channels.toNat ≠ (k+1)^2) → signedOrder root channels = some (-1)
  fullset : ∃ b, signedFullset root channels = some b ∧
    (b = true ↔ ∃ k : Nat, channels.toNat = (k+1)^2)
  inverse : ∀ order : UInt32, order.toNat ≤ 65534 → order2channels order = channels →
    signedOrder root channels = some (order.toNat : Int)

theorem OrderArithmetic.of_range (h : RoundedRoot channels root) (hpos : 0 < channels.toNat)
    (hlt : channels.toNat < 46341^2) : OrderArithmetic channels root := by
  have hs : channels.toNat.sqrt ≤ 46340 := by
    apply Nat.le_of_lt_succ
    rw [Nat.sqrt_lt]
    omega
  constructor
  · intro k hk
    exact signedOrder_square h hs hk
  · exact signedOrder_other h hs hpos
  · refine ⟨isFullset channels, signedFullset_fits h hs, ?_⟩
    rw [isFullset_iff]
    simp only [Nat.pow_two, or_iff_right_iff_imp]
    rintro rfl
    exact absurd hpos (by decide)
  · intro order horder hchannels
    apply signedOrder_square h hs
    rw [← hchannels, order2channels, UInt32.toNat_mul, UInt32.toNat_add, Nat.pow_two]
    have hsum : (order.toNat+1)%2^32 = order.toNat+1 := Nat.mod_eq_of_lt (by omega)
    have hmul : (order.toNat+1)*(order.toNat+1) ≤ 65535*65535 := Nat.mul_self_le_mul_self (by omega)
    change (order.toNat+1)%2^32*((order.toNat+1)%2^32)%2^32 = _
    rw [hsum, Nat.mod_eq_of_lt (by omega)]

theorem OrderArithmetic.range (h : RoundedRoot channels root)
    (harith : OrderArithmetic channels root) :
    0 < channels.toNat ∧ channels.toNat < 46341^2 := by
  constructor
  · apply Nat.pos_of_ne_zero
    intro hzero
    obtain ⟨b, hb, hiff⟩ := harith.fullset
    rw [signedFullset_fits h (by rw [hzero]; decide)] at hb
    have htrue : isFullset channels = true :=
      (isFullset_iff channels).mpr (Or.inl (UInt32.toNat_inj.mp hzero))
    obtain ⟨k, hk⟩ := hiff.mp ((Option.some.inj hb).symm.trans htrue)
    rw [hzero] at hk
    exact absurd hk (Nat.ne_of_lt (Nat.pow_pos (Nat.succ_pos k)))
  · by_contra hlarge
    have hnone := signedOrder_overflows h (Nat.le_sqrt.mpr (by omega))
    by_cases hsquare : ∃ k : Nat, channels.toNat = (k+1)^2
    · obtain ⟨k, hk⟩ := hsquare
      cases hnone.symm.trans (harith.full k hk)
    · cases hnone.symm.trans (harith.other (not_exists.mp hsquare))

/-- The order arithmetic is right for 1 to `46341^2-1` channels. -/
theorem orderArithmetic_iff (h : RoundedRoot channels root) :
    OrderArithmetic channels root ↔ 0 < channels.toNat ∧ channels.toNat < 46341^2 :=
  ⟨OrderArithmetic.range h, fun hrange => .of_range h hrange.1 hrange.2⟩

theorem RoundedRoot.of_square {k : Nat} (h : channels.toNat = k^2) (hk : k < 2^53) :
    RoundedRoot channels k := by
  have hroot : Real.sqrt channels.toNat = ((k : ℚ) : ℝ) := by
    rw [h, Nat.cast_pow, Real.sqrt_sq (Nat.cast_nonneg k), Rat.cast_natCast]
  rw [RoundedRoot, hroot]
  exact .exact (natCast_binary hk)

end order

/-- Four channels, a set of first order. -/
theorem orderArithmetic_first : OrderArithmetic 4 (2 : Nat) :=
  (orderArithmetic_iff (.of_square (by decide) (by decide))).mpr (by decide)

/-- The empty set is a full one, and the first square beyond the `int32_t`. -/
theorem orderArithmetic_fails :
    (RoundedRoot 0 (0 : Nat) ∧ signedFullset (0 : Nat) 0 = some true ∧
        ¬ OrderArithmetic 0 (0 : Nat)) ∧
      (RoundedRoot 2147488281 (46341 : Nat) ∧ signedOrder (46341 : Nat) 2147488281 = none ∧
        ¬ OrderArithmetic 2147488281 (46341 : Nat)) := by
  have hempty : RoundedRoot 0 (0 : Nat) := .of_square (by decide) (by decide)
  have hlarge : RoundedRoot 2147488281 (46341 : Nat) := .of_square (by decide) (by decide)
  have hsqrt : (2147488281 : UInt32).toNat.sqrt = 46341 := by
    change Nat.sqrt (46341*46341) = 46341
    exact Nat.sqrt_eq 46341
  refine ⟨⟨hempty, ?_, fun harith => ?_⟩, ⟨hlarge, ?_, fun harith => ?_⟩⟩
  · rw [signedFullset_fits hempty (by decide)]
    rfl
  · exact absurd (harith.range hempty).1 (by decide)
  · exact signedOrder_overflows hlarge (by rw [hsqrt]; decide)
  · exact absurd (harith.range hlarge).2 (by decide)

end Ambix
