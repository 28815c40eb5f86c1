import Ambix.MatrixFill
import Ambix.Machine.Degrees
import Mathlib.Algebra.Order.Group.Abs
import Mathlib.Algebra.Order.Group.Int
import Mathlib.Data.Set.Function
import Mathlib.Tactic.Ring

/-! The SID order of adaptor_acn.c: within every degree the odd places come first, going up, and
then the even ones, going down. -/
namespace Ambix
open Machine

/-- The two loops of `_matrix_sid2acn` in one degree. -/
def sidOrder : Rearrangement where
  place l k := if k < l then 2*k+1 else 2*(2*l-k)
  back l j := if j%2 = 1 then j/2 else 2*l-j/2
  place_le l k hk := by
    split <;> omega
  back_le l k hk := by
    split <;> omega
  back_place l k hk := by
    by_cases hkl : k < l
    · rw [if_pos hkl, if_pos (by omega)]
      omega
    · rw [if_neg hkl, if_neg (by omega)]
      omega
  place_back l j hj := by
    by_cases hodd : j%2 = 1
    · rw [if_pos hodd, if_pos (by omega)]
      omega
    · rw [if_neg hodd, if_neg (by omega)]
      omega

theorem sid_items (l : Nat) :
    ((List.range (2*l+1)).map fun k => l*l+sidOrder.place l k) =
      ((List.range l).map fun k => 2*k+1+l*l) ++ (List.range (l+1)).map fun k => 2*l-2*k+l*l := by
  have hsplit : 2*l+1 = l+(l+1) := by omega
  rw [hsplit, List.range_add, List.map_append, List.map_map]
  refine congrArg₂ _ (List.map_congr_left fun k hk => ?_) (List.map_congr_left fun k hk => ?_)
  · have hk := List.mem_range.mp hk
    change l*l+(if k < l then 2*k+1 else 2*(2*l-k)) = 2*k+1+l*l
    rw [if_pos hk]
    omega
  · have hk := List.mem_range.mp hk
    change l*l+(if l+k < l then 2*(l+k)+1 else 2*(2*l-(l+k))) = 2*l-2*k+l*l
    rw [if_neg (by omega)]
    omega

/-! The 32-bit arithmetic, which does not wrap for orders below 4096. -/

theorem square_lt {n : Nat} (hn : n ≤ 4096) : n*n < 2^31 := by
  calc
    n*n ≤ 4096*4096 := Nat.mul_le_mul hn hn
    _ < 2^31 := by decide

theorem toNat_square {n : Nat} (hn : n ≤ 4096) : (UInt32.ofNat n*UInt32.ofNat n).toNat = n*n := by
  have hsquare := square_lt hn
  rw [UInt32.toNat_mul, UInt32.toNat_ofNat', Nat.mod_eq_of_lt (show n < 2^32 by omega)]
  exact Nat.mod_eq_of_lt (by omega)

theorem sid_offset {o : Nat} (ho : o < 4096) :
    (if 0 < o then order2channels (UInt32.ofNat o-1) else 0).toNat = o*o := by
  split
  · rw [order2channels, UInt32.sub_add_cancel, toNat_square (by omega)]
  · obtain rfl : o = 0 := by omega
    rfl

theorem sid_maxindex {o : Nat} (ho : o < 4096) :
    (order2channels (UInt32.ofNat o)-if 0 < o then order2channels (UInt32.ofNat o-1) else
      0).toInt32.toInt.toNat = 2*o+1 := by
  have hoffset := sid_offset ho
  have hnext : (order2channels (UInt32.ofNat o)).toNat = o*o+(2*o+1) := by
    have hsucc : UInt32.ofNat o+1 = UInt32.ofNat (o+1) := (UInt32.ofNat_add o 1).symm
    rw [order2channels, hsucc, toNat_square (by omega), Nat.succ_mul, Nat.mul_succ]
    omega
  have hdiff : (order2channels (UInt32.ofNat o)-if 0 < o then order2channels (UInt32.ofNat o-1) else
      0).toNat = 2*o+1 := by
    rw [UInt32.toNat_sub_of_le _ _ (UInt32.le_iff_toNat_le.mpr (by omega)), hoffset, hnext]
    omega
  change int32Count _ = 2*o+1
  rw [int32Count_eq (by omega), hdiff]

theorem sid_index {o x : Nat} (ho : o < 4096) (hx : x ≤ 2*o) :
    (UInt32.ofNat x+if 0 < o then order2channels (UInt32.ofNat o-1) else 0).toNat = x+o*o := by
  have hsquare := square_lt (Nat.le_of_lt ho)
  rw [UInt32.toNat_add, sid_offset ho, UInt32.toNat_ofNat',
    Nat.mod_eq_of_lt (show x < 2^32 by omega),
    Nat.mod_eq_of_lt (by omega)]

theorem channels2order_full {count : UInt32} {n : Nat} (hcount : count.toNat = (n+1)*(n+1))
    (hn : n < 4096) : ¬ channels2order count < 0 ∧ (channels2order count).toInt.toNat = n := by
  have hsqrt : count.toNat.sqrt = n+1 := by rw [hcount, Nat.sqrt_eq]
  have horder : channels2order count = Int32.ofNat n := by
    rw [channels2order_square count (by rw [hsqrt, hcount]), hsqrt, Int32.ofNat_add]
    exact Int32.add_sub_cancel _ _
  have hint : (Int32.ofNat n).toInt = n := Int32.toInt_ofNat_of_lt (by omega)
  rw [horder, Int32.lt_iff_toInt_lt, hint]
  exact ⟨by simp, Int.toNat_natCast n⟩

theorem matrixSid2acn_full {count : UInt32} {n : Nat} (hcount : count.toNat = (n+1)*(n+1))
    (hn : n < 4096) :
    matrixSid2acn count =
      some ((List.range ((n+1)*(n+1))).map fun p => (sidOrder.perm p : Int)) := by
  obtain ⟨horder, hn'⟩ := channels2order_full hcount hn
  have hdegrees := flatMap_degrees (fun l k => ((l*l+sidOrder.place l k : Nat) : Int)) (n+1)
  refine (if_neg horder).trans (congrArg some (Eq.trans ?_ hdegrees))
  dsimp only
  rw [hn', List.flatMap_def, List.flatMap_def]
  refine congrArg List.flatten (List.map_congr_left fun o ho => ?_)
  have ho : o < 4096 := lt_of_lt_of_le (List.mem_range.mp ho) hn
  have hitems := congrArg (List.map fun x : Nat => (x : Int)) (sid_items o)
  rw [List.map_map, List.map_append, List.map_map, List.map_map] at hitems
  refine Eq.trans ?_ hitems.symm
  have hodd : (2*o+1)/2 = o := by omega
  have heven : (2*o+1+1)/2 = o+1 := by omega
  rw [sid_maxindex ho, hodd, heven]
  refine congrArg₂ _ (List.map_congr_left fun k hk => ?_) (List.map_congr_left fun k hk => ?_)
  · have hk := List.mem_range.mp hk
    rw [sid_index ho (by omega)]
    rfl
  · have hk := List.mem_range.mp hk
    rw [sid_index ho (by omega)]
    rfl

theorem matrixSid2acn_none {count : UInt32} (hcount : ∀ n, count.toNat ≠ (n+1)*(n+1)) :
    matrixSid2acn count = none := by
  refine if_pos ?_
  by_cases hsquare : count.toNat.sqrt*count.toNat.sqrt = count.toNat
  · have hzero : count.toNat.sqrt = 0 := by
      cases hroot : count.toNat.sqrt with
      | zero => rfl
      | succ n =>
        rw [hroot] at hsquare
        exact absurd hsquare.symm (hcount n)
    rw [channels2order_square count hsquare, hzero]
    decide
  · rw [channels2order_other count hsquare]
    decide

/-- Position `l*(l+1)+m` is the one of `m` among the `2*l+1` of its degree. -/
theorem sidOrder_position {l : Nat} {m : Int} (hm : |m| ≤ l) :
    (sidOrder.perm (l*(l+1)+m).toNat : Int) = l^2+2*(l-|m|)+if m < 0 then 1 else 0 := by
  have hbounds := abs_le.mp hm
  have hsquare : ((l*l : Nat) : Int)+(l : Int) = (l : Int)*((l : Int)+1) := by
    push_cast
    ring
  have hplace : ((l : Int)*((l : Int)+1)+m).toNat = l*l+(l+m).toNat := by omega
  rw [hplace, sidOrder.perm_degree (by omega)]
  change ((l*l+(if (l+m).toNat < l then 2*(l+m).toNat+1 else 2*(2*l-(l+m).toNat)) : Nat) : Int) = _
  rw [Int.natCast_add, Int.natCast_mul, pow_two, Int.add_assoc]
  by_cases hneg : m < 0
  · rw [if_pos (by omega), if_pos hneg, abs_of_neg hneg]
    omega
  · rw [if_neg (by omega), if_neg hneg, abs_of_nonneg (Int.not_lt.mp hneg)]
    omega

theorem order_lt {n : Nat} (h : (n+1)^2 ≤ 2^24) : n < 4096 := by
  by_contra hle
  have hsquare : 4097^2 ≤ (n+1)^2 := Nat.pow_le_pow_left (by omega) 2
  omega

/-- On a full set the vector has the SID position of every degree and index, so that it rearranges
the positions within each degree. Any other count is refused. -/
theorem sid2acn_rearranges (count : UInt32) (hcount : count.toNat ≤ 2^24) :
    (∀ N, count.toNat = (N+1)^2 → ∃ route : Nat → Nat,
      matrixSid2acn count = some ((List.range ((N+1)^2)).map fun p => (route p : Int)) ∧
      (∀ l ≤ N, ∀ m : Int, |m| ≤ l →
        (route (l*(l+1)+m).toNat : Int) = l^2+2*(l-|m|)+if m < 0 then 1 else 0) ∧
      Set.BijOn route (Set.Iio ((N+1)^2)) (Set.Iio ((N+1)^2)) ∧
      ∀ l ≤ N, Set.BijOn route (Set.Ico (l^2) ((l+1)^2)) (Set.Ico (l^2) ((l+1)^2))) ∧
    ((∀ N, count.toNat ≠ (N+1)^2) → matrixSid2acn count = none) := by
  constructor
  · intro N hN
    have hsmall := order_lt (hN ▸ hcount)
    refine ⟨sidOrder.perm, ?_, fun l _ m hm => sidOrder_position hm, ?_, fun l _ => ?_⟩
    · rw [pow_two, matrixSid2acn_full (by rw [hN, pow_two]) hsmall]
    · refine sidOrder.perm.bijOn fun p => ?_
      rw [Set.mem_Iio, Set.mem_Iio, pow_two, sidOrder.perm_lt]
    · refine sidOrder.perm.bijOn fun p => ?_
      rw [Set.mem_Ico, Set.mem_Ico, pow_two, pow_two, sidOrder.perm_lt, sidOrder.perm_le]
  · intro hno
    exact matrixSid2acn_none fun n => by rw [← pow_two]; exact hno n

/-- First order. -/
theorem sid2acn_rearranges_first : ∃ route : Nat → Nat,
    matrixSid2acn 4 = some ((List.range ((1+1)^2)).map fun p => (route p : Int)) ∧
    Set.BijOn route (Set.Iio ((1+1)^2)) (Set.Iio ((1+1)^2)) := by
  obtain ⟨route, hdata, -, hall, -⟩ := (sid2acn_rearranges 4 (by decide)).1 1 rfl
  exact ⟨route, hdata, hall⟩

end Ambix
