import Mathlib.Data.Nat.Sqrt
import Mathlib.Logic.Equiv.Defs

/-! Numbers in groups: degree `l` has the `2*l+1` numbers from `l*l` on, so the first `n` degrees
have the numbers below `n*n`. -/
namespace Machine
variable {α : Type*}

theorem degree_split (p : Nat) : ∃ l k, k ≤ 2*l ∧ p = l*l+k := by
  refine ⟨p.sqrt, p-p.sqrt*p.sqrt, ?_, ?_⟩
  · have hle := Nat.sqrt_le_add p
    omega
  · have hle := Nat.sqrt_le p
    omega

theorem sqrt_degree {l k : Nat} (hk : k ≤ 2*l) : (l*l+k).sqrt = l :=
  Nat.sqrt_add_eq l (by omega)

theorem flatMap_degrees (f : Nat → Nat → α) (n : Nat) :
    ((List.range n).flatMap fun l => (List.range (2*l+1)).map (f l)) =
      (List.range (n*n)).map fun p => f p.sqrt (p-p.sqrt*p.sqrt) := by
  induction n with
  | zero => rfl
  | succ n ih =>
    have hsize : (n+1)*(n+1) = n*n+(2*n+1) := by
      rw [Nat.succ_mul, Nat.mul_succ]
      omega
    have hrange : List.range ((n+1)*(n+1)) =
        List.range (n*n) ++ (List.range (2*n+1)).map (n*n+·) := by rw [hsize, List.range_add]
    rw [hrange, List.range_succ, List.flatMap_append, List.flatMap_singleton, ih, List.map_append,
      List.map_map]
    refine congrArg (_ ++ ·) (List.map_congr_left fun k hk => ?_)
    have hk := List.mem_range.mp hk
    change f n k = f (n*n+k).sqrt (n*n+k-(n*n+k).sqrt*(n*n+k).sqrt)
    rw [sqrt_degree (by omega), Nat.add_sub_cancel_left]

structure Rearrangement where
  place : Nat → Nat → Nat
  back : Nat → Nat → Nat
  place_le : ∀ l k, k ≤ 2*l → place l k ≤ 2*l
  back_le : ∀ l k, k ≤ 2*l → back l k ≤ 2*l
  back_place : ∀ l k, k ≤ 2*l → back l (place l k) = k
  place_back : ∀ l k, k ≤ 2*l → place l (back l k) = k

namespace Rearrangement

def within (f : Nat → Nat → Nat) (p : Nat) : Nat := p.sqrt*p.sqrt+f p.sqrt (p-p.sqrt*p.sqrt)

theorem within_degree (f : Nat → Nat → Nat) {l k : Nat} (hk : k ≤ 2*l) :
    within f (l*l+k) = l*l+f l k := by
  rw [within, sqrt_degree hk, Nat.add_sub_cancel_left]

theorem within_within {f g : Nat → Nat → Nat} (hle : ∀ l k, k ≤ 2*l → f l k ≤ 2*l)
    (hgf : ∀ l k, k ≤ 2*l → g l (f l k) = k) (p : Nat) : within g (within f p) = p := by
  obtain ⟨l, k, hk, rfl⟩ := degree_split p
  rw [within_degree f hk, within_degree g (hle l k hk), hgf l k hk]

def perm (r : Rearrangement) : Equiv.Perm Nat where
  toFun := within r.place
  invFun := within r.back
  left_inv := within_within r.place_le r.back_place
  right_inv := within_within r.back_le r.place_back

theorem perm_degree (r : Rearrangement) {l k : Nat} (hk : k ≤ 2*l) :
    r.perm (l*l+k) = l*l+r.place l k := within_degree r.place hk

theorem perm_sqrt (r : Rearrangement) (p : Nat) : (r.perm p).sqrt = p.sqrt := by
  obtain ⟨l, k, hk, rfl⟩ := degree_split p
  rw [r.perm_degree hk, sqrt_degree (r.place_le l k hk), sqrt_degree hk]

theorem perm_lt (r : Rearrangement) (p n : Nat) : r.perm p < n*n ↔ p < n*n := by
  rw [← Nat.sqrt_lt, ← Nat.sqrt_lt, r.perm_sqrt]

theorem perm_le (r : Rearrangement) (p n : Nat) : n*n ≤ r.perm p ↔ n*n ≤ p := by
  rw [← Nat.le_sqrt, ← Nat.le_sqrt, r.perm_sqrt]

/-- The order of the first `n` degrees. -/
def permFin (r : Rearrangement) (n : Nat) : Equiv.Perm (Fin (n*n)) where
  toFun p := ⟨r.perm p, (r.perm_lt p n).mpr p.isLt⟩
  invFun p := ⟨r.perm.symm p, by rw [← r.perm_lt, Equiv.apply_symm_apply]; exact p.isLt⟩
  left_inv p := Fin.ext (r.perm.symm_apply_apply p)
  right_inv p := Fin.ext (r.perm.apply_symm_apply p)

@[simp] theorem permFin_val (r : Rearrangement) {n : Nat} (p : Fin (n*n)) :
    (r.permFin n p : Nat) = r.perm p := rfl

end Rearrangement
end Machine
