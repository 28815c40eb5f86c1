import Mathlib.Algebra.BigOperators.Group.Finset.Basic

/-! Counted loops with an explicit state, and the rules that replace them by
their closed forms. -/
namespace Machine
variable {σ : Type*} {α : Type*}

/-- `for(i=0; i<n; i++) s = body i s`. -/
def loop (body : Nat → σ → σ) : Nat → σ → σ
  | 0, s => s
  | n+1, s => body n (loop body n s)

/-- `for(i=lo; i<hi; i++) s = body i s`. -/
def loopFrom (lo hi : Nat) (body : Nat → σ → σ) (s : σ) : σ :=
  loop (fun t => body (lo+t)) (hi-lo) s

/-- Invariant rule: what holds at entry and survives each pass holds at exit. -/
theorem loop_invariant (P : Nat → σ → Prop) {body : Nat → σ → σ} {n : Nat} {s : σ}
    (h0 : P 0 s) (hstep : ∀ i t, i < n → P i t → P (i+1) (body i t)) :
    P n (loop body n s) := by
  induction n with
  | zero => exact h0
  | succ n ih =>
    have hn := ih fun i t hi => hstep i t (Nat.lt_succ_of_lt hi)
    exact hstep n _ (Nat.lt_succ_self n) hn

/-- Closed form of a loop: `f i` is the state before pass `i`. -/
theorem loop_eq (f : Nat → σ) {body : Nat → σ → σ} {n : Nat} {s : σ}
    (h0 : f 0 = s) (hstep : ∀ i, i < n → body i (f i) = f (i+1)) :
    loop body n s = f n := by
  refine loop_invariant (fun i t => t = f i) h0.symm ?_
  intro i t hi ht
  rw [ht, hstep i hi]

theorem loop_sum [AddCommMonoid α] (g : Nat → α) (n : Nat) :
    loop (fun i acc => acc + g i) n 0 = ∑ i ∈ Finset.range n, g i := by
  induction n with
  | zero => rfl
  | succ n ih => rw [loop, ih, Finset.sum_range_succ]

/-! Interleaved data behind a pointer. A pointer is a function of the offset;
`window p base n` are the `n` items from offset `base` on. -/

def window (p : Nat → α) (base n : Nat) : List α := (List.range n).map fun k => p (base+k)

@[simp] theorem window_length (p : Nat → α) (base n : Nat) : (window p base n).length = n := by
  simp [window]

theorem window_succ (p : Nat → α) (base n : Nat) :
    window p base (n+1) = window p base n ++ [p (base+n)] := by
  simp [window, List.range_succ]

theorem window_add (p : Nat → α) (base m n : Nat) :
    window p base (m+n) = window p base m ++ window p (base+m) n := by
  simp [window, List.range_add, Nat.add_assoc]

theorem window_getElem? (p : Nat → α) (base n k : Nat) (h : k < n) :
    (window p base n)[k]? = some (p (base+k)) := by
  simp [window, h]

theorem window_congr {p q : Nat → α} {base base' n : Nat}
    (h : ∀ k, k < n → p (base+k) = q (base'+k)) : window p base n = window q base' n := by
  apply List.map_congr_left
  intro k hk
  exact h k (List.mem_range.mp hk)

theorem window_shift (p : Nat → α) (shift base n : Nat) :
    window (fun i => p (shift+i)) base n = window p (shift+base) n := by
  simp only [window, Nat.add_assoc]

theorem window_take (p : Nat → α) (base n k : Nat) (h : k ≤ n) :
    (window p base n).take k = window p base k := by
  obtain ⟨m, rfl⟩ := Nat.exists_eq_add_of_le h
  rw [window_add, List.take_left' (window_length p base k)]

theorem window_drop (p : Nat → α) (base n k : Nat) (h : k ≤ n) :
    (window p base n).drop k = window p (base+k) (n-k) := by
  obtain ⟨m, rfl⟩ := Nat.exists_eq_add_of_le h
  rw [window_add, List.drop_left' (window_length p base k), Nat.add_sub_cancel_left]

theorem window_mul (p : Nat → α) (base w n : Nat) :
    window p base (w*n) = (List.range n).flatMap fun k => window p (base+w*k) w := by
  induction n with
  | zero => rfl
  | succ n ih => rw [Nat.mul_succ, window_add, ih, List.range_succ]; simp

theorem flatMap_rowMajor (g : Nat → α) (rows cols : Nat) :
    ((List.range rows).flatMap fun r => (List.range cols).map fun c => g (r*cols+c)) =
      (List.range (rows*cols)).map g := by
  induction rows with
  | zero => simp
  | succ rows ih =>
    rw [List.range_succ, List.flatMap_append, ih, Nat.succ_mul, List.range_add]
    simp [List.map_map, Function.comp_def]

theorem flatMap_length (g : Nat → List α) (w n : Nat) (hw : ∀ i, i < n → (g i).length = w) :
    ((List.range n).flatMap g).length = n*w := by
  rw [List.length_flatMap, List.map_congr_left (g := fun _ => w)
    fun i hi => hw i (List.mem_range.mp hi)]
  simp

theorem flatMap_getElem? (g : Nat → List α) (w n f c : Nat)
    (hw : ∀ i, i < n → (g i).length = w) (hf : f < n) (hc : c < w) :
    ((List.range n).flatMap g)[f*w+c]? = (g f)[c]? := by
  induction n with
  | zero => omega
  | succ n ih =>
    have hlen := flatMap_length g w n fun i hi => hw i (Nat.lt_succ_of_lt hi)
    rw [List.range_succ, List.flatMap_append]
    by_cases he : f = n
    · subst f
      rw [List.getElem?_append_right (by omega), hlen]
      simp
    · have hlt : f < n := by omega
      have hb : f*w+c < n*w := by
        calc
          f*w+c < f*w+w := by omega
          _ = (f+1)*w := by rw [Nat.succ_mul]
          _ ≤ n*w := Nat.mul_le_mul_right w hlt
      rw [List.getElem?_append_left (by omega)]
      exact ih (fun i hi => hw i (Nat.lt_succ_of_lt hi)) hlt

end Machine
