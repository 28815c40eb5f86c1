import Ambix.Machine.Loop
import Mathlib.Algebra.BigOperators.Ring.Finset

/-! Sample streams. `Cursor` is a destination that is written through a moving pointer;
a multi-channel stream is a list of frames, each a list of its samples. -/
namespace Machine
variable {α β : Type*}

/-- A destination and how far the pointer into it has moved. -/
structure Cursor (α : Type*) where
  data : Nat → α
  count : Nat

namespace Cursor

/-- The pointer at the start of `p`. -/
def start (p : Nat → α) : Cursor α := ⟨p, 0⟩

/-- `*dest++ = v`. -/
def put (d : Cursor α) (v : α) : Cursor α := ⟨Function.update d.data d.count v, d.count+1⟩

def putAll (d : Cursor α) (vs : List α) : Cursor α := vs.foldl put d

def items (d : Cursor α) : List α := window d.data 0 d.count

@[simp] theorem start_items (p : Nat → α) : (start p).items = [] := rfl

@[simp] theorem items_length (d : Cursor α) : d.items.length = d.count := window_length _ _ _

theorem put_items (d : Cursor α) (v : α) : (d.put v).items = d.items ++ [v] := by
  have hold : window (Function.update d.data d.count v) 0 d.count = d.items :=
    window_congr fun k hk => Function.update_of_ne (by omega) _ _
  have hnew : Function.update d.data d.count v (0+d.count) = v := by
    rw [Nat.zero_add, Function.update_self]
  calc
    (d.put v).items = window (Function.update d.data d.count v) 0 d.count ++
        [Function.update d.data d.count v (0+d.count)] := window_succ _ _ _
    _ = d.items ++ [v] := by rw [hold, hnew]

@[simp] theorem putAll_nil (d : Cursor α) : d.putAll [] = d := rfl

theorem putAll_append (d : Cursor α) (us vs : List α) :
    d.putAll (us ++ vs) = (d.putAll us).putAll vs := List.foldl_append

theorem putAll_singleton (d : Cursor α) (v : α) : d.putAll [v] = d.put v := rfl

theorem putAll_items (d : Cursor α) (vs : List α) : (d.putAll vs).items = d.items ++ vs := by
  induction vs generalizing d with
  | nil => simp
  | cons v vs ih =>
    change ((d.put v).putAll vs).items = _
    rw [ih, put_items, List.append_assoc, List.singleton_append]

@[simp] theorem start_putAll_items (p : Nat → α) (vs : List α) :
    ((start p).putAll vs).items = vs := by rw [putAll_items, start_items, List.nil_append]

theorem putAll_end (d : Cursor α) (vs : List α) : (d.putAll vs).count = d.count+vs.length := by
  rw [← items_length, putAll_items, List.length_append, items_length]

/-- What lies outside the written stretch stays. -/
theorem putAll_outside (d : Cursor α) (vs : List α) {i : Nat}
    (h : i < d.count ∨ d.count+vs.length ≤ i) : (d.putAll vs).data i = d.data i := by
  induction vs generalizing d with
  | nil => rfl
  | cons v vs ih =>
    rw [List.length_cons] at h
    have hrest : i < (d.put v).count ∨ (d.put v).count+vs.length ≤ i := by
      change i < d.count+1 ∨ d.count+1+vs.length ≤ i
      omega
    change ((d.put v).putAll vs).data i = d.data i
    rw [ih (d.put v) hrest]
    exact Function.update_of_ne (by omega) _ _

theorem putAll_window (d : Cursor α) (vs : List α) :
    window (d.putAll vs).data d.count vs.length = vs := by
  induction vs generalizing d with
  | nil => rfl
  | cons v vs ih =>
    have hfirst : ((d.put v).putAll vs).data d.count = v := by
      rw [putAll_outside _ _ (Or.inl (Nat.lt_succ_self d.count))]
      exact Function.update_self _ _ _
    change window ((d.put v).putAll vs).data d.count (vs.length+1) = v :: vs
    rw [Nat.add_comm, window_add]
    change ((d.put v).putAll vs).data d.count :: window _ (d.put v).count vs.length = v :: vs
    rw [hfirst, ih (d.put v)]

theorem putAll_flatMap_succ (d : Cursor α) (g : Nat → List α) (n : Nat) :
    d.putAll ((List.range (n+1)).flatMap g) =
      (d.putAll ((List.range n).flatMap g)).putAll (g n) := by
  rw [List.range_succ, List.flatMap_append, putAll_append, List.flatMap_singleton]

theorem putAll_flatMap_at (d : Cursor α) (g : Nat → List α) {w n f c : Nat}
    (hw : ∀ i < n, (g i).length = w) (hf : f < n) (hc : c < w) :
    some ((d.putAll ((List.range n).flatMap g)).data (d.count+(f*w+c))) = (g f)[c]? := by
  have hitem := flatMap_getElem? g w n f c hw hf hc
  have hwindow := putAll_window d ((List.range n).flatMap g)
  have hlt : f*w+c < n*w := by
    calc
      f*w+c < f*w+w := by omega
      _ = (f+1)*w := (Nat.succ_mul f w).symm
      _ ≤ n*w := Nat.mul_le_mul_right w hf
  rw [flatMap_length g w n hw] at hwindow
  rwa [← hwindow, window_getElem? _ _ _ _ hlt] at hitem

end Cursor

/-! Frames. -/

/-- The `n` frames of `w` samples each behind a pointer. -/
def framesOf (p : Nat → α) (w n : Nat) : List (List α) :=
  (List.range n).map fun f => window p (w*f) w

@[simp] theorem framesOf_length (p : Nat → α) (w n : Nat) : (framesOf p w n).length = n := by
  simp [framesOf]

theorem framesOf_width {p : Nat → α} {w n : Nat} : ∀ fr ∈ framesOf p w n, fr.length = w := by
  intro fr hfr
  obtain ⟨f, -, rfl⟩ := List.mem_map.mp hfr
  exact window_length p _ w

theorem framesOf_congr {p q : Nat → α} {w n : Nat} (h : ∀ i < n*w, p i = q i) :
    framesOf p w n = framesOf q w n := by
  refine List.map_congr_left fun f hf => window_congr fun k hk => h (w*f+k) ?_
  calc
    w*f+k < w*(f+1) := by
      rw [Nat.mul_succ]
      omega
    _ ≤ w*n := Nat.mul_le_mul_left w (List.mem_range.mp hf)
    _ = n*w := Nat.mul_comm w n

theorem window_written (p : Nat → α) (vs : List α) {k : Nat} (hk : k ≤ vs.length) :
    window ((Cursor.start p).putAll vs).data 0 k = vs.take k := by
  have hitems := Cursor.start_putAll_items p vs
  have hcount : ((Cursor.start p).putAll vs).count = vs.length := by
    rw [← Cursor.items_length, hitems]
  rw [Cursor.items] at hitems
  rw [← window_take _ 0 _ k (hcount ▸ hk), hitems]

theorem putAll_count (p : Nat → α) {w : Nat} {ls : List (List α)} (hl : ∀ l ∈ ls, l.length = w) :
    ((Cursor.start p).putAll ls.flatten).count = ls.length*w := by
  rw [← Cursor.items_length, Cursor.start_putAll_items, List.length_flatten,
    List.map_congr_left (g := fun _ => w) hl]
  simp

theorem framesOf_flatMap (p : Nat → α) (w n : Nat) (g : List α → List β) :
    (framesOf p w n).flatMap g = (List.range n).flatMap fun f => g (window p (w*f) w) := by
  rw [framesOf, List.flatMap_map]

theorem framesOf_flatten (p : Nat → α) (w n : Nat) :
    (framesOf p w n).flatten = window p 0 (w*n) := by
  rw [framesOf, ← List.flatMap_def, window_mul]
  simp only [Nat.zero_add]

theorem flatten_injective {w : Nat} {ls ms : List (List α)} (hlen : ls.length = ms.length)
    (hl : ∀ l ∈ ls, l.length = w) (hm : ∀ m ∈ ms, m.length = w) (h : ls.flatten = ms.flatten) :
    ls = ms := by
  induction ls generalizing ms with
  | nil => exact (List.length_eq_zero_iff.mp hlen.symm).symm
  | cons l ls ih =>
    cases ms with
    | nil => cases hlen
    | cons m ms =>
      rw [List.flatten_cons, List.flatten_cons] at h
      have hlm := (hl l List.mem_cons_self).trans (hm m List.mem_cons_self).symm
      obtain ⟨rfl, hrest⟩ := List.append_inj h hlm
      rw [ih (Nat.succ.inj hlen) (fun l' h' => hl l' (List.mem_cons_of_mem _ h'))
        (fun m' h' => hm m' (List.mem_cons_of_mem _ h')) hrest]

theorem framesOf_written {d : Cursor α} {w : Nat} {ls : List (List α)}
    (hl : ∀ l ∈ ls, l.length = w) (h : d.items = ls.flatten) :
    framesOf d.data w ls.length = ls := by
  have hcount : d.count = w*ls.length := by
    rw [← Cursor.items_length, h, List.length_flatten, List.map_congr_left (g := fun _ => w) hl]
    simp [Nat.mul_comm]
  refine flatten_injective (framesOf_length _ _ _) framesOf_width hl ?_
  rw [framesOf_flatten, ← hcount, ← h, Cursor.items]

theorem framesOf_zip (p q : Nat → α) (v w n : Nat) (g : List α → List α → List β) :
    (List.zipWith g (framesOf p v n) (framesOf q w n)).flatten =
      (List.range n).flatMap fun f => g (window p (v*f) v) (window q (w*f) w) := by
  rw [framesOf, framesOf, List.zipWith_map, List.zipWith_self, List.flatMap_def]

end Machine
