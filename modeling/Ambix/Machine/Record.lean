import Ambix.Machine.Block

/-! Packed records inside a block. A record is the list of its fields, laid end
to end without padding; `offset fs k` is where field `k` starts. -/
namespace Machine

/-- Cut `bs` into consecutive fields of the given widths. -/
def cut : List Nat → List UInt8 → List (List UInt8)
  | [], _ => []
  | w :: ws, bs => bs.take w :: cut ws (bs.drop w)

theorem cut_flatten (ws : List Nat) (bs : List UInt8) : (cut ws bs).flatten = bs.take ws.sum := by
  induction ws generalizing bs with
  | nil => simp [cut]
  | cons w ws ih => rw [cut, List.flatten_cons, ih, List.sum_cons, List.take_add]

theorem cut_widths (ws : List Nat) (bs : List UInt8) (h : ws.sum ≤ bs.length) :
    (cut ws bs).map List.length = ws := by
  induction ws generalizing bs with
  | nil => rfl
  | cons w ws ih =>
    rw [List.sum_cons] at h
    rw [cut, List.map_cons, ih _ (by rw [List.length_drop]; omega), List.length_take]
    congr 1
    omega

def offset (fs : List (List UInt8)) (k : Nat) : Nat := (fs.take k).flatten.length

theorem flatten_split (fs : List (List UInt8)) (k : Nat) (hk : k < fs.length) :
    fs.flatten = (fs.take k).flatten ++ fs[k] ++ (fs.drop (k+1)).flatten := by
  calc
    fs.flatten = (fs.take k ++ fs.drop k).flatten := by rw [List.take_append_drop]
    _ = (fs.take k).flatten ++ (fs.drop k).flatten := List.flatten_append
    _ = _ := by rw [List.drop_eq_getElem_cons hk, List.flatten_cons, List.append_assoc]

theorem flatten_set (fs : List (List UInt8)) (k : Nat) (bs : List UInt8) (hk : k < fs.length) :
    (fs.set k bs).flatten = (fs.take k).flatten ++ bs ++ (fs.drop (k+1)).flatten := by
  rw [List.set_eq_take_append_cons_drop, if_pos hk]
  simp

/-- Storing over one field leaves every other field and the surroundings alone. -/
theorem store_field (pre post : List UInt8) (fs : List (List UInt8)) (k : Nat) (bs : List UInt8)
    (pos : Nat) (hk : k < fs.length) (hlen : fs[k].length = bs.length)
    (hpos : pos = pre.length + offset fs k) :
    store (pre ++ fs.flatten ++ post) pos bs = .ok (pre ++ (fs.set k bs).flatten ++ post) := by
  have h := store_middle (pre ++ (fs.take k).flatten) fs[k]
    ((fs.drop (k+1)).flatten ++ post) bs hlen
  rw [flatten_set fs k bs hk, flatten_split fs k hk, hpos]
  simpa [offset, List.append_assoc] using h

theorem load_field (pre post : List UInt8) (fs : List (List UInt8)) (k pos n : Nat)
    (hk : k < fs.length) (hn : n = fs[k].length) (hpos : pos = pre.length + offset fs k) :
    load (pre ++ fs.flatten ++ post) pos n = .ok fs[k] := by
  have h := load_middle (pre ++ (fs.take k).flatten) fs[k] ((fs.drop (k+1)).flatten ++ post)
  rw [flatten_split fs k hk, hpos, hn]
  simpa [offset, List.append_assoc] using h

theorem field_record (fs : List (List UInt8)) (rest : List UInt8) (k pos n : Nat)
    (hk : k < fs.length) (hn : n = fs[k].length) (hpos : pos = offset fs k) :
    field (fs.flatten ++ rest) pos n = fs[k] :=
  field_middle (by rw [flatten_split fs k hk, List.append_assoc]) hpos hn

/-! A field whose bytes have been reversed in place if `swap` is set. -/

def revIf (swap : Bool) (bs : List UInt8) : List UInt8 := if swap then bs.reverse else bs

@[simp] theorem revIf_length (swap : Bool) (bs : List UInt8) :
    (revIf swap bs).length = bs.length := by
  cases swap <;> simp [revIf]

theorem word32_revIf (o : ByteOrder) (swap : Bool) (bs : List UInt8) :
    word32 o (revIf swap bs) = word32 (o.swapIf swap) bs := by
  cases swap
  · rfl
  · simp [revIf, word32, valueOf_reverse]

theorem word64_revIf (o : ByteOrder) (swap : Bool) (bs : List UInt8) :
    word64 o (revIf swap bs) = word64 (o.swapIf swap) bs := by
  cases swap
  · rfl
  · simp [revIf, word64, valueOf_reverse]

end Machine
