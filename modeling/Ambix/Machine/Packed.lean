import Ambix.Machine.Stream

/-! Records of one length, packed one behind the other. -/
namespace Machine
variable {α β : Type*}

/-! Rows of one width. -/

theorem flatten_length {w : Nat} {ls : List (List α)} (hw : ∀ l ∈ ls, l.length = w) :
    ls.flatten.length = ls.length*w := by
  rw [List.length_flatten, List.map_congr_left (g := fun _ => w) hw]
  simp

theorem flatten_take {w : Nat} {ls : List (List α)} (hw : ∀ l ∈ ls, l.length = w) (n : Nat) :
    ls.flatten.take (n*w) = (ls.take n).flatten := by
  induction ls generalizing n with
  | nil => simp
  | cons l ls ih =>
    obtain ⟨hl, hrest⟩ := List.forall_mem_cons.mp hw
    cases n with
    | zero => simp
    | succ n =>
      rw [List.take_succ_cons, List.flatten_cons, List.flatten_cons, Nat.succ_mul,
        Nat.add_comm (n*w), List.take_append, hl, Nat.add_sub_cancel_left,
        List.take_of_length_le (by omega), ih hrest]

theorem flatten_drop {w : Nat} {ls : List (List α)} (hw : ∀ l ∈ ls, l.length = w) (n : Nat) :
    ls.flatten.drop (n*w) = (ls.drop n).flatten := by
  induction ls generalizing n with
  | nil => simp
  | cons l ls ih =>
    obtain ⟨hl, hrest⟩ := List.forall_mem_cons.mp hw
    cases n with
    | zero => simp
    | succ n =>
      rw [List.drop_succ_cons, List.flatten_cons, Nat.succ_mul, Nat.add_comm (n*w),
        List.drop_append, hl, Nat.add_sub_cancel_left, List.drop_eq_nil_of_le (by omega),
        List.nil_append, ih hrest]

/-! Codes. -/

/-- A code whose words are `width` long. -/
structure BlockCode (α β : Type*) where
  width : Nat
  encode : α → List β
  decode : List β → α
  width_pos : 0 < width
  encode_length : ∀ a, (encode a).length = width
  decode_encode : ∀ a, decode (encode a) = a

namespace BlockCode
variable (C : BlockCode α β)

def pack (as : List α) : List β := as.flatMap C.encode

@[simp] theorem pack_nil : C.pack [] = [] := rfl

theorem pack_append (as bs : List α) : C.pack (as ++ bs) = C.pack as ++ C.pack bs :=
  List.flatMap_append

theorem pack_words (as : List α) : ∀ l ∈ as.map C.encode, l.length = C.width := by
  intro l hl
  obtain ⟨a, -, rfl⟩ := List.mem_map.mp hl
  exact C.encode_length a

@[simp] theorem pack_length (as : List α) : (C.pack as).length = as.length*C.width := by
  rw [pack, List.flatMap_def, flatten_length (C.pack_words as), List.length_map]

theorem pack_take (as : List α) (n : Nat) : (C.pack as).take (n*C.width) = C.pack (as.take n) := by
  rw [pack, List.flatMap_def, flatten_take (C.pack_words as), ← List.map_take, ← List.flatMap_def]
  rfl

theorem pack_drop (as : List α) (n : Nat) : (C.pack as).drop (n*C.width) = C.pack (as.drop n) := by
  rw [pack, List.flatMap_def, flatten_drop (C.pack_words as), ← List.map_drop, ← List.flatMap_def]
  rfl

/-- Record `i` behind a pointer. -/
def view (p : Nat → β) (i : Nat) : α := C.decode (window p (C.width*i) C.width)

theorem view_pack (p : Nat → β) (as : List α) :
    window (C.view ((Cursor.start p).putAll (C.pack as)).data) 0 as.length = as := by
  have hwords := framesOf_written (C.pack_words as)
    ((Cursor.start_putAll_items p (C.pack as)).trans (List.flatMap_def))
  rw [List.length_map] at hwords
  calc
    window (C.view ((Cursor.start p).putAll (C.pack as)).data) 0 as.length =
        (framesOf ((Cursor.start p).putAll (C.pack as)).data C.width as.length).map C.decode := by
      rw [framesOf, List.map_map]
      refine List.map_congr_left fun i _ => ?_
      rw [Nat.zero_add]
      rfl
    _ = (as.map C.encode).map C.decode := congrArg _ hwords
    _ = as := by
      rw [List.map_map]
      exact (List.map_congr_left fun a _ => C.decode_encode a).trans (List.map_id as)

end BlockCode
end Machine
