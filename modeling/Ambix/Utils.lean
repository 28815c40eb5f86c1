import Ambix.Machine.Record
import Mathlib.Data.Nat.Sqrt

/-! utils.c and the byte swaps of private.h. -/
namespace Ambix
open Machine

def order2channels (order : UInt32) : UInt32 := (order+1)*(order+1)

/-- The cast of `sqrt((double)channels)` to `int32_t` is the integer square root;
the product of the two `int32_t` wraps as in two's complement. -/
def channels2order (channels : UInt32) : Int32 :=
  let order1 : Int32 := Int32.ofNat channels.toNat.sqrt
  if (order1*order1).toUInt32 = channels then order1-1 else -1

def isFullset (channels : UInt32) : Bool :=
  order2channels (channels2order channels).toUInt32 == channels

theorem order1_square (n : UInt32) :
    (Int32.ofNat n.toNat.sqrt * Int32.ofNat n.toNat.sqrt).toUInt32 = n ↔
      n.toNat.sqrt * n.toNat.sqrt = n.toNat := by
  have hs : n.toNat.sqrt < 65536 := by
    rw [Nat.sqrt_lt]
    have := n.toNat_lt
    omega
  have hle := Nat.sqrt_le n.toNat
  have hn := n.toNat_lt
  have h1 : n.toNat.sqrt % 2^32 = n.toNat.sqrt := Nat.mod_eq_of_lt (by omega)
  rw [← UInt32.toNat_inj]
  simp only [Int32.toUInt32_mul, Int32.toUInt32_ofNat', UInt32.toNat_mul, UInt32.toNat_ofNat']
  rw [h1, Nat.mod_eq_of_lt (by omega)]

theorem channels2order_square (n : UInt32) (h : n.toNat.sqrt * n.toNat.sqrt = n.toNat) :
    channels2order n = Int32.ofNat n.toNat.sqrt - 1 := if_pos ((order1_square n).mpr h)

theorem channels2order_other (n : UInt32) (h : ¬ n.toNat.sqrt * n.toNat.sqrt = n.toNat) :
    channels2order n = -1 := if_neg fun he => h ((order1_square n).mp he)

theorem isFullset_eq (n : UInt32) :
    isFullset n = decide (n.toNat.sqrt * n.toNat.sqrt = n.toNat) := by
  by_cases h : n.toNat.sqrt * n.toNat.sqrt = n.toNat
  · have hord : order2channels (channels2order n).toUInt32 = n := by
      rw [channels2order_square n h, order2channels, Int32.toUInt32_sub]
      have h1 : Int32.toUInt32 1 = 1 := rfl
      rw [h1, UInt32.sub_add_cancel, ← Int32.toUInt32_mul]
      exact (order1_square n).mpr h
    rw [isFullset, hord, beq_self_eq_true, decide_eq_true h]
  · have hz : n ≠ 0 := by
      rintro rfl
      exact h rfl
    have hord : order2channels (channels2order n).toUInt32 = 0 := by
      rw [channels2order_other n h]
      rfl
    rw [isFullset, hord, beq_eq_false_iff_ne.mpr (Ne.symm hz), decide_eq_false h]

/-- The full sets are the squares of 32 bits, zero among them. -/
theorem isFullset_iff (n : UInt32) :
    isFullset n = true ↔ n = 0 ∨ ∃ k, n.toNat = (k+1)*(k+1) := by
  rw [isFullset_eq, decide_eq_true_iff]
  constructor
  · intro h
    cases hk : n.toNat.sqrt with
    | zero =>
      left
      apply UInt32.toNat_inj.mp
      rw [← h, hk]
      rfl
    | succ k => exact Or.inr ⟨k, by rw [← h, hk]⟩
  · rintro (rfl | ⟨k, hk⟩)
    · rfl
    · rw [hk, Nat.sqrt_eq]

def swap4 (n : UInt32) : UInt32 :=
  ((n &&& 0xff) <<< 24) ||| ((n &&& 0xff00) <<< 8) |||
    ((n &&& 0xff0000) >>> 8) ||| ((n &&& 0xff000000) >>> 24)

def swap8 (n : UInt64) : UInt64 :=
  ((n &&& 0xff00000000000000) >>> 56) ||| ((n &&& 0x00ff000000000000) >>> 40) |||
    ((n &&& 0x0000ff0000000000) >>> 24) ||| ((n &&& 0x000000ff00000000) >>> 8) |||
    ((n &&& 0x00000000ff000000) <<< 8) ||| ((n &&& 0x0000000000ff0000) <<< 24) |||
    ((n &&& 0x000000000000ff00) <<< 40) ||| ((n &&& 0x00000000000000ff) <<< 56)

theorem swap4_toNat (n : UInt32) : (swap4 n).toNat = value (digits 4 n.toNat).reverse := by
  have h0 : ((n &&& 0xff) <<< 24).toNat = byteAt n.toNat 0 * 256^3 := shl_mask _ 0 3 4 (by omega)
  have h1 : ((n &&& 0xff00) <<< 8).toNat = byteAt n.toNat 1 * 256^2 := shl_mask _ 1 1 4 (by omega)
  have h2 : ((n &&& 0xff0000) >>> 8).toNat = byteAt n.toNat 2 * 256^1 := shr_mask _ 2 1 (by omega)
  have h3 : ((n &&& 0xff000000) >>> 24).toNat = byteAt n.toNat 3 * 256^0 :=
    shr_mask _ 3 3 (by omega)
  have hor : ∀ a b c d : Nat, a ||| b ||| c ||| d = d ||| c ||| b ||| a := by
    intro a b c d
    ac_rfl
  rw [swap4, UInt32.toNat_or, UInt32.toNat_or, UInt32.toNat_or, h0, h1, h2, h3, hor,
    reverse_digits]
  simp only [lorBytes, Nat.zero_or]

theorem swap8_toNat (n : UInt64) : (swap8 n).toNat = value (digits 8 n.toNat).reverse := by
  have h0 : ((n &&& 0xff) <<< 56).toNat = byteAt n.toNat 0 * 256^7 := shl_mask _ 0 7 8 (by omega)
  have h1 : ((n &&& 0xff00) <<< 40).toNat = byteAt n.toNat 1 * 256^6 := shl_mask _ 1 5 8 (by omega)
  have h2 : ((n &&& 0xff0000) <<< 24).toNat = byteAt n.toNat 2 * 256^5 :=
    shl_mask _ 2 3 8 (by omega)
  have h3 : ((n &&& 0xff000000) <<< 8).toNat = byteAt n.toNat 3 * 256^4 :=
    shl_mask _ 3 1 8 (by omega)
  have h4 : ((n &&& 0xff00000000) >>> 8).toNat = byteAt n.toNat 4 * 256^3 :=
    shr_mask _ 4 1 (by omega)
  have h5 : ((n &&& 0xff0000000000) >>> 24).toNat = byteAt n.toNat 5 * 256^2 :=
    shr_mask _ 5 3 (by omega)
  have h6 : ((n &&& 0xff000000000000) >>> 40).toNat = byteAt n.toNat 6 * 256^1 :=
    shr_mask _ 6 5 (by omega)
  have h7 : ((n &&& 0xff00000000000000) >>> 56).toNat = byteAt n.toNat 7 * 256^0 :=
    shr_mask _ 7 7 (by omega)
  simp only [swap8, UInt64.toNat_or, h0, h1, h2, h3, h4, h5, h6, h7, reverse_digits, lorBytes,
    Nat.zero_or]

theorem bytes32_swap4 (o : ByteOrder) (n : UInt32) :
    bytes32 o (swap4 n) = (bytes32 o n).reverse := by
  have h := digits_value (digits 4 n.toNat).reverse
  rw [List.length_reverse, digits_length] at h
  rw [bytes32, bytesOf, swap4_toNat, h, o.arrange_reverse]
  rfl

theorem bytes64_swap8 (o : ByteOrder) (n : UInt64) :
    bytes64 o (swap8 n) = (bytes64 o n).reverse := by
  have h := digits_value (digits 8 n.toNat).reverse
  rw [List.length_reverse, digits_length] at h
  rw [bytes64, bytesOf, swap8_toNat, h, o.arrange_reverse]
  rfl

/-- `_ambix_swap4array` on the words from `pos` on, as `host` holds them. -/
def swap4array (host : ByteOrder) (b : List UInt8) (pos : Nat) : Nat → Checked (List UInt8)
  | 0 => .ok b
  | n+1 => do
    let v ← load32 host b pos
    let b ← store32 host b pos (swap4 v)
    swap4array host b (pos+4) n

def swap8array (host : ByteOrder) (b : List UInt8) (pos : Nat) : Nat → Checked (List UInt8)
  | 0 => .ok b
  | n+1 => do
    let v ← load64 host b pos
    let b ← store64 host b pos (swap8 v)
    swap8array host b (pos+8) n

theorem swap4array_words (host : ByteOrder) (ws : List UInt32) (pre post : List UInt8) :
    swap4array host (pre ++ ws.flatMap (bytes32 host) ++ post) pre.length ws.length =
      .ok (pre ++ ws.flatMap (bytes32 host.flip) ++ post) := by
  induction ws generalizing pre with
  | nil => rfl
  | cons w ws ih =>
    have hl := load_middle pre (bytes32 host w) (ws.flatMap (bytes32 host) ++ post)
    have hs := store_middle pre (bytes32 host w) (ws.flatMap (bytes32 host) ++ post)
      (bytes32 host.flip w) (by simp)
    have hw : bytes32 host (swap4 w) = bytes32 host.flip w := by rw [bytes32_swap4, bytes32_flip]
    have hr := ih (pre ++ bytes32 host.flip w)
    simp only [bytes32_length, List.length_append, List.append_assoc] at hl hs hr
    simp only [List.flatMap_cons, List.length_cons, List.append_assoc, swap4array, load32, hl,
      Except.map_ok, ok_bind, word32_bytes32, store32, hw, hs, hr]

theorem swap4array_middle (host : ByteOrder) (pre bs post : List UInt8) (h : bs.length = 4) :
    swap4array host (pre ++ bs ++ post) pre.length 1 = .ok (pre ++ bs.reverse ++ post) := by
  have hl := load_middle pre bs post
  have hb : bytes32 host (swap4 (word32 host bs)) = bs.reverse := by
    rw [bytes32_swap4, bytes32_word32 host bs h]
  rw [h] at hl
  simp only [swap4array, load32, hl, Except.map_ok, ok_bind, store32, hb,
    store_middle pre bs post bs.reverse (by simp)]

theorem swap8array_middle (host : ByteOrder) (pre bs post : List UInt8) (h : bs.length = 8) :
    swap8array host (pre ++ bs ++ post) pre.length 1 = .ok (pre ++ bs.reverse ++ post) := by
  have hl := load_middle pre bs post
  have hb : bytes64 host (swap8 (word64 host bs)) = bs.reverse := by
    rw [bytes64_swap8, bytes64_word64 host bs h]
  rw [h] at hl
  simp only [swap8array, load64, hl, Except.map_ok, ok_bind, store64, hb,
    store_middle pre bs post bs.reverse (by simp)]

theorem swap4array_length {host : ByteOrder} {n : Nat} {b b' : List UInt8} {pos : Nat}
    (h : swap4array host b pos n = .ok b') : b'.length = b.length := by
  induction n generalizing b pos with
  | zero => rw [Except.ok.inj h]
  | succ n ih =>
    obtain ⟨v, -, h⟩ := bind_eq_ok.mp h
    obtain ⟨c, hc, h⟩ := bind_eq_ok.mp h
    rw [ih h, store_length hc]

theorem swap8array_length {host : ByteOrder} {n : Nat} {b b' : List UInt8} {pos : Nat}
    (h : swap8array host b pos n = .ok b') : b'.length = b.length := by
  induction n generalizing b pos with
  | zero => rw [Except.ok.inj h]
  | succ n ih =>
    obtain ⟨v, -, h⟩ := bind_eq_ok.mp h
    obtain ⟨c, hc, h⟩ := bind_eq_ok.mp h
    rw [ih h, store_length hc]

theorem swap4_word32 (o : ByteOrder) (bs : List UInt8) (h : bs.length = 4) :
    swap4 (word32 o bs) = word32 o.flip bs := by
  have hb : bytes32 o (swap4 (word32 o bs)) = bs.reverse := by
    rw [bytes32_swap4, bytes32_word32 o bs h]
  calc
    swap4 (word32 o bs) = word32 o (bytes32 o (swap4 (word32 o bs))) := (word32_bytes32 o _).symm
    _ = word32 o bs.reverse := by rw [hb]
    _ = word32 o.flip bs := word32_revIf o true bs

end Ambix
