import Mathlib.Data.Nat.Bitwise
import Mathlib.Tactic.Ring

/-! Byte images of unsigned words under either byte order. Nothing here knows a
file format: a word has a width in bytes, an order arranges its base-256 digits. -/
namespace Machine

inductive ByteOrder where
  | little | big
deriving DecidableEq, Repr

def ByteOrder.flip : ByteOrder → ByteOrder
  | .little => .big
  | .big => .little

/-- The order a field is left in when its bytes are reversed if `swap` is set. -/
def ByteOrder.swapIf (o : ByteOrder) (swap : Bool) : ByteOrder :=
  if swap then o.flip else o

@[simp] theorem ByteOrder.swapIf_false (o : ByteOrder) : o.swapIf false = o := rfl
@[simp] theorem ByteOrder.swapIf_true (o : ByteOrder) : o.swapIf true = o.flip := rfl

/-- A host that swaps exactly when its order differs from the file's reads and
writes in the file's order. -/
theorem ByteOrder.swapIf_ne (host file : ByteOrder) :
    host.swapIf (decide (host ≠ file)) = file := by
  cases host <;> cases file <;> rfl

/-- Base-256 digits of `v`, least significant first, cut to `w` bytes. -/
def digits : Nat → Nat → List UInt8
  | 0, _ => []
  | w+1, v => UInt8.ofNat v :: digits w (v / 256)

def value : List UInt8 → Nat
  | [] => 0
  | b :: bs => b.toNat + 256 * value bs

@[simp] theorem digits_length (w v : Nat) : (digits w v).length = w := by
  induction w generalizing v with
  | zero => rfl
  | succ w ih => simp [digits, ih]

theorem value_lt (bs : List UInt8) : value bs < 256 ^ bs.length := by
  induction bs with
  | nil => simp [value]
  | cons b bs ih =>
    have hb := b.toNat_lt
    simp only [value, List.length_cons, pow_succ]
    omega

theorem value_digits (w v : Nat) (h : v < 256 ^ w) : value (digits w v) = v := by
  induction w generalizing v with
  | zero => simp [digits, value] at *; omega
  | succ w ih =>
    have hv : v / 256 < 256 ^ w := by
      rw [pow_succ] at h
      omega
    simp only [digits, value, ih _ hv, UInt8.toNat_ofNat']
    omega

theorem digits_value (bs : List UInt8) : digits bs.length (value bs) = bs := by
  induction bs with
  | nil => rfl
  | cons b bs ih =>
    have hb := b.toNat_lt
    have hdiv : (b.toNat + 256 * value bs) / 256 = value bs := by omega
    have hmod : UInt8.ofNat (b.toNat + 256 * value bs) = b := by
      apply UInt8.toNat_inj.mp
      rw [UInt8.toNat_ofNat']
      omega
    simp only [List.length_cons, value, digits, hdiv, hmod, ih]

def ByteOrder.arrange (o : ByteOrder) (bs : List UInt8) : List UInt8 :=
  match o with
  | .little => bs
  | .big => bs.reverse

@[simp] theorem ByteOrder.arrange_length (o : ByteOrder) (bs : List UInt8) :
    (o.arrange bs).length = bs.length := by
  cases o <;> simp [arrange]

@[simp] theorem ByteOrder.arrange_arrange (o : ByteOrder) (bs : List UInt8) :
    o.arrange (o.arrange bs) = bs := by
  cases o <;> simp [arrange]

theorem ByteOrder.arrange_flip (o : ByteOrder) (bs : List UInt8) :
    o.flip.arrange bs = (o.arrange bs).reverse := by
  cases o <;> simp [arrange, flip]

theorem ByteOrder.arrange_reverse (o : ByteOrder) (bs : List UInt8) :
    o.arrange bs.reverse = (o.arrange bs).reverse := by
  cases o <;> simp [arrange]

def bytesOf (o : ByteOrder) (w v : Nat) : List UInt8 := o.arrange (digits w v)
def valueOf (o : ByteOrder) (bs : List UInt8) : Nat := value (o.arrange bs)

@[simp] theorem bytesOf_length (o : ByteOrder) (w v : Nat) : (bytesOf o w v).length = w := by
  simp [bytesOf]

theorem valueOf_bytesOf (o : ByteOrder) (w v : Nat) (h : v < 256 ^ w) :
    valueOf o (bytesOf o w v) = v := by
  simp [valueOf, bytesOf, value_digits w v h]

theorem bytesOf_valueOf (o : ByteOrder) (bs : List UInt8) :
    bytesOf o bs.length (valueOf o bs) = bs := by
  have h := digits_value (o.arrange bs)
  rw [o.arrange_length] at h
  simp [bytesOf, valueOf, h]

theorem valueOf_lt (o : ByteOrder) (bs : List UInt8) : valueOf o bs < 256 ^ bs.length := by
  simpa [valueOf] using value_lt (o.arrange bs)

theorem bytesOf_flip (o : ByteOrder) (w v : Nat) :
    bytesOf o.flip w v = (bytesOf o w v).reverse := o.arrange_flip _

theorem valueOf_reverse (o : ByteOrder) (bs : List UInt8) :
    valueOf o bs.reverse = valueOf o.flip bs := by
  simp [valueOf, o.arrange_reverse, o.arrange_flip]

/-! 32- and 64-bit words. -/

def bytes32 (o : ByteOrder) (x : UInt32) : List UInt8 := bytesOf o 4 x.toNat
def word32 (o : ByteOrder) (bs : List UInt8) : UInt32 := UInt32.ofNat (valueOf o bs)
def bytes64 (o : ByteOrder) (x : UInt64) : List UInt8 := bytesOf o 8 x.toNat
def word64 (o : ByteOrder) (bs : List UInt8) : UInt64 := UInt64.ofNat (valueOf o bs)

@[simp] theorem bytes32_length (o : ByteOrder) (x : UInt32) : (bytes32 o x).length = 4 :=
  bytesOf_length o 4 _
@[simp] theorem bytes64_length (o : ByteOrder) (x : UInt64) : (bytes64 o x).length = 8 :=
  bytesOf_length o 8 _

@[simp] theorem word32_bytes32 (o : ByteOrder) (x : UInt32) : word32 o (bytes32 o x) = x := by
  have hx : x.toNat < 256 ^ 4 := x.toNat_lt
  rw [word32, bytes32, valueOf_bytesOf o 4 _ hx, UInt32.ofNat_toNat]

@[simp] theorem word64_bytes64 (o : ByteOrder) (x : UInt64) : word64 o (bytes64 o x) = x := by
  have hx : x.toNat < 256 ^ 8 := x.toNat_lt
  rw [word64, bytes64, valueOf_bytesOf o 8 _ hx, UInt64.ofNat_toNat]

theorem bytes32_word32 (o : ByteOrder) (bs : List UInt8) (h : bs.length = 4) :
    bytes32 o (word32 o bs) = bs := by
  have hv := valueOf_lt o bs
  have hb := bytesOf_valueOf o bs
  rw [h] at hv hb
  rw [bytes32, word32, UInt32.toNat_ofNat_of_lt' (by simpa using hv), hb]

theorem bytes64_word64 (o : ByteOrder) (bs : List UInt8) (h : bs.length = 8) :
    bytes64 o (word64 o bs) = bs := by
  have hv := valueOf_lt o bs
  have hb := bytesOf_valueOf o bs
  rw [h] at hv hb
  rw [bytes64, word64, UInt64.toNat_ofNat_of_lt' (by simpa using hv), hb]

theorem bytes32_flip (o : ByteOrder) (x : UInt32) :
    bytes32 o.flip x = (bytes32 o x).reverse := bytesOf_flip o 4 _
theorem bytes64_flip (o : ByteOrder) (x : UInt64) :
    bytes64 o.flip x = (bytes64 o x).reverse := bytesOf_flip o 8 _

/-! Reversal of a word by masking its bytes out and shifting them to their new
places. -/

/-- Byte `k` of a number. -/
def byteAt (n k : Nat) : Nat := n / 256^k % 256

theorem byteAt_lt (n k : Nat) : byteAt n k < 256 := Nat.mod_lt _ (by decide)

theorem and_mask (n k : Nat) : n &&& (255 * 256^k) = byteAt n k * 256^k := by
  have hk : 256^k = 2^(8*k) := by rw [Nat.pow_mul]
  have h255 : (255:Nat) = 2^8-1 := rfl
  have h256 : (256:Nat) = 2^8 := rfl
  apply Nat.eq_of_testBit_eq
  intro i
  rw [byteAt, hk, h256, Nat.testBit_and, Nat.testBit_mul_two_pow, Nat.testBit_mul_two_pow, h255,
    Nat.testBit_two_pow_sub_one, Nat.testBit_mod_two_pow, Nat.testBit_div_two_pow]
  by_cases hi : 8*k ≤ i
  · simp [hi, Bool.and_comm]
  · simp [hi]

theorem digits_byteAt (w n : Nat) :
    digits w n = (List.range w).map fun k => UInt8.ofNat (byteAt n k) := by
  induction w generalizing n with
  | zero => rfl
  | succ w ih =>
    rw [digits, ih, List.range_succ_eq_map, List.map_cons, List.map_map]
    congr 1
    · apply UInt8.toNat_inj.mp
      simp [byteAt]
    · apply List.map_congr_left
      intro k _
      simp only [Function.comp, byteAt, Nat.pow_succ', Nat.div_div_eq_div_mul]

theorem byte_up (n k s w : Nat) (h : k+s < w) :
    byteAt n k * 256^k * 256^s % 256^w = byteAt n k * 256^(k+s) := by
  rw [Nat.mul_assoc, ← Nat.pow_add]
  apply Nat.mod_eq_of_lt
  calc
    byteAt n k * 256^(k+s) < 256 * 256^(k+s) :=
      Nat.mul_lt_mul_of_pos_right (byteAt_lt n k) (Nat.pow_pos (by decide))
    _ = 256^(k+s+1) := (Nat.pow_succ' ..).symm
    _ ≤ 256^w := Nat.pow_le_pow_right (by decide) h

theorem byte_down (n k s : Nat) (h : s ≤ k) :
    byteAt n k * 256^k / 256^s = byteAt n k * 256^(k-s) := by
  rw [Nat.mul_div_assoc _ (Nat.pow_dvd_pow 256 h), Nat.pow_div h (by decide)]

theorem lor_byte (x b k : Nat) (hx : x < 256^k) : x ||| b*256^k = x + b*256^k := by
  have hk : 256^k = 2^(8*k) := by rw [Nat.pow_mul]
  rw [hk] at hx ⊢
  rw [Nat.lor_comm, Nat.add_comm, Nat.mul_comm, Nat.two_pow_add_eq_or_of_lt hx]

theorem shl_mask (n k t w : Nat) (h : k+t < w) :
    (n &&& (255 * 256^k)) <<< (8*t) % 256^w = byteAt n k * 256^(k+t) := by
  rw [Nat.shiftLeft_eq, Nat.pow_mul, and_mask]
  exact byte_up n k t w h

theorem shr_mask (n k t : Nat) (h : t ≤ k) :
    (n &&& (255 * 256^k)) >>> (8*t) = byteAt n k * 256^(k-t) := by
  rw [Nat.shiftRight_eq_div_pow, Nat.pow_mul, and_mask]
  exact byte_down n k t h

theorem value_append (xs ys : List UInt8) :
    value (xs ++ ys) = value xs + value ys * 256^xs.length := by
  induction xs with
  | nil => simp [value]
  | cons b bs ih =>
    simp only [List.cons_append, value, ih, List.length_cons, pow_succ]
    ring

/-- The bytes `d 0 .. d (w-1)` put in their places by `|||`. -/
def lorBytes (d : Nat → Nat) : Nat → Nat
  | 0 => 0
  | w+1 => lorBytes d w ||| d w * 256^w

theorem lorBytes_eq (d : Nat → Nat) (hd : ∀ k, d k < 256) (w : Nat) :
    lorBytes d w = value ((List.range w).map fun k => UInt8.ofNat (d k)) := by
  induction w with
  | zero => rfl
  | succ w ih =>
    have hlt := value_lt ((List.range w).map fun k => UInt8.ofNat (d k))
    rw [List.length_map, List.length_range] at hlt
    rw [lorBytes, ih, lor_byte _ _ _ hlt, List.range_succ, List.map_append, value_append]
    simp [value, Nat.mod_eq_of_lt (hd w)]

theorem reverse_digits (w n : Nat) :
    value (digits w n).reverse = lorBytes (fun k => byteAt n (w-1-k)) w := by
  rw [lorBytes_eq _ (fun k => byteAt_lt n (w-1-k)), digits_byteAt]
  congr 1
  apply List.ext_getElem
  · simp
  · intro k hk hk'
    simp at hk
    simp [List.getElem_reverse]

end Machine
