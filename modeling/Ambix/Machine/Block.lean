import Ambix.Machine.Bytes
import Ambix.Machine.Loop

/-! Memory blocks with checked accesses. A run that would touch a byte outside
its block stops there; a run that ends has stayed inside. -/
namespace Machine
variable {α β : Type}

inductive Stop where
  /-- Byte (or entry) `index` of a block of `size` bytes (or entries). -/
  | outside (index : Int) (size : Nat)
  /-- Entry `index` of a block has never been stored to. -/
  | uninitialised (index : Nat)
  | outOfFuel
deriving DecidableEq, Repr

abbrev Checked := Except Stop

theorem bind_eq_ok {x : Checked α} {f : α → Checked β} {r : β} :
    (x >>= f) = .ok r ↔ ∃ a, x = .ok a ∧ f a = .ok r := by
  cases x with
  | error e => simp [bind, Except.bind]
  | ok a => simp [bind, Except.bind]

theorem map_eq_ok {f : α → β} {x : Checked α} {r : β} :
    f <$> x = .ok r ↔ ∃ a, x = .ok a ∧ f a = r := by
  cases x with
  | error e => simp [Functor.map, Except.map]
  | ok a => simp [Functor.map, Except.map]

@[simp] theorem ok_bind (a : α) (f : α → Checked β) : ((.ok a : Checked α) >>= f) = f a := rfl
@[simp] theorem error_bind (e : Stop) (f : α → Checked β) :
    ((.error e : Checked α) >>= f) = .error e := rfl
@[simp] theorem pure_eq_ok (a : α) : (pure a : Checked α) = .ok a := rfl

/-- `for(i=0; i<n; i++) s = body i s` on checked memory. -/
def loopM (body : Nat → α → Checked α) : Nat → α → Checked α
  | 0, s => .ok s
  | n+1, s => loopM body n s >>= body n

/-- Closed form of a checked loop: it stays inside, and `f i` is the state before pass `i`. -/
theorem loopM_eq (f : Nat → α) {body : Nat → α → Checked α} {n : Nat} {s : α} (h0 : f 0 = s)
    (hstep : ∀ i, i < n → body i (f i) = .ok (f (i+1))) : loopM body n s = .ok (f n) := by
  induction n with
  | zero => rw [loopM, h0]
  | succ n ih =>
    rw [loopM, ih fun i hi => hstep i (Nat.lt_succ_of_lt hi), ok_bind, hstep n (Nat.lt_succ_self n)]

theorem loopM_invariant (P : Nat → α → Prop) {body : Nat → α → Checked α} {n : Nat} {s r : α}
    (hrun : loopM body n s = .ok r) (h0 : P 0 s)
    (hstep : ∀ i t u, i < n → P i t → body i t = .ok u → P (i+1) u) : P n r := by
  induction n generalizing r with
  | zero =>
    rw [loopM] at hrun
    exact Except.ok.inj hrun ▸ h0
  | succ n ih =>
    obtain ⟨t, ht, hr⟩ := bind_eq_ok.mp hrun
    have hn := ih ht fun i t u hi => hstep i t u (Nat.lt_succ_of_lt hi)
    exact hstep n t r (Nat.lt_succ_self n) hn hr

theorem loopM_fails {body : Nat → α → Checked α} {e : Stop} (hfirst : ∀ s, body 0 s = .error e)
    {n : Nat} (hn : 0 < n) (s : α) : loopM body n s = .error e := by
  induction n with
  | zero => omega
  | succ n ih =>
    cases n with
    | zero => exact hfirst s
    | succ n =>
      rw [loopM, ih (Nat.succ_pos n)]
      rfl

/-- The `n` bytes from `pos` on. -/
def field (b : List UInt8) (pos n : Nat) : List UInt8 := (b.drop pos).take n

/-- `b` with the bytes from `pos` on overwritten by `bs`. -/
def patch (b : List UInt8) (pos : Nat) (bs : List UInt8) : List UInt8 :=
  b.take pos ++ bs ++ b.drop (pos+bs.length)

def load (b : List UInt8) (pos n : Nat) : Checked (List UInt8) :=
  if pos+n ≤ b.length then .ok (field b pos n) else .error (.outside (max pos b.length) b.length)

def store (b : List UInt8) (pos : Nat) (bs : List UInt8) : Checked (List UInt8) :=
  if pos+bs.length ≤ b.length then .ok (patch b pos bs)
  else .error (.outside (max pos b.length) b.length)

def load32 (o : ByteOrder) (b : List UInt8) (pos : Nat) : Checked UInt32 :=
  word32 o <$> load b pos 4
def load64 (o : ByteOrder) (b : List UInt8) (pos : Nat) : Checked UInt64 :=
  word64 o <$> load b pos 8
def store32 (o : ByteOrder) (b : List UInt8) (pos : Nat) (x : UInt32) : Checked (List UInt8) :=
  store b pos (bytes32 o x)
def store64 (o : ByteOrder) (b : List UInt8) (pos : Nat) (x : UInt64) : Checked (List UInt8) :=
  store b pos (bytes64 o x)

theorem field_length (b : List UInt8) (pos n : Nat) (h : pos+n ≤ b.length) :
    (field b pos n).length = n := by
  simp only [field, List.length_take, List.length_drop]
  omega

theorem patch_length (b : List UInt8) (pos : Nat) (bs : List UInt8)
    (h : pos+bs.length ≤ b.length) : (patch b pos bs).length = b.length := by
  simp only [patch, List.length_append, List.length_take, List.length_drop]
  omega

theorem load_eq_ok (b : List UInt8) (pos n : Nat) (h : pos+n ≤ b.length) :
    load b pos n = .ok (field b pos n) := if_pos h

theorem load_length {b bs : List UInt8} {pos n : Nat} (h : load b pos n = .ok bs) :
    pos+n ≤ b.length ∧ bs.length = n := by
  unfold load at h
  split at h
  · rename_i hfit
    rw [← Except.ok.inj h]
    exact ⟨hfit, field_length b pos n hfit⟩
  · cases h

theorem store_eq_ok (b : List UInt8) (pos : Nat) (bs : List UInt8)
    (h : pos+bs.length ≤ b.length) : store b pos bs = .ok (patch b pos bs) := if_pos h

theorem store_fails (b : List UInt8) (pos : Nat) (bs : List UInt8)
    (h : b.length < pos+bs.length) :
    store b pos bs = .error (.outside (max pos b.length) b.length) := if_neg (by omega)

theorem store_length {b b' : List UInt8} {pos : Nat} {bs : List UInt8}
    (h : store b pos bs = .ok b') : b'.length = b.length := by
  unfold store at h
  split at h
  · rename_i hfit
    rw [← Except.ok.inj h, patch_length b pos bs hfit]
  · cases h

theorem store_inside {b b' : List UInt8} {pos : Nat} {bs : List UInt8}
    (h : store b pos bs = .ok b') : pos+bs.length ≤ b.length := by
  by_contra hout
  rw [store_fails b pos bs (by omega)] at h
  cases h

theorem store_middle (pre old post bs : List UInt8) (h : old.length = bs.length) :
    store (pre ++ old ++ post) pre.length bs = .ok (pre ++ bs ++ post) := by
  rw [store_eq_ok _ _ _ (by simp only [List.length_append]; omega)]
  simp [patch, List.append_assoc, ← h]

theorem store_append (done rest bs : List UInt8) (pos : Nat) (hpos : pos = done.length)
    (h : bs.length ≤ rest.length) :
    store (done ++ rest) pos bs = .ok (done ++ bs ++ rest.drop bs.length) := by
  have hs := store_middle done (rest.take bs.length) (rest.drop bs.length) bs
    (by rw [List.length_take]; omega)
  rwa [List.append_assoc, List.take_append_drop, ← hpos] at hs

theorem load_middle (pre mid post : List UInt8) :
    load (pre ++ mid ++ post) pre.length mid.length = .ok mid := by
  rw [load_eq_ok _ _ _ (by simp only [List.length_append]; omega)]
  simp [field]

theorem field_middle {b pre mid post : List UInt8} {pos n : Nat} (hb : b = pre ++ mid ++ post)
    (hpos : pos = pre.length) (hn : n = mid.length) : field b pos n = mid := by
  rw [hb, hpos, hn]
  simp [field]

/-- A block seen through a pointer; `behind` is what lies past its end. -/
def view (b : List UInt8) (behind : Nat → UInt8) (i : Nat) : UInt8 := (b[i]?).getD (behind i)

theorem window_view (b : List UInt8) (behind : Nat → UInt8) (pos n : Nat)
    (h : pos+n ≤ b.length) : window (view b behind) pos n = field b pos n := by
  apply List.ext_getElem
  · rw [window_length, field_length b pos n h]
  · intro k hk hk'
    rw [window_length] at hk
    have hb : pos+k < b.length := by omega
    simp [window, view, field, List.getElem?_eq_getElem hb]

theorem field_words (o : ByteOrder) (ws : List UInt32) (tail : List UInt8) (k : Nat)
    (hk : k < ws.length) : field (ws.flatMap (bytes32 o) ++ tail) (4*k) 4 = bytes32 o ws[k] := by
  induction ws generalizing k with
  | nil => simp at hk
  | cons w ws ih =>
    cases k with
    | zero => simp [field]
    | succ k =>
      have h4 : 4*(k+1) = (bytes32 o w).length + 4*k := by rw [bytes32_length]; omega
      rw [List.flatMap_cons, List.append_assoc, field, h4, List.drop_length_add_append]
      exact ih k (by simpa using hk)

theorem words_length (o : ByteOrder) (ws : List UInt32) :
    (ws.flatMap (bytes32 o)).length = 4*ws.length := by
  induction ws with
  | nil => rfl
  | cons w ws ih => rw [List.flatMap_cons, List.length_append, ih, bytes32_length]; simp; omega

/-! Scanning for the terminator of a C string. -/

/-- `strlen` on the bytes that are left of a block; `none` if they hold no NUL. -/
def strlen : List UInt8 → Option Nat
  | [] => none
  | b :: bs => if b = 0 then some 0 else (strlen bs).map (· + 1)

def cstrlen (b : List UInt8) (pos : Int) : Checked Nat :=
  if pos < 0 then .error (.outside pos b.length)
  else match strlen (b.drop pos.toNat) with
    | some n => .ok n
    | none => .error (.outside (max pos b.length) b.length)

theorem strlen_append_nul (s rest : List UInt8) (h : 0 ∉ s) :
    strlen (s ++ 0 :: rest) = some s.length := by
  induction s with
  | nil => rfl
  | cons b bs ih =>
    have hb : b ≠ 0 := fun he => h (by simp [he])
    have hbs : 0 ∉ bs := fun hm => h (List.mem_cons_of_mem b hm)
    simp [strlen, hb, ih hbs]

theorem strlen_isSome (l : List UInt8) : (strlen l).isSome = true ↔ 0 ∈ l := by
  induction l with
  | nil => simp [strlen]
  | cons b bs ih =>
    by_cases hb : b = 0
    · simp [strlen, hb]
    · simp [strlen, hb, ih, Ne.symm hb]

theorem strlen_of_mem {l : List UInt8} (h : 0 ∈ l) :
    strlen l = some (l.takeWhile (· != 0)).length := by
  induction l with
  | nil => cases h
  | cons b bs ih =>
    by_cases hb : b = 0
    · rw [strlen, if_pos hb, List.takeWhile_cons_of_neg (by simp [hb])]
      rfl
    · rw [strlen, if_neg hb, ih ((List.mem_cons.mp h).resolve_left (Ne.symm hb)),
        List.takeWhile_cons_of_pos (by simp [hb])]
      rfl

end Machine
