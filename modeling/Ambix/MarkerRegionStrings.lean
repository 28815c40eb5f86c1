import Ambix.MarkerRegionParse

/-! The `strg` chunks. A label may lie anywhere in its chunk, in front of the names too,
where the string IDs have been swapped as far as the reader has come. -/
namespace Ambix
open Machine StringsBuffer

section strings
variable (o : ByteOrder) (swap : Bool) (b : List UInt8)

def strgCount : UInt32 := word32 o (field b 0 4)

/-- Offset of `mStrings`. -/
def strgStart : Nat := 4+12*(strgCount o b).toNat

def stringidAt (i : Nat) : UInt32 := word32 o (field b (4+12*i) 4)
def byteoffsetAt (i : Nat) : Int := (word64 o (field b (4+12*i+4) 8)).toInt64.toInt

/-- The count and `k` string IDs as they stand after their swaps. -/
def idsSeen : Nat → List UInt8
  | 0 => revIf swap (field b 0 4)
  | k+1 => idsSeen k ++
      (revIf swap (field b (4+12*k) 4) ++ revIf swap (field b (4+12*k+4) 8))

/-- The chunk when `k` string IDs have been swapped. -/
def strgSeen (k : Nat) : List UInt8 := idsSeen swap b k ++ b.drop (4+12*k)

/-- The label of string `i` as the reader copies it; the length is cut to 32 bits, and the
block for it has that length and one byte more, in 32 bits again. -/
def labelAt (i : Nat) : Option (List UInt8) :=
  let pos : Int := strgStart o b+byteoffsetAt o b i
  if pos < 0 then none
  else (strlen ((strgSeen swap b (i+1)).drop pos.toNat)).bind fun len =>
    if UInt32.ofNat len+1 = 0 then none
    else some (field (strgSeen swap b (i+1)) pos.toNat (UInt32.ofNat len).toNat)

/-- The strings from number `i` on, up to the first offset behind the chunk; `none` if
the label of one of them leaves the chunk. -/
def decodeStrings : Nat → Nat → Option (List (UInt32 × List UInt8))
  | 0, _ => some []
  | n+1, i =>
    if (b.length-strgStart o b : Int) ≤ byteoffsetAt o b i then some []
    else (labelAt o swap b i).bind fun s =>
      (decodeStrings n (i+1)).map fun es => (stringidAt o b i, s) :: es

end strings

section spec
variable (host : ByteOrder) (swap : Bool) (b : List UInt8)

theorem idsSeen_length (k : Nat) (h : 4+12*k ≤ b.length) : (idsSeen swap b k).length = 4+12*k := by
  induction k with
  | zero => simp [idsSeen, field_length b 0 4 (by omega)]
  | succ k ih =>
    rw [idsSeen, List.length_append, List.length_append, ih (by omega), revIf_length, revIf_length,
      field_length b _ 4 (by omega), field_length b _ 8 (by omega)]
    omega

theorem strgSeen_length (k : Nat) (h : 4+12*k ≤ b.length) :
    (strgSeen swap b k).length = b.length := by
  rw [strgSeen, List.length_append, idsSeen_length swap b k h, List.length_drop]
  omega

theorem strgSeen_drop (k pos : Nat) (hk : 4+12*k ≤ pos) (hb : 4+12*k ≤ b.length) :
    (strgSeen swap b k).drop pos = b.drop pos := by
  rw [strgSeen, List.drop_append, idsSeen_length swap b k hb, List.drop_eq_nil_of_le
    (by rw [idsSeen_length swap b k hb]; exact hk), List.nil_append, List.drop_drop]
  congr 1
  omega

theorem strgSeen_succ (i : Nat) (h : 4+12*(i+1) ≤ b.length) :
    swapWhen swap (swapStringid host · (4+12*i)) (strgSeen swap b i) =
      .ok (strgSeen swap b (i+1)) ∧
    load32 host (strgSeen swap b (i+1)) (4+12*i) = .ok (stringidAt (host.swapIf swap) b i) ∧
    load64 host (strgSeen swap b (i+1)) (4+12*i+4) =
      .ok (word64 (host.swapIf swap) (field b (4+12*i+4) 8)) := by
  have hlen := idsSeen_length swap b i (by omega)
  have hseen := stringid_seen host swap (idsSeen swap b i) (b.drop (4+12*i)) (4+12*i) hlen.symm
    (by rw [List.length_drop]; omega)
  have hid : field (b.drop (4+12*i)) 0 4 = field b (4+12*i) 4 := by simp [field]
  have hoff : field (b.drop (4+12*i)) 4 8 = field b (4+12*i+4) 8 := by
    simp [field, List.drop_drop]
  have hnext : idsSeen swap b i ++ (revIf swap (field b (4+12*i) 4) ++
      revIf swap (field b (4+12*i+4) 8)) ++ (b.drop (4+12*i)).drop 12 =
      strgSeen swap b (i+1) := by
    rw [strgSeen, idsSeen, List.drop_drop]
    congr 2
  rw [hid, hoff, hnext] at hseen
  exact hseen

/-- `strlen` measures the label of string `i` and the copy takes it, unless the label leaves
the chunk or its copy the new block. -/
theorem cstrlen_labelAt (o : ByteOrder) (i : Nat) :
    (labelAt o swap b i = none ∧ ∃ e, (do
      let len ← cstrlen (strgSeen swap b (i+1)) (strgStart o b+byteoffsetAt o b i)
      copyString (strgSeen swap b (i+1)) (strgStart o b+byteoffsetAt o b i : Int).toNat
        (UInt32.ofNat len)) = .error e) ∨
    ∃ len s, labelAt o swap b i = some s ∧
      cstrlen (strgSeen swap b (i+1)) (strgStart o b+byteoffsetAt o b i) = .ok len ∧
      copyString (strgSeen swap b (i+1)) (strgStart o b+byteoffsetAt o b i : Int).toNat
        (UInt32.ofNat len) = .ok s := by
  unfold labelAt cstrlen
  dsimp only
  split
  · exact Or.inl ⟨rfl, _, rfl⟩
  · cases strlen ((strgSeen swap b (i+1)).drop (strgStart o b+byteoffsetAt o b i : Int).toNat) with
    | none => exact Or.inl ⟨rfl, _, rfl⟩
    | some len =>
      rw [Option.bind_some]
      by_cases hwrap : UInt32.ofNat len+1 = 0
      · exact Or.inl ⟨if_pos hwrap, copyString_error _ _ hwrap⟩
      · exact Or.inr ⟨len, _, if_neg hwrap, rfl, copyString_eq _ _ hwrap⟩

theorem readStringids_iff {es : List (UInt32 × List UInt8)} {r : StringsBuffer} (n i : Nat)
    (h : 4+12*(i+n) ≤ b.length) (hes : es.length+n < 2^32) :
    readStringids host swap (strgStart (host.swapIf swap) b)
        (b.length-strgStart (host.swapIf swap) b) n i (strgSeen swap b i) (ofEntries es n) = .ok r ↔
      ∃ new, decodeStrings (host.swapIf swap) swap b n i = some new ∧
        r = ofEntries (es ++ new) (n-new.length) := by
  induction n generalizing es i with
  | zero => simp [readStringids, decodeStrings, eq_comm]
  | succ n ih =>
    obtain ⟨hswap, hid, hoff⟩ := strgSeen_succ host swap b i (by omega)
    rw [readStringids, sizeofCAFStringID, hswap, ok_bind, hoff, ok_bind, decodeStrings,
      ← byteoffsetAt]
    by_cases hend : (b.length-strgStart (host.swapIf swap) b : Int) ≤
        byteoffsetAt (host.swapIf swap) b i
    · rw [if_pos hend, if_pos hend]
      simp [eq_comm]
    · rw [if_neg hend, if_neg hend, hid, ok_bind]
      obtain ⟨hnone, e, hstop⟩ | ⟨len, s, hsome, hlen, hcopy⟩ :=
        cstrlen_labelAt swap b (host.swapIf swap) i
      · rw [← bind_assoc, hstop, error_bind, hnone]
        simp
      · rw [hlen, ok_bind, hcopy, ok_bind, push_ofEntries _ _ hes, ok_bind, hsome,
          ih (i+1) (by omega) (by rw [List.length_append, List.length_singleton]; omega)]
        simp only [Option.bind_some, Option.map_eq_some_iff]
        constructor
        · rintro ⟨new, hnew, rfl⟩
          refine ⟨_, ⟨new, hnew, rfl⟩, ?_⟩
          rw [List.append_assoc, List.length_cons, List.singleton_append, Nat.add_sub_add_right]
        · rintro ⟨-, ⟨new, hnew, rfl⟩, rfl⟩
          refine ⟨new, hnew, ?_⟩
          rw [List.append_assoc, List.length_cons, List.singleton_append, Nat.add_sub_add_right]

theorem readStringids_lost {strings : Nat} {datasize : Int} {t r : StringsBuffer} (n i : Nat)
    (c : List UInt8) (ht : t.Lost)
    (h : readStringids host swap strings datasize n i c t = .ok r) : r.Lost := by
  induction n generalizing i c t with
  | zero => exact Except.ok.inj h ▸ ht
  | succ n ih =>
    obtain ⟨c', -, h⟩ := bind_eq_ok.mp h
    obtain ⟨off, -, h⟩ := bind_eq_ok.mp h
    dsimp only at h
    split at h
    · exact Except.ok.inj h ▸ ht
    · obtain ⟨id, -, h⟩ := bind_eq_ok.mp h
      obtain ⟨len, -, h⟩ := bind_eq_ok.mp h
      obtain ⟨string, -, h⟩ := bind_eq_ok.mp h
      obtain ⟨t', ht', h⟩ := bind_eq_ok.mp h
      exact ih _ _ (ht.push ht') h

/-! One chunk. -/

def strgGood (o : ByteOrder) (b : List UInt8) : Bool :=
  decide (b.length ≤ 4 ∨ strgStart o b ≤ b.length)

def strgStep (t : StringsBuffer) : Checked StringsBuffer :=
  if 4 < b.length then
    readStringids host swap (strgStart (host.swapIf swap) b)
      (b.length-strgStart (host.swapIf swap) b) (strgCount (host.swapIf swap) b).toNat 0
      (strgSeen swap b 0) (t.realloc (t.numStrings+strgCount (host.swapIf swap) b))
  else .ok t

theorem readStrgChunk_eq (t : StringsBuffer) :
    readStrgChunk host swap b t =
      if strgGood (host.swapIf swap) b = true then some <$> strgStep host swap b t
      else .ok none := by
  by_cases h4 : 4 < b.length
  · have hfield := field_length b 0 4 (by omega)
    have hsplit : b = [] ++ field b 0 4 ++ b.drop 4 := by
      simp [field]
    have hswap : swapWhen swap (swap4array host · 0 1) b = .ok (strgSeen swap b 0) := by
      cases swap
      · rw [strgSeen, idsSeen, revIf]
        conv_lhs => rw [hsplit]
        rfl
      · conv_lhs => rw [hsplit]
        exact swap4array_middle host [] (field b 0 4) (b.drop 4) hfield
    have hload : load32 host (strgSeen swap b 0) 0 = .ok (strgCount (host.swapIf swap) b) := by
      have hl := load_middle [] (revIf swap (field b 0 4)) (b.drop 4)
      rw [List.nil_append, List.length_nil, revIf_length, hfield] at hl
      rw [load32, strgSeen, idsSeen, hl]
      exact congrArg Except.ok (word32_revIf host swap _)
    have hlength := strgSeen_length swap b 0 (by omega)
    rw [readStrgChunk, sizeofCAFStrings, if_pos h4, hswap, ok_bind, hload, ok_bind, hlength,
      sizeofCAFStringID, ← strgStart]
    by_cases hfit : b.length < strgStart (host.swapIf swap) b
    · have hbad : strgGood (host.swapIf swap) b = false := by
        rw [strgGood, decide_eq_false_iff_not]
        omega
      rw [if_pos hfit, hbad]
      rfl
    · have hgood : strgGood (host.swapIf swap) b = true := by
        rw [strgGood, decide_eq_true_iff]
        omega
      rw [if_neg hfit, if_pos hgood, strgStep, if_pos h4]
  · have hgood : strgGood (host.swapIf swap) b = true := by
      rw [strgGood, decide_eq_true_iff]
      omega
    rw [readStrgChunk, sizeofCAFStrings, if_neg h4, if_pos hgood, strgStep, if_neg h4]
    rfl

end spec
end Ambix
