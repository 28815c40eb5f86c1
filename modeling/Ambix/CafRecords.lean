import Ambix.Types
import Ambix.Utils
import Ambix.Machine.Record

/-! The packed records of marker_region_chunk.c: the offsets of their fields and
their swaps in place. -/
namespace Ambix
open Machine

def makeMarker (a b c d : Char) : UInt32 :=
  (UInt32.ofNat a.toNat <<< 24) ||| (UInt32.ofNat b.toNat <<< 16) |||
    (UInt32.ofNat c.toNat <<< 8) ||| (UInt32.ofNat d.toNat <<< 0)

def markerTypeGeneric : UInt32 := 0
def markerTypeRegionStart : UInt32 := makeMarker 'r' 'b' 'e' 'g'
def markerTypeRegionEnd : UInt32 := makeMarker 'r' 'e' 'n' 'd'
def smpteTimeTypeNone : UInt32 := 0

def sizeofCAFMarker : Nat := 28
def sizeofCAFStringID : Nat := 12
def sizeofCAFRegion : Nat := 12
def sizeofCAFStrings : Nat := 4
def sizeofCAFRegionChunk : Nat := 8

/-- Fields of a packed record: `word` and `quad` are swapped as 4 and 8 bytes. -/
inductive FieldKind where
  | word | quad | plain (size : Nat)
deriving DecidableEq, Repr

namespace FieldKind

def width : FieldKind → Nat
  | .word => 4
  | .quad => 8
  | .plain size => size

def swapped : FieldKind → List UInt8 → List UInt8
  | .word, bs => bs.reverse
  | .quad, bs => bs.reverse
  | .plain _, bs => bs

end FieldKind

def swapRecord (host : ByteOrder) : List FieldKind → List UInt8 → Nat → Checked (List UInt8)
  | [], b, _ => .ok b
  | .word :: ks, b, pos => do
    let b ← swap4array host b pos 1
    swapRecord host ks b (pos+4)
  | .quad :: ks, b, pos => do
    let b ← swap8array host b pos 1
    swapRecord host ks b (pos+8)
  | .plain size :: ks, b, pos => swapRecord host ks b (pos+size)

/-- `mSMPTE_TimeType`, `mNumberMarkers`. -/
def markerChunkFields : List FieldKind := [.word, .word]
/-- `mType`, `mFramePosition`, `mMarkerID`, `mSMPTETime`, `mChannel`. -/
def markerFields : List FieldKind := [.word, .quad, .word, .plain 8, .word]
/-- `mRegionID`, `mFlags`, `mNumberMarkers`. -/
def regionFields : List FieldKind := [.word, .word, .word]
/-- `mSMPTE_TimeType`, `mNumberRegions`. -/
def regionChunkFields : List FieldKind := [.word, .word]
/-- `mStringID`, `mStringStartByteOffset`. -/
def stringidFields : List FieldKind := [.word, .quad]

section swaps
variable (host : ByteOrder) (b : List UInt8) (pos : Nat)

def swapMarkerChunk : Checked (List UInt8) := swapRecord host markerChunkFields b pos
def swapMarker : Checked (List UInt8) := swapRecord host markerFields b pos
def swapRegion : Checked (List UInt8) := swapRecord host regionFields b pos
def swapRegionChunk : Checked (List UInt8) := swapRecord host regionChunkFields b pos
def swapStringid : Checked (List UInt8) := swapRecord host stringidFields b pos

end swaps

/-- `if(byteswap) f(b);` -/
def swapWhen (swap : Bool) (f : List UInt8 → Checked (List UInt8)) (b : List UInt8) :
    Checked (List UInt8) := if swap then f b else .ok b

def Fields (ks : List FieldKind) (fs : List (List UInt8)) : Prop :=
  fs.map List.length = ks.map FieldKind.width

def swapFields (ks : List FieldKind) (fs : List (List UInt8)) : List (List UInt8) :=
  List.zipWith FieldKind.swapped ks fs

/-- A swap of a record between other bytes: the fields are reversed, the rest stays. -/
theorem swapRecord_eq (host : ByteOrder) (ks : List FieldKind) (fs : List (List UInt8))
    (pre post : List UInt8) (h : Fields ks fs) :
    swapRecord host ks (pre ++ fs.flatten ++ post) pre.length =
      .ok (pre ++ (swapFields ks fs).flatten ++ post) := by
  induction ks generalizing fs pre with
  | nil =>
    have hfs : fs = [] := by simpa [Fields] using h
    rw [hfs]
    rfl
  | cons k ks ih =>
    cases fs with
    | nil => simp [Fields] at h
    | cons f fs =>
      obtain ⟨hf, hfs⟩ : f.length = k.width ∧ Fields ks fs := by simpa [Fields] using h
      have hrest := ih fs (pre ++ k.swapped f) hfs
      have hblock : pre ++ (f :: fs).flatten ++ post = pre ++ f ++ (fs.flatten ++ post) := by
        rw [List.flatten_cons]
        simp only [List.append_assoc]
      have hdone : pre ++ (swapFields (k :: ks) (f :: fs)).flatten ++ post =
          pre ++ k.swapped f ++ (swapFields ks fs).flatten ++ post := by
        simp only [swapFields, List.zipWith_cons_cons, List.flatten_cons, List.append_assoc]
      rw [hblock, hdone, ← hrest]
      cases k with
      | word =>
        rw [swapRecord, swap4array_middle host pre f _ hf, ok_bind]
        simp only [FieldKind.swapped, List.append_assoc, List.length_append, List.length_reverse,
          hf, FieldKind.width]
      | quad =>
        rw [swapRecord, swap8array_middle host pre f _ hf, ok_bind]
        simp only [FieldKind.swapped, List.append_assoc, List.length_append, List.length_reverse,
          hf, FieldKind.width]
      | plain size =>
        simp only [swapRecord, FieldKind.swapped, List.append_assoc, List.length_append, hf,
          FieldKind.width]

theorem swapRecord_length {host : ByteOrder} {ks : List FieldKind} {b b' : List UInt8} {pos : Nat}
    (h : swapRecord host ks b pos = .ok b') : b'.length = b.length := by
  induction ks generalizing b pos with
  | nil => rw [Except.ok.inj h]
  | cons k ks ih =>
    cases k with
    | word =>
      obtain ⟨c, hc, h⟩ := bind_eq_ok.mp h
      rw [ih h, swap4array_length hc]
    | quad =>
      obtain ⟨c, hc, h⟩ := bind_eq_ok.mp h
      rw [ih h, swap8array_length hc]
    | plain size => exact ih h

theorem swapWhen_record (host : ByteOrder) (swap : Bool) (ks : List FieldKind)
    (fs : List (List UInt8)) (pre post : List UInt8) (pos : Nat) (hpos : pos = pre.length)
    (h : Fields ks fs) :
    swapWhen swap (swapRecord host ks · pos) (pre ++ fs.flatten ++ post) =
      .ok (pre ++ (if swap then swapFields ks fs else fs).flatten ++ post) := by
  subst hpos
  cases swap
  · rfl
  · exact swapRecord_eq host ks fs pre post h

/-! Records as they come in a stream of bytes. -/

def sizeOf (ks : List FieldKind) : Nat := (ks.map FieldKind.width).sum

/-- The fields at the head of `rest`, as a host holds them after the swap. -/
def fieldsSeen (swap : Bool) (ks : List FieldKind) (rest : List UInt8) : List (List UInt8) :=
  if swap then swapFields ks (cut (ks.map FieldKind.width) rest)
  else cut (ks.map FieldKind.width) rest

theorem swapWhen_stream (host : ByteOrder) (swap : Bool) (ks : List FieldKind)
    (pre rest : List UInt8) (pos : Nat) (hpos : pos = pre.length) (h : sizeOf ks ≤ rest.length) :
    swapWhen swap (swapRecord host ks · pos) (pre ++ rest) =
      .ok (pre ++ (fieldsSeen swap ks rest).flatten ++ rest.drop (sizeOf ks)) := by
  have hfields : Fields ks (cut (ks.map FieldKind.width) rest) := cut_widths _ _ h
  have hsplit : (cut (ks.map FieldKind.width) rest).flatten ++ rest.drop (sizeOf ks) = rest := by
    rw [cut_flatten]
    exact List.take_append_drop _ _
  have hrun := swapWhen_record host swap ks _ pre (rest.drop (sizeOf ks)) pos hpos hfields
  rwa [List.append_assoc, hsplit] at hrun

section seen
variable (host : ByteOrder) (swap : Bool) (pre rest : List UInt8) (pos : Nat)

theorem marker_seen (hpos : pos = pre.length) (h : 28 ≤ rest.length) :
    ∃ record : List UInt8, record.length = 28 ∧
      swapWhen swap (swapMarker host · pos) (pre ++ rest) =
        .ok (pre ++ record ++ rest.drop 28) ∧
      load32 host (pre ++ record ++ rest.drop 28) pos =
        .ok (word32 (host.swapIf swap) (field rest 0 4)) ∧
      load64 host (pre ++ record ++ rest.drop 28) (pos+4) =
        .ok (word64 (host.swapIf swap) (field rest 4 8)) ∧
      load32 host (pre ++ record ++ rest.drop 28) (pos+12) =
        .ok (word32 (host.swapIf swap) (field rest 12 4)) := by
  have hlen (off n : Nat) (hn : off+n ≤ 28) : (field rest off n).length = n :=
    field_length rest off n (by omega)
  have hfields : fieldsSeen swap markerFields rest =
      [revIf swap (field rest 0 4), revIf swap (field rest 4 8), revIf swap (field rest 12 4),
        field rest 16 8, revIf swap (field rest 24 4)] := by
    cases swap <;> simp [fieldsSeen, markerFields, cut, swapFields, FieldKind.swapped,
      FieldKind.width, revIf, field, List.drop_drop]
  have hstream := swapWhen_stream host swap markerFields pre rest pos hpos h
  rw [hfields] at hstream
  refine ⟨_, ?_, hstream, ?_, ?_, ?_⟩
  · simp [hlen]
  · rw [load32, load_field pre (rest.drop 28) _ 0 pos 4 (by simp) (by simp [hlen])
      (by simp [offset, hpos])]
    exact congrArg Except.ok (word32_revIf host swap _)
  · rw [load64, load_field pre (rest.drop 28) _ 1 (pos+4) 8 (by simp) (by simp [hlen])
      (by simp [offset, hpos, hlen])]
    exact congrArg Except.ok (word64_revIf host swap _)
  · rw [load32, load_field pre (rest.drop 28) _ 2 (pos+12) 4 (by simp) (by simp [hlen])
      (by simp [offset, hpos, hlen])]
    exact congrArg Except.ok (word32_revIf host swap _)

theorem region_seen (hpos : pos = pre.length) (h : 12 ≤ rest.length) :
    ∃ record : List UInt8, record.length = 12 ∧
      swapWhen swap (swapRegion host · pos) (pre ++ rest) =
        .ok (pre ++ record ++ rest.drop 12) ∧
      load32 host (pre ++ record ++ rest.drop 12) (pos+8) =
        .ok (word32 (host.swapIf swap) (field rest 8 4)) := by
  have hlen (off n : Nat) (hn : off+n ≤ 12) : (field rest off n).length = n :=
    field_length rest off n (by omega)
  have hfields : fieldsSeen swap regionFields rest =
      [revIf swap (field rest 0 4), revIf swap (field rest 4 4), revIf swap (field rest 8 4)] := by
    cases swap <;> simp [fieldsSeen, regionFields, cut, swapFields, FieldKind.swapped,
      FieldKind.width, revIf, field, List.drop_drop]
  have hstream := swapWhen_stream host swap regionFields pre rest pos hpos h
  rw [hfields] at hstream
  refine ⟨_, ?_, hstream, ?_⟩
  · simp [hlen]
  · rw [load32, load_field pre (rest.drop 12) _ 2 (pos+8) 4 (by simp) (by simp [hlen])
      (by simp [offset, hpos, hlen])]
    exact congrArg Except.ok (word32_revIf host swap _)

theorem header_seen (h : 8 ≤ rest.length) :
    ∃ record : List UInt8, record.length = 8 ∧
      swapWhen swap (swapMarkerChunk host · 0) rest = .ok (record ++ rest.drop 8) ∧
      load32 host (record ++ rest.drop 8) 4 =
        .ok (word32 (host.swapIf swap) (field rest 4 4)) := by
  have hlen (off n : Nat) (hn : off+n ≤ 8) : (field rest off n).length = n :=
    field_length rest off n (by omega)
  have hfields : fieldsSeen swap markerChunkFields rest =
      [revIf swap (field rest 0 4), revIf swap (field rest 4 4)] := by
    cases swap <;> simp [fieldsSeen, markerChunkFields, cut, swapFields, FieldKind.swapped,
      FieldKind.width, revIf, field]
  have hstream := swapWhen_stream host swap markerChunkFields [] rest 0 rfl h
  rw [hfields] at hstream
  refine ⟨_, ?_, hstream, ?_⟩
  · simp [hlen]
  · have hload := load_field [] (rest.drop 8)
      [revIf swap (field rest 0 4), revIf swap (field rest 4 4)] 1 4 4 (by simp) (by simp [hlen])
      (by simp [offset, hlen])
    rw [load32, hload]
    exact congrArg Except.ok (word32_revIf host swap _)

theorem stringid_seen (hpos : pos = pre.length) (h : 12 ≤ rest.length) :
    swapWhen swap (swapStringid host · pos) (pre ++ rest) =
      .ok (pre ++ (revIf swap (field rest 0 4) ++ revIf swap (field rest 4 8)) ++ rest.drop 12) ∧
    load32 host (pre ++ (revIf swap (field rest 0 4) ++ revIf swap (field rest 4 8)) ++
      rest.drop 12) pos = .ok (word32 (host.swapIf swap) (field rest 0 4)) ∧
    load64 host (pre ++ (revIf swap (field rest 0 4) ++ revIf swap (field rest 4 8)) ++
      rest.drop 12) (pos+4) = .ok (word64 (host.swapIf swap) (field rest 4 8)) := by
  have hlen (off n : Nat) (hn : off+n ≤ 12) : (field rest off n).length = n :=
    field_length rest off n (by omega)
  have hfields : fieldsSeen swap stringidFields rest =
      [revIf swap (field rest 0 4), revIf swap (field rest 4 8)] := by
    cases swap <;> simp [fieldsSeen, stringidFields, cut, swapFields, FieldKind.swapped,
      FieldKind.width, revIf, field]
  have hflat : revIf swap (field rest 0 4) ++ revIf swap (field rest 4 8) =
      [revIf swap (field rest 0 4), revIf swap (field rest 4 8)].flatten := by simp
  have hstream := swapWhen_stream host swap stringidFields pre rest pos hpos h
  rw [hfields] at hstream
  rw [hflat]
  refine ⟨hstream, ?_, ?_⟩
  · rw [load32, load_field pre (rest.drop 12) _ 0 pos 4 (by simp) (by simp [hlen])
      (by simp [offset, hpos])]
    exact congrArg Except.ok (word32_revIf host swap _)
  · rw [load64, load_field pre (rest.drop 12) _ 1 (pos+4) 8 (by simp) (by simp [hlen])
      (by simp [offset, hpos, hlen])]
    exact congrArg Except.ok (word64_revIf host swap _)

end seen
end Ambix
