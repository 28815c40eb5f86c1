import Ambix.FrameView
import Ambix.Machine.Bytes
import Ambix.Machine.Packed
import Ambix.Machine.Wakeup
import Ambix.SplitMerge
import Mathlib.Data.Nat.Log

/-! What ambix-jrecord and ambix-jplay have in common: a ring buffer of bytes between JACK's
callback and a disk thread, and the pipe on which the callback wakes that thread. -/
namespace Ambix
open Machine

/-- A `jack_ringbuffer_t` with one reader and one writer, as jack/ringbuffer.h describes it. -/
structure JackRingbuffer (R β : Type) where
  /-- The bytes in it, oldest first. -/
  queue : R → List β
  readSpace : R → Nat
  writeSpace : R → Nat
  create : Nat → R
  /-- The count that is returned comes with the buffer. -/
  write : R → List β → Nat × R
  read : R → Nat → List β × R
  create_queue : ∀ size, queue (create size) = []
  readSpace_eq : ∀ r, readSpace r = (queue r).length
  write_count : ∀ r bs, (write r bs).1 = min bs.length (writeSpace r)
  write_queue : ∀ r bs, queue (write r bs).2 = queue r ++ bs.take (writeSpace r)
  read_bytes : ∀ r n, (read r n).1 = (queue r).take n
  read_queue : ∀ r n, queue (read r n).2 = (queue r).drop n
  write_limit : ∀ r bs, writeSpace (write r bs).2+(queue (write r bs).2).length =
    writeSpace r+(queue r).length
  read_limit : ∀ r n, writeSpace (read r n).2+(queue (read r n).2).length =
    writeSpace r+(queue r).length

namespace JackRingbuffer
variable {R β : Type} (B : JackRingbuffer R β)

def limit (r : R) : Nat := B.writeSpace r+(B.queue r).length

theorem write_fits {r : R} {bs : List β} (h : bs.length ≤ B.writeSpace r) :
    (B.write r bs).1 = bs.length ∧ B.queue (B.write r bs).2 = B.queue r ++ bs := by
  rw [B.write_count, B.write_queue, Nat.min_eq_left h, List.take_of_length_le h]
  exact ⟨rfl, rfl⟩

theorem write_limit_eq (r : R) (bs : List β) : B.limit (B.write r bs).2 = B.limit r :=
  B.write_limit r bs

theorem read_limit_eq (r : R) (n : Nat) : B.limit (B.read r n).2 = B.limit r := B.read_limit r n

theorem writeSpace_read (r : R) (n : Nat) : B.writeSpace r ≤ B.writeSpace (B.read r n).2 := by
  have hlimit := B.read_limit r n
  rw [B.read_queue, List.length_drop] at hlimit
  omega

end JackRingbuffer

/-- A queue and the space that is left; a power of two is created, and one byte of it is not
used. -/
def listRing (β : Type) : JackRingbuffer (List β × Nat) β where
  queue r := r.1
  readSpace r := r.1.length
  writeSpace r := r.2
  create size := ([], 2^Nat.clog 2 size-1)
  write r bs := (min bs.length r.2, r.1 ++ bs.take r.2, r.2-bs.length)
  read r n := (r.1.take n, r.1.drop n, r.2+min n r.1.length)
  create_queue _ := rfl
  readSpace_eq _ := rfl
  write_count _ _ := rfl
  write_queue _ _ := rfl
  read_bytes _ _ := rfl
  read_queue _ _ := rfl
  write_limit r bs := by
    dsimp only
    rw [List.length_append, List.length_take]
    omega
  read_limit r n := by
    dsimp only
    rw [List.length_drop]
    omega

def byteRing : JackRingbuffer (List UInt8 × Nat) UInt8 := listRing UInt8

def floatBits : BlockCode UInt32 UInt8 where
  width := 4
  encode := bytes32 .little
  decode := word32 .little
  width_pos := Nat.succ_pos 3
  encode_length := bytes32_length .little
  decode_encode := word32_bytes32 .little

/-- Floats of which every byte tells where it comes from. -/
def fragments (α : Type) [Inhabited α] : BlockCode α (α × Fin 4) where
  width := 4
  encode a := (List.finRange 4).map fun i => (a, i)
  decode bs := (bs.head?.map Prod.fst).getD default
  width_pos := Nat.succ_pos 3
  encode_length _ := rfl
  decode_encode _ := rfl

/-- The sizes that both tools set up before they start their threads. -/
structure JackBuffers where
  aChannels : UInt32
  eChannels : UInt32
  bufferFrames : Nat
  minimalFrames : Int
  channels_pos : 0 < aChannels.toNat+eChannels.toNat
  channels_lt : aChannels.toNat+eChannels.toNat < 2^31

namespace JackBuffers
variable {α β : Type} (S : JackBuffers) (F : BlockCode α β)

def channels (S : JackBuffers) : UInt32 := S.aChannels+S.eChannels

theorem channels_toNat : S.channels.toNat = S.aChannels.toNat+S.eChannels.toNat := by
  have h := S.channels_lt
  rw [channels, UInt32.toNat_add, Nat.mod_eq_of_lt (by omega)]

theorem aChannels_le : S.aChannels ≤ S.channels := by
  rw [UInt32.le_iff_toNat_le, channels_toNat]
  exact Nat.le_add_right _ _

def frameBytes : Nat := S.channels.toNat*F.width

theorem frameBytes_pos : 0 < S.frameBytes F := by
  have h := S.channels_pos
  rw [← channels_toNat] at h
  exact Nat.mul_pos h F.width_pos

def bufferBytes : Nat := S.bufferFrames*S.channels.toNat*F.width

theorem bufferBytes_eq : S.bufferBytes F = S.bufferFrames*S.frameBytes F := Nat.mul_assoc _ _ _

/-- `minimal_frames * sizeof(float) * channels`, as an `int`. -/
def minimalBytes : Int := Int.bmod (S.minimalFrames*F.width*S.channels.toNat) (2^32)

def bytes (frames : List (List α)) : List β := F.pack frames.flatten

/-- `nbytes / sizeof(float) / channels`. -/
def nframes (nbytes : Nat) : Nat := nbytes/F.width/S.channels.toNat

variable {S F}

theorem bytes_append (fs gs : List (List α)) :
    bytes F (fs ++ gs) = bytes F fs ++ bytes F gs := by
  rw [bytes, List.flatten_append, F.pack_append]
  rfl

section widths
variable {fs : List (List α)} (hw : ∀ fr ∈ fs, fr.length = S.channels.toNat)
include hw

theorem bytes_length : (bytes F fs).length = fs.length*S.frameBytes F := by
  rw [bytes, F.pack_length, flatten_length hw, frameBytes, Nat.mul_assoc]

theorem bytes_take (n : Nat) : (bytes F fs).take (n*S.frameBytes F) = bytes F (fs.take n) := by
  rw [bytes, frameBytes, ← Nat.mul_assoc, F.pack_take, flatten_take hw]
  rfl

theorem bytes_drop (n : Nat) : (bytes F fs).drop (n*S.frameBytes F) = bytes F (fs.drop n) := by
  rw [bytes, frameBytes, ← Nat.mul_assoc, F.pack_drop, flatten_drop hw]
  rfl

theorem framesOf_bytes (p : Nat → β) :
    framesOf (F.view ((Cursor.start p).putAll (bytes F fs)).data) S.channels.toNat fs.length =
      fs := by
  refine flatten_injective (framesOf_length _ _ _) framesOf_width hw ?_
  have hview := F.view_pack p fs.flatten
  rw [flatten_length hw, Nat.mul_comm] at hview
  rw [framesOf_flatten]
  exact hview

end widths

theorem nframes_mul (n : Nat) : S.nframes F (n*S.frameBytes F) = n := by
  rw [nframes, Nat.div_div_eq_div_mul, Nat.mul_comm F.width]
  exact Nat.mul_div_cancel n (S.frameBytes_pos F)

theorem nframes_le {nbytes : Nat} (h : nbytes ≤ S.bufferBytes F) :
    S.nframes F nbytes ≤ S.bufferFrames := by
  rw [← nframes_mul (S := S) (F := F) S.bufferFrames, nframes, nframes]
  exact Nat.div_le_div_right (Nat.div_le_div_right (S.bufferBytes_eq F ▸ h))

end JackBuffers

def fourFrames : JackBuffers := ⟨1, 0, 4, 1, by decide, by decide⟩

end Ambix
