import Ambix.Machine.Ring
import Ambix.Machine.Run
import Ambix.Machine.Stream

/-! What ambix_read~.c and ambix_write~.c have in common: requests, states, and a fifo of
frames that is shared by the audio thread and a child thread. -/
namespace Ambix
open Machine

def readFrames : Nat := 16384
def writFrames : Nat := 16384

/-- `REQUEST_NOTHING`, .., `REQUEST_BUSY`. -/
inductive RequestCode where
  | requestNothing | requestOpen | requestClose | requestQuit | requestBusy
deriving DecidableEq

/-- `STATE_IDLE`, `STATE_STARTUP`, `STATE_STREAM`. -/
inductive PdState where
  | stateIdle | stateStartup | stateStream
deriving DecidableEq

/-- What stays the same in an object while its DSP runs. -/
structure PdObject where
  ambichannels : Nat
  xtrachannels : Nat
  bufframes : Nat
  vecsize : Nat
  vecsize_pos : 0 < vecsize

namespace PdObject

def channels (P : PdObject) : Nat := P.ambichannels+P.xtrachannels

/-- `x_fifosize` as it is set from the buffer. -/
def fifosize (P : PdObject) : Nat := P.bufframes-P.bufframes%P.vecsize

theorem vecsize_dvd_fifosize (P : PdObject) : P.vecsize ∣ P.fifosize := Nat.dvd_sub_mod _

theorem fifosize_le (P : PdObject) : P.fifosize ≤ P.bufframes := Nat.sub_le _ _

theorem vector_fits (P : PdObject) {i : Nat} (hi : P.vecsize ∣ i) (hpos : 0 < P.fifosize) :
    i%P.fifosize+P.vecsize ≤ P.fifosize := by
  obtain ⟨m, hm⟩ := P.vecsize_dvd_fifosize
  obtain ⟨n, hn⟩ := (Nat.dvd_mod_iff P.vecsize_dvd_fifosize).mpr hi
  have hlt := Nat.mod_lt i hpos
  rw [hn, hm] at hlt
  have hnm : n < m := Nat.lt_of_mul_lt_mul_left hlt
  calc
    i%P.fifosize+P.vecsize = P.vecsize*(n+1) := by rw [hn, Nat.mul_succ]
    _ ≤ P.vecsize*m := Nat.mul_le_mul_left _ hnm
    _ = P.fifosize := hm.symm

end PdObject

/-- Four channels, vectors of 16384 samples and the smallest fifo, of 65536 frames. -/
def blockObject : PdObject := ⟨4, 0, 65536, 16384, by decide⟩

/-! Frames of a buffer. -/

section frames
variable {α : Type}

/-- Frame `i` of a buffer of frames of `w` samples. -/
def frameAt (buf : Nat → α) (w i : Nat) : List α := window buf (i*w) w

theorem frameAt_putAll (buf : Nat → α) {w : Nat} (slot : Nat) {fr : List α} (hw : fr.length = w) :
    frameAt ((⟨buf, slot*w⟩ : Cursor α).putAll fr).data w slot = fr ∧
      ∀ j, j ≠ slot →
        frameAt ((⟨buf, slot*w⟩ : Cursor α).putAll fr).data w j = frameAt buf w j := by
  subst hw
  refine ⟨Cursor.putAll_window ⟨buf, slot*fr.length⟩ fr, fun j hj => window_congr fun k hk => ?_⟩
  refine Cursor.putAll_outside ⟨buf, slot*fr.length⟩ fr ?_
  change j*fr.length+k < slot*fr.length ∨ slot*fr.length+fr.length ≤ j*fr.length+k
  cases Nat.lt_or_gt_of_ne hj with
  | inl hlt =>
    have hmul := Nat.mul_le_mul_right fr.length hlt
    rw [Nat.succ_mul] at hmul
    omega
  | inr hgt =>
    have hmul := Nat.mul_le_mul_right fr.length hgt
    rw [Nat.succ_mul] at hmul
    omega

/-- The frames that `frames` values of each of `channels` vectors make. -/
def vectorFrames (vecs : Nat → Nat → α) (channels frames : Nat) : List (List α) :=
  (List.range frames).map fun f => (List.range channels).map fun c => vecs c f

end frames
end Ambix
