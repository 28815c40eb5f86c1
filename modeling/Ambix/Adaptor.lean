import Ambix.Matrix
import Ambix.Types
import Ambix.Machine.Stream

/-! adaptor.c: between interleaved file frames and separate ambisonics and extra
channels. -/
namespace Ambix
open Machine

/-- `_ambix_adaptorbuffer_resize` on the recorded size; `grants` are the sizes `realloc`
has memory for. -/
def adaptorbufferResize (grants : UInt64 → Bool) (info realinfo : Info) (frames : UInt64)
    (itemsize : UInt16) (adaptorbuffersize : UInt64) : Err × UInt64 :=
  let ambichannels := max info.ambichannels realinfo.ambichannels
  let extrachannels := max info.extrachannels realinfo.extrachannels
  let channels := ambichannels+extrachannels
  let size := channels.toUInt64*frames*itemsize.toUInt64
  if frames < 1 ∨ channels < 1 then (.success, adaptorbuffersize)
  else if size < 1 then (.unknown, adaptorbuffersize)
  else if size > adaptorbuffersize then
    if grants size then (.success, size) else (.unknown, 0)
  else (.success, adaptorbuffersize)

structure Split (S : Type) where
  ambi : Cursor S
  other : Cursor S

section adaptors
variable {S : Type}

/-- `*dest++ = *source++`; the state is how far `source` has moved, and `dest`. -/
def copyItem (source : Nat → S) (s : Nat × Cursor S) : Nat × Cursor S :=
  (s.1+1, s.2.put (source s.1))

def splitAdaptor (source : Nat → S) (sourcechannels ambichannels : UInt32)
    (destAmbi destOther : Nat → S) (frames : Nat) : Split S :=
  (loop (fun _ (s : Nat × Split S) =>
    let (pos, ambi) := loop (fun _ => copyItem source) ambichannels.toNat (s.1, s.2.ambi)
    let (pos, other) := loopFrom ambichannels.toNat sourcechannels.toNat
      (fun _ => copyItem source) (pos, s.2.other)
    (pos, ⟨ambi, other⟩)) frames (0, ⟨.start destAmbi, .start destOther⟩)).2

/-- `_ambix_mergeAdaptor`. The state is both source pointers and the destination. -/
def mergeAdaptor (source1 : Nat → S) (source1channels : UInt32) (source2 : Nat → S)
    (source2channels : UInt32) (destination : Nat → S) (frames : Nat) : Cursor S :=
  (loop (fun _ (s : Nat × Nat × Cursor S) =>
    let (pos1, dest) := loop (fun _ => copyItem source1) source1channels.toNat (s.1, s.2.2)
    let (pos2, dest) := loop (fun _ => copyItem source2) source2channels.toNat (s.2.1, dest)
    (pos1, pos2, dest)) frames (0, 0, .start destination)).2.2

/-- The arithmetic of `sum += mtx * src` in the type of the sum, and the cast to a sample. -/
structure SumType (K S F : Type) where
  zero : F
  add : F → K → S → F
  cast : F → S

variable {K F : Type} [Zero K] (arith : SumType K S F)

/-- One output channel of the frame at `src`. -/
def matrixChannel (matrix : AmbixMatrix K) (src : Nat → S) (outchan : Nat) : S :=
  arith.cast (loop (fun inchan sum => arith.add sum (matrix.data outchan inchan) (src inchan))
    matrix.cols.toNat arith.zero)

def splitAdaptormatrix (source : Nat → S) (sourcechannels : UInt32) (matrix : AmbixMatrix K)
    (destAmbi destOther : Nat → S) (frames : Nat) : Split S :=
  loop (fun f (s : Split S) =>
    let src := fun i => source (sourcechannels.toNat*f+i)
    let ambi := loop (fun outchan ambi => ambi.put (matrixChannel arith matrix src outchan))
      matrix.rows.toNat s.ambi
    let other := loopFrom matrix.cols.toNat sourcechannels.toNat
      (fun inchan other => other.put (src inchan)) s.other
    ⟨ambi, other⟩) frames ⟨.start destAmbi, .start destOther⟩

/-- `_ambix_mergeAdaptormatrix`. The state is the pointer to the extra samples and the
destination. -/
def mergeAdaptormatrix (ambiData : Nat → S) (matrix : AmbixMatrix K) (otherdata : Nat → S)
    (source2channels : UInt32) (destination : Nat → S) (frames : Nat) : Cursor S :=
  (loop (fun f (s : Nat × Cursor S) =>
    let src := fun i => ambiData (matrix.cols.toNat*f+i)
    let dest := loop (fun outchan dest => dest.put (matrixChannel arith matrix src outchan))
      matrix.rows.toNat s.2
    loop (fun _ => copyItem otherdata) source2channels.toNat (s.1, dest))
    frames (0, .start destination)).2

end adaptors

/-! What they write, frame by frame. -/

section spec
variable {S : Type}

theorem copyLoop_eq (source : Nat → S) (pos n : Nat) (d : Cursor S) :
    loop (fun _ => copyItem source) n (pos, d) = (pos+n, d.putAll (window source pos n)) := by
  refine loop_eq (fun i => (pos+i, d.putAll (window source pos i))) rfl fun i _ => ?_
  rw [window_succ, Cursor.putAll_append, Cursor.putAll_singleton]
  rfl

theorem putLoop_eq (g : Nat → S) (n : Nat) (d : Cursor S) :
    loop (fun i (d : Cursor S) => d.put (g i)) n d = d.putAll ((List.range n).map g) := by
  refine loop_eq (fun i => d.putAll ((List.range i).map g)) rfl fun i _ => ?_
  rw [List.range_succ, List.map_append, Cursor.putAll_append]
  rfl

theorem putLoopFrom_eq (p : Nat → S) (lo hi : Nat) (d : Cursor S) :
    loopFrom lo hi (fun i (d : Cursor S) => d.put (p i)) d = d.putAll (window p lo (hi-lo)) :=
  putLoop_eq (fun i => p (lo+i)) (hi-lo) d

theorem splitAdaptor_eq (source : Nat → S) (sourcechannels ambichannels : UInt32)
    (destAmbi destOther : Nat → S) (frames : Nat) (h : ambichannels ≤ sourcechannels) :
    splitAdaptor source sourcechannels ambichannels destAmbi destOther frames =
      ⟨(Cursor.start destAmbi).putAll ((framesOf source sourcechannels.toNat frames).flatMap
          fun fr => fr.take ambichannels.toNat),
        (Cursor.start destOther).putAll ((framesOf source sourcechannels.toNat frames).flatMap
          fun fr => fr.drop ambichannels.toNat)⟩ := by
  have hle : ambichannels.toNat ≤ sourcechannels.toNat := UInt32.le_iff_toNat_le.mp h
  have hloop : ∀ n, loop (fun _ (s : Nat × Split S) =>
      let (pos, ambi) := loop (fun _ => copyItem source) ambichannels.toNat (s.1, s.2.ambi)
      let (pos, other) := loopFrom ambichannels.toNat sourcechannels.toNat
        (fun _ => copyItem source) (pos, s.2.other)
      (pos, (⟨ambi, other⟩ : Split S))) n (0, ⟨.start destAmbi, .start destOther⟩) =
      (sourcechannels.toNat*n,
        ⟨(Cursor.start destAmbi).putAll ((List.range n).flatMap fun f =>
            window source (sourcechannels.toNat*f) ambichannels.toNat),
          (Cursor.start destOther).putAll ((List.range n).flatMap fun f =>
            window source (sourcechannels.toNat*f+ambichannels.toNat)
              (sourcechannels.toNat-ambichannels.toNat))⟩) := by
    intro n
    induction n with
    | zero => rfl
    | succ n ih =>
      rw [loop, ih]
      dsimp only [loopFrom]
      rw [copyLoop_eq, copyLoop_eq, Cursor.putAll_flatMap_succ, Cursor.putAll_flatMap_succ]
      congr 1
      rw [Nat.mul_succ]
      omega
  rw [splitAdaptor, hloop, framesOf_flatMap, framesOf_flatMap]
  simp only [window_take _ _ _ _ hle, window_drop _ _ _ _ hle]

theorem mergeAdaptor_eq (source1 : Nat → S) (source1channels : UInt32) (source2 : Nat → S)
    (source2channels : UInt32) (destination : Nat → S) (frames : Nat) :
    mergeAdaptor source1 source1channels source2 source2channels destination frames =
      (Cursor.start destination).putAll (List.zipWith (· ++ ·)
        (framesOf source1 source1channels.toNat frames)
        (framesOf source2 source2channels.toNat frames)).flatten := by
  have hloop : ∀ n, loop (fun _ (s : Nat × Nat × Cursor S) =>
      let (pos1, dest) := loop (fun _ => copyItem source1) source1channels.toNat (s.1, s.2.2)
      let (pos2, dest) := loop (fun _ => copyItem source2) source2channels.toNat (s.2.1, dest)
      (pos1, pos2, dest)) n (0, 0, .start destination) =
      (source1channels.toNat*n, source2channels.toNat*n,
        (Cursor.start destination).putAll ((List.range n).flatMap fun f =>
          window source1 (source1channels.toNat*f) source1channels.toNat ++
            window source2 (source2channels.toNat*f) source2channels.toNat)) := by
    intro n
    induction n with
    | zero => rfl
    | succ n ih =>
      rw [loop, ih]
      dsimp only
      rw [copyLoop_eq, copyLoop_eq, Cursor.putAll_flatMap_succ, Cursor.putAll_append]
      rfl
  rw [mergeAdaptor, hloop, framesOf_zip]

variable {K : Type} [Semiring K] (number : S → K) (sample : K → S)

def SumType.exact : SumType K S K where
  zero := 0
  add sum m x := sum+m*number x
  cast := sample

theorem matrixChannel_exact (matrix : AmbixMatrix K) (src : Nat → S) (outchan : Nat) :
    matrixChannel (.exact number sample) matrix src outchan =
      sample (∑ i ∈ Finset.range matrix.cols.toNat, matrix.data outchan i*number (src i)) :=
  congrArg sample (loop_sum _ _)

/-- A matrix on the samples of one frame. -/
def mix (matrix : AmbixMatrix K) (fr : List S) : List S :=
  (List.range matrix.rows.toNat).map fun r => sample
    (∑ c ∈ Finset.range matrix.cols.toNat, matrix.data r c*((fr[c]?).map number).getD 0)

@[simp] theorem mix_length (matrix : AmbixMatrix K) (fr : List S) :
    (mix number sample matrix fr).length = matrix.rows.toNat := by simp [mix]

theorem mix_take {number : S → K} {sample : K → S} (matrix : AmbixMatrix K) (fr : List S) :
    mix number sample matrix (fr.take matrix.cols.toNat) = mix number sample matrix fr := by
  refine List.map_congr_left fun r _ => congrArg sample (Finset.sum_congr rfl fun c hc => ?_)
  rw [List.getElem?_take_of_lt (Finset.mem_range.mp hc)]

theorem matrixChannels_eq (matrix : AmbixMatrix K) (p : Nat → S) (base n : Nat)
    (h : matrix.cols.toNat ≤ n) :
    (List.range matrix.rows.toNat).map
        (matrixChannel (.exact number sample) matrix fun i => p (base+i)) =
      mix number sample matrix (window p base n) := by
  refine List.map_congr_left fun r _ => ?_
  rw [matrixChannel_exact]
  refine congrArg sample (Finset.sum_congr rfl fun c hc => ?_)
  have hcols := Finset.mem_range.mp hc
  rw [window_getElem? _ _ _ _ (by omega)]
  rfl

theorem splitAdaptormatrix_eq (source : Nat → S) (sourcechannels : UInt32)
    (matrix : AmbixMatrix K) (destAmbi destOther : Nat → S) (frames : Nat)
    (h : matrix.cols ≤ sourcechannels) :
    splitAdaptormatrix (.exact number sample) source sourcechannels matrix destAmbi destOther
        frames =
      ⟨(Cursor.start destAmbi).putAll ((framesOf source sourcechannels.toNat frames).flatMap
          (mix number sample matrix)),
        (Cursor.start destOther).putAll ((framesOf source sourcechannels.toNat frames).flatMap
          fun fr => fr.drop matrix.cols.toNat)⟩ := by
  have hle : matrix.cols.toNat ≤ sourcechannels.toNat := UInt32.le_iff_toNat_le.mp h
  rw [framesOf_flatMap, framesOf_flatMap]
  refine loop_eq (fun n => (⟨(Cursor.start destAmbi).putAll ((List.range n).flatMap fun f =>
        mix number sample matrix (window source (sourcechannels.toNat*f) sourcechannels.toNat)),
      (Cursor.start destOther).putAll ((List.range n).flatMap fun f =>
        (window source (sourcechannels.toNat*f) sourcechannels.toNat).drop matrix.cols.toNat)⟩ :
      Split S)) rfl fun n _ => ?_
  dsimp only
  rw [putLoop_eq, matrixChannels_eq number sample matrix _ _ _ hle, putLoopFrom_eq,
    Cursor.putAll_flatMap_succ, Cursor.putAll_flatMap_succ, window_drop _ _ _ _ hle, window_shift]

theorem mergeAdaptormatrix_eq (ambiData : Nat → S) (matrix : AmbixMatrix K) (otherdata : Nat → S)
    (source2channels : UInt32) (destination : Nat → S) (frames : Nat) :
    mergeAdaptormatrix (.exact number sample) ambiData matrix otherdata source2channels destination
        frames =
      (Cursor.start destination).putAll (List.zipWith
        (fun fr extra => mix number sample matrix fr ++ extra)
        (framesOf ambiData matrix.cols.toNat frames)
        (framesOf otherdata source2channels.toNat frames)).flatten := by
  rw [framesOf_zip]
  change Prod.snd (loop _ frames _) = Prod.snd (source2channels.toNat*frames, _)
  refine congrArg Prod.snd (loop_eq (fun n => (source2channels.toNat*n,
    (Cursor.start destination).putAll ((List.range n).flatMap fun f =>
      mix number sample matrix (window ambiData (matrix.cols.toNat*f) matrix.cols.toNat) ++
        window otherdata (source2channels.toNat*f) source2channels.toNat))) rfl fun n _ => ?_)
  dsimp only
  rw [putLoop_eq, matrixChannels_eq number sample matrix _ _ _ le_rfl, copyLoop_eq,
    Cursor.putAll_flatMap_succ, Cursor.putAll_append]
  rfl

end spec
end Ambix
