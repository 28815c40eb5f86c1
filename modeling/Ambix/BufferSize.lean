import Ambix.BufferSafe

/-! The size of the adaptor buffer, a product in 64 bits of a channel count in 32 bits, the frame
count that the caller asks for and the size of an item. -/
namespace Ambix
open Machine

section size
variable {K : Type} [Field K] {P : Platform K} {h : Handle K} {frames : Nat} {type : SampleType}

/-- A resize ends with room for the request, or fails with the old buffer or with none. -/
structure ResizesRight (P : Platform K) (h : Handle K) (frames : Nat) (type : SampleType) :
    Prop where
  room : ∀ h', h.resize P (UInt64.ofNat frames) type.size = (.success, h') →
    h.bytes frames type.size ≤ h'.adaptorbuffersize.toNat
  failed : ∀ err h', h.resize P (UInt64.ofNat frames) type.size = (err, h') → err ≠ .success →
    h' = h ∨ h' = { h with adaptorbuffersize := 0 }

/-- The factors do not wrap, the buffer has the room already, or the wrapped size is refused. -/
def SizeKept (P : Platform K) (h : Handle K) (frames : Nat) (type : SampleType) : Prop :=
  h.bufferChannels < 2^32 ∧ h.bytes frames type.size < 2^64 ∨
  h.bytes frames type.size ≤ h.adaptorbuffersize.toNat ∨
  h.bufferChannels%2^32 ≠ 0 ∧ (h.wrappedBytes frames type.size = 0 ∨
    h.adaptorbuffersize.toNat < h.wrappedBytes frames type.size ∧
      P.grants (UInt64.ofNat (h.wrappedBytes frames type.size)) = false)

theorem resize_wrapped (P : Platform K) (h : Handle K) (type : SampleType) (hframes : 1 ≤ frames)
    (hmax : frames < 2^63) :
    h.resize P (UInt64.ofNat frames) type.size =
      if h.bufferChannels%2^32 = 0 then (.success, h)
      else if h.wrappedBytes frames type.size = 0 then (.unknown, h)
      else if h.adaptorbuffersize.toNat < h.wrappedBytes frames type.size then
        if P.grants (UInt64.ofNat (h.wrappedBytes frames type.size)) then
          (.success, { h with adaptorbuffersize := UInt64.ofNat (h.wrappedBytes frames type.size) })
        else (.unknown, { h with adaptorbuffersize := 0 })
      else (.success, h) := by
  have hcount : (UInt64.ofNat frames).toNat = frames := by
    rw [UInt64.toNat_ofNat', Nat.mod_eq_of_lt (by omega)]
  rw [Handle.resize, adaptorbufferResize_eq P.grants h.toLayout type.size h.adaptorbuffersize
    (by omega), hcount]
  split_ifs <;> rfl

theorem fits_of_bytes_le (hframes : 1 ≤ frames)
    (hle : h.bytes frames type.size ≤ h.wrappedBytes frames type.size) :
    h.bufferChannels < 2^32 ∧ h.bytes frames type.size < 2^64 := by
  have hitem := type.size_bounds.1
  have hbytes : h.bytes frames type.size < 2^64 := lt_of_le_of_lt hle (Nat.mod_lt _ (by decide))
  have hfactor : 0 < frames*type.size.toNat := Nat.mul_pos hframes hitem
  have hchannels : h.bufferChannels*(frames*type.size.toNat) ≤
      h.bufferChannels%2^32*(frames*type.size.toNat) := by
    rw [← Nat.mul_assoc, ← Nat.mul_assoc]
    exact hle.trans (Nat.mod_le _ _)
  have hmod := Nat.le_of_mul_le_mul_right hchannels hfactor
  exact ⟨lt_of_le_of_lt hmod (Nat.mod_lt _ (by decide)), hbytes⟩

theorem resizesRight_of_success {h' : Handle K}
    (hrun : h.resize P (UInt64.ofNat frames) type.size = (.success, h')) :
    ResizesRight P h frames type ↔ h.bytes frames type.size ≤ h'.adaptorbuffersize.toNat := by
  constructor
  · intro hright
    exact hright.room h' hrun
  · intro hroom
    refine ⟨fun g hg => ?_, fun err g hg herr => ?_⟩
    · rw [← (Prod.mk.inj (hrun.symm.trans hg)).2]
      exact hroom
    · exact absurd (Prod.mk.inj (hrun.symm.trans hg)).1.symm herr

theorem resizesRight_of_error {h' : Handle K}
    (hrun : h.resize P (UInt64.ofNat frames) type.size = (.unknown, h'))
    (hstate : h' = h ∨ h' = { h with adaptorbuffersize := 0 }) : ResizesRight P h frames type := by
  refine ⟨fun g hg => ?_, fun err g hg _ => ?_⟩
  · cases (Prod.mk.inj (hrun.symm.trans hg)).1
  · rw [← (Prod.mk.inj (hrun.symm.trans hg)).2]
    exact hstate

theorem sizeKept_nothing (hchannels : 1 ≤ h.bufferChannels) (hnone : h.bufferChannels%2^32 = 0) :
    h.bytes frames type.size ≤ h.adaptorbuffersize.toNat ↔ SizeKept P h frames type := by
  refine ⟨fun hle => Or.inr (Or.inl hle), fun hkept => ?_⟩
  obtain ⟨hfits, -⟩ | hle | ⟨hsome, -⟩ := hkept
  · rw [Nat.mod_eq_of_lt hfits] at hnone
    omega
  · exact hle
  · exact absurd hnone hsome

theorem sizeKept_grown (hframes : 1 ≤ frames) (hzero : h.wrappedBytes frames type.size ≠ 0)
    (hgrow : h.adaptorbuffersize.toNat < h.wrappedBytes frames type.size)
    (hgrants : P.grants (UInt64.ofNat (h.wrappedBytes frames type.size)) = true) :
    h.bytes frames type.size ≤ h.wrappedBytes frames type.size ↔ SizeKept P h frames type := by
  refine ⟨fun hle => Or.inl (fits_of_bytes_le hframes hle), fun hkept => ?_⟩
  obtain ⟨hfits, hbytes⟩ | hle | ⟨-, hrefused⟩ := hkept
  · exact (wrappedBytes_of_fits hfits hbytes).ge
  · exact hle.trans (Nat.le_of_lt hgrow)
  · rw [hgrants] at hrefused
    exact absurd hrefused (by simp [hzero])

theorem sizeKept_stays (hzero : h.wrappedBytes frames type.size ≠ 0)
    (hgrow : ¬ h.adaptorbuffersize.toNat < h.wrappedBytes frames type.size) :
    h.bytes frames type.size ≤ h.adaptorbuffersize.toNat ↔ SizeKept P h frames type := by
  refine ⟨fun hle => Or.inr (Or.inl hle), fun hkept => ?_⟩
  obtain ⟨hfits, hbytes⟩ | hle | ⟨-, hrefused⟩ := hkept
  · rw [← wrappedBytes_of_fits hfits hbytes]
    exact Nat.le_of_not_lt hgrow
  · exact hle
  · exact absurd hrefused (by simp [hzero, hgrow])

/-- A request of at least one frame on a handle with channels gets its room, or fails as
documented, if and only if its size is kept. -/
theorem resizesRight_iff (P : Platform K) (h : Handle K) (frames : Nat) (type : SampleType)
    (hchannels : 1 ≤ h.bufferChannels) (hframes : 1 ≤ frames) (hmax : frames < 2^63) :
    ResizesRight P h frames type ↔ SizeKept P h frames type := by
  have hrun := resize_wrapped P h type hframes hmax
  by_cases hnone : h.bufferChannels%2^32 = 0
  · rw [if_pos hnone] at hrun
    rw [resizesRight_of_success hrun]
    exact sizeKept_nothing hchannels hnone
  rw [if_neg hnone] at hrun
  by_cases hzero : h.wrappedBytes frames type.size = 0
  · rw [if_pos hzero] at hrun
    exact iff_of_true (resizesRight_of_error hrun (Or.inl rfl))
      (Or.inr (Or.inr ⟨hnone, Or.inl hzero⟩))
  rw [if_neg hzero] at hrun
  by_cases hgrow : h.adaptorbuffersize.toNat < h.wrappedBytes frames type.size
  · rw [if_pos hgrow] at hrun
    cases hgrants : P.grants (UInt64.ofNat (h.wrappedBytes frames type.size)) with
    | false =>
      rw [hgrants] at hrun
      exact iff_of_true (resizesRight_of_error hrun (Or.inr rfl))
        (Or.inr (Or.inr ⟨hnone, Or.inr ⟨hgrow, hgrants⟩⟩))
    | true =>
      rw [hgrants] at hrun
      rw [resizesRight_of_success hrun, ← sizeKept_grown hframes hzero hgrow hgrants]
      change _ ≤ (UInt64.ofNat (h.wrappedBytes frames type.size)).toNat ↔ _
      rw [toNat_wrappedBytes]
  · rw [if_neg hgrow] at hrun
    rw [resizesRight_of_success hrun]
    exact sizeKept_stays hzero hgrow

end size

/-- One frame of one channel. -/
theorem resizesRight_unit : ∃ h : Handle ℚ,
    ambixOpen unitPlatform (unitDisk none) .write ⟨.basic, 0, 1⟩ = .ok (some h) ∧
    (ResizesRight unitPlatform h 1 .int32 ↔ SizeKept unitPlatform h 1 .int32) := by
  obtain ⟨h, hopen, hroom⟩ : ∃ h : Handle ℚ,
    ambixOpen unitPlatform (unitDisk none) .write ⟨.basic, 0, 1⟩ = .ok (some h) ∧
    h.bufferChannels = 1 := ⟨_, rfl, rfl⟩
  exact ⟨h, hopen, resizesRight_iff unitPlatform h 1 .int32 (by rw [hroom]) (by decide) (by decide)⟩

/-- One channel of `2^62+1` items of 4 bytes: the product wraps to 4, and the buffer of 256 bytes
that the handle has been opened with is taken to be large enough. -/
theorem resizesRight_fails : ∃ h : Handle ℚ,
    ambixOpen unitPlatform (unitDisk none) .write ⟨.basic, 0, 1⟩ = .ok (some h) ∧
    1 ≤ h.bufferChannels ∧ h.adaptorbuffersize = 256 ∧
    h.resize unitPlatform (UInt64.ofNat (2^62+1)) SampleType.int32.size = (.success, h) ∧
    h.bytes (2^62+1) SampleType.int32.size = 4*(2^62+1) ∧
    ¬ ResizesRight unitPlatform h (2^62+1) .int32 := by
  obtain ⟨h, hopen, hchannels, hsize, hrun, hbytes⟩ : ∃ h : Handle ℚ,
      ambixOpen unitPlatform (unitDisk none) .write ⟨.basic, 0, 1⟩ = .ok (some h) ∧
      h.bufferChannels = 1 ∧ h.adaptorbuffersize = 256 ∧
      h.resize unitPlatform (UInt64.ofNat (2^62+1)) SampleType.int32.size = (.success, h) ∧
      h.bytes (2^62+1) SampleType.int32.size = 4*(2^62+1) := ⟨_, rfl, rfl, rfl, rfl, rfl⟩
  refine ⟨h, hopen, by rw [hchannels], hsize, hrun, hbytes, fun hright => ?_⟩
  have hroom := hright.room h hrun
  rw [hbytes, hsize] at hroom
  exact absurd hroom (by decide)

end Ambix
