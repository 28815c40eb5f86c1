import Ambix.Session

/-! The adaptor buffer: the size that is asked for, and what has room in it. -/
namespace Ambix
open Machine

section room
variable {K : Type} [Field K]

/-- The channels `_ambix_adaptorbuffer_resize` makes room for. -/
def Layout.bufferChannels (l : Layout K) : Nat :=
  max l.info.ambichannels.toNat l.realinfo.ambichannels.toNat+
    max l.info.extrachannels.toNat l.realinfo.extrachannels.toNat

theorem toNat_max (a b : UInt32) : (max a b).toNat = max a.toNat b.toNat := by
  change (if a ≤ b then b else a).toNat = _
  split
  · rename_i h
    exact (Nat.max_eq_right (UInt32.le_iff_toNat_le.mp h)).symm
  · rename_i h
    exact (Nat.max_eq_left (Nat.le_of_lt (UInt32.lt_iff_toNat_lt.mp (UInt32.not_le.mp h)))).symm

theorem toNat_bufferChannels (l : Layout K) :
    (max l.info.ambichannels l.realinfo.ambichannels+
      max l.info.extrachannels l.realinfo.extrachannels).toNat = l.bufferChannels%2^32 := by
  rw [UInt32.toNat_add, toNat_max, toNat_max]
  rfl

def Layout.bytes (l : Layout K) (frames : Nat) (itemsize : UInt16) : Nat :=
  l.bufferChannels*frames*itemsize.toNat

/-- The bytes that `_ambix_adaptorbuffer_resize` asks for. -/
def Layout.wrappedBytes (l : Layout K) (frames : Nat) (itemsize : UInt16) : Nat :=
  l.bufferChannels%2^32*frames*itemsize.toNat%2^64

theorem wrappedBytes_of_fits {l : Layout K} {frames : Nat} {itemsize : UInt16}
    (hwrap : l.bufferChannels < 2^32) (hbytes : l.bytes frames itemsize < 2^64) :
    l.wrappedBytes frames itemsize = l.bytes frames itemsize := by
  rw [Layout.wrappedBytes, Nat.mod_eq_of_lt hwrap]
  exact Nat.mod_eq_of_lt hbytes

theorem toNat_wrappedBytes (l : Layout K) (frames : Nat) (itemsize : UInt16) :
    (UInt64.ofNat (l.wrappedBytes frames itemsize)).toNat = l.wrappedBytes frames itemsize := by
  rw [UInt64.toNat_ofNat', Layout.wrappedBytes, Nat.mod_mod]

theorem ofNat_wrappedBytes (l : Layout K) (frames : UInt64) (itemsize : UInt16) :
    (max l.info.ambichannels l.realinfo.ambichannels+
      max l.info.extrachannels l.realinfo.extrachannels).toUInt64*frames*itemsize.toUInt64 =
      UInt64.ofNat (l.wrappedBytes frames.toNat itemsize) := by
  rw [← UInt64.toNat_inj, toNat_wrappedBytes, UInt64.toNat_mul, UInt64.toNat_mul,
    UInt32.toNat_toUInt64, UInt16.toNat_toUInt64, Nat.mod_mul_mod, toNat_bufferChannels]
  rfl

theorem adaptorbufferResize_eq (grants : UInt64 → Bool) (l : Layout K) {frames : UInt64}
    (itemsize : UInt16) (size : UInt64) (hframes : 1 ≤ frames.toNat) :
    adaptorbufferResize grants l.info l.realinfo frames itemsize size =
      if l.bufferChannels%2^32 = 0 then (.success, size)
      else if l.wrappedBytes frames.toNat itemsize = 0 then (.unknown, size)
      else if size.toNat < l.wrappedBytes frames.toNat itemsize then
        if grants (UInt64.ofNat (l.wrappedBytes frames.toNat itemsize)) then
          (.success, UInt64.ofNat (l.wrappedBytes frames.toNat itemsize))
        else (.unknown, 0)
      else (.success, size) := by
  have h1 : UInt64.toNat 1 = 1 := rfl
  have h1' : UInt32.toNat 1 = 1 := rfl
  rw [adaptorbufferResize, ofNat_wrappedBytes]
  refine if_congr ?_ rfl (if_congr ?_ rfl (if_congr ?_ rfl rfl))
  · rw [UInt64.lt_iff_toNat_lt, UInt32.lt_iff_toNat_lt, toNat_bufferChannels, h1, h1']
    omega
  · rw [UInt64.lt_iff_toNat_lt, toNat_wrappedBytes, h1]
    omega
  · rw [gt_iff_lt, UInt64.lt_iff_toNat_lt, toNat_wrappedBytes]

/-- A buffer that has been resized holds the frames it was resized for. -/
theorem adaptorbufferResize_room {grants : UInt64 → Bool} {l : Layout K}
    {frames size size' : UInt64}
    {itemsize : UInt16}
    (hres : adaptorbufferResize grants l.info l.realinfo frames itemsize size = (.success, size'))
    (hwrap : l.bufferChannels < 2^32) (hchannels : 1 ≤ l.bufferChannels)
    (hframes : 1 ≤ frames.toNat) (hbytes : l.bytes frames.toNat itemsize < 2^64) :
    l.bytes frames.toNat itemsize ≤ size'.toNat := by
  have hfits := wrappedBytes_of_fits hwrap hbytes
  rw [adaptorbufferResize_eq grants l itemsize size hframes, Nat.mod_eq_of_lt hwrap,
    if_neg (by omega)] at hres
  split at hres
  · cases hres
  split at hres
  · split at hres
    · rw [← (Prod.mk.inj hres).2, toNat_wrappedBytes, hfits]
    · cases hres
  · rename_i hroom
    rw [← (Prod.mk.inj hres).2, ← hfits]
    exact Nat.le_of_not_lt hroom

theorem adaptorbufferResize_granted {grants : UInt64 → Bool} (hg : ∀ size, grants size = true)
    (info realinfo : Info) (frames : UInt64) (itemsize : UInt16) (size : UInt64)
    (hf : frames.toNat < 2^29) (h1 : 1 ≤ itemsize.toNat) (h8 : itemsize.toNat ≤ 8) :
    (adaptorbufferResize grants info realinfo frames itemsize size).1 = .success := by
  unfold adaptorbufferResize
  dsimp only
  generalize max info.ambichannels realinfo.ambichannels+
    max info.extrachannels realinfo.extrachannels = channels
  have h1' : UInt64.toNat 1 = 1 := rfl
  have h1'' : UInt32.toNat 1 = 1 := rfl
  split
  · rfl
  · rename_i hpos
    rw [UInt64.lt_iff_toNat_lt, UInt32.lt_iff_toNat_lt, h1', h1''] at hpos
    have hc := channels.toNat_lt
    have hlt : channels.toNat*frames.toNat*itemsize.toNat < 2^64 := by
      calc
        channels.toNat*frames.toNat*itemsize.toNat ≤ (2^32-1)*(2^29-1)*8 := by
          gcongr <;> omega
        _ < 2^64 := by decide
    have hpos' : 0 < channels.toNat*frames.toNat*itemsize.toNat := by
      have := Nat.mul_pos (Nat.mul_pos (show 0 < channels.toNat by omega)
        (show 0 < frames.toNat by omega)) h1
      exact this
    have hmul : (channels.toUInt64*frames*itemsize.toUInt64).toNat =
        channels.toNat*frames.toNat*itemsize.toNat := by
      rw [UInt64.toNat_mul, UInt64.toNat_mul, UInt32.toNat_toUInt64, UInt16.toNat_toUInt64,
        Nat.mod_mul_mod, Nat.mod_eq_of_lt hlt]
    rw [if_neg (by rw [UInt64.lt_iff_toNat_lt, hmul, h1']; omega), hg]
    split <;> rfl

theorem SampleType.size_bounds (type : SampleType) : 1 ≤ type.size.toNat ∧ type.size.toNat ≤ 8 := by
  cases type <;> decide

theorem bytes_lt {l : Layout K} (hwrap : l.bufferChannels < 2^32) {n : Nat} (hn : n < 2^29)
    (type : SampleType) : l.bytes n type.size < 2^64 := by
  obtain ⟨-, h8⟩ := type.size_bounds
  calc
    l.bytes n type.size ≤ (2^32-1)*(2^29-1)*8 := by
      rw [Layout.bytes]
      gcongr <;> omega
    _ < 2^64 := by decide

theorem resize_answers {grants : UInt64 → Bool} (hg : ∀ size, grants size = true) {l : Layout K}
    (hwrap : l.bufferChannels < 2^32) {n : Nat} {type : SampleType}
    (hbytes : l.bytes n type.size < 2^64) (size : UInt64) : ∃ size',
      adaptorbufferResize grants l.info l.realinfo (UInt64.ofNat n) type.size size =
        (.success, size') ∧ l.bytes n type.size ≤ size'.toNat := by
  obtain ⟨h1, -⟩ := type.size_bounds
  have hfits := wrappedBytes_of_fits hwrap hbytes
  by_cases hnone : l.bufferChannels = 0
  · have hzero : max l.info.ambichannels l.realinfo.ambichannels+
        max l.info.extrachannels l.realinfo.extrachannels < 1 := by
      rw [UInt32.lt_iff_toNat_lt, toNat_bufferChannels, hnone]
      decide
    refine ⟨size, ?_, by simp [Layout.bytes, hnone]⟩
    rw [adaptorbufferResize, if_pos (Or.inr hzero)]
  by_cases hempty : n = 0
  · refine ⟨size, ?_, by simp [Layout.bytes, hempty]⟩
    rw [adaptorbufferResize, hempty, if_pos (Or.inl (by decide))]
  have hn : (UInt64.ofNat n).toNat = n := by
    rw [UInt64.toNat_ofNat']
    refine Nat.mod_eq_of_lt (lt_of_le_of_lt ?_ hbytes)
    calc
      n = 1*n*1 := by rw [Nat.one_mul, Nat.mul_one]
      _ ≤ l.bufferChannels*n*type.size.toNat := by
        gcongr
        omega
  have hpos : 0 < l.bytes n type.size :=
    Nat.mul_pos (Nat.mul_pos (Nat.pos_of_ne_zero hnone) (Nat.pos_of_ne_zero hempty)) h1
  rw [adaptorbufferResize_eq grants l type.size size (by omega), hn, Nat.mod_eq_of_lt hwrap,
    if_neg hnone, if_neg (by omega), hg]
  split
  · refine ⟨_, rfl, ?_⟩
    rw [toNat_wrappedBytes, hfits]
  · rename_i hroom
    rw [hfits] at hroom
    exact ⟨size, rfl, Nat.le_of_not_lt hroom⟩

theorem resize_short {grants : UInt64 → Bool} (hg : ∀ size, grants size = true) {l : Layout K}
    (hwrap : 2^32 ≤ l.bufferChannels) {n channels : Nat} {type : SampleType}
    (hbytes : l.bytes n type.size < 2^64) (hchannels : l.bufferChannels%2^32 < channels)
    {size : UInt64} (hshort : size.toNat < n*channels*type.size.toNat) : ∃ size',
      adaptorbufferResize grants l.info l.realinfo (UInt64.ofNat n) type.size size =
        (.success, size') ∧ size'.toNat < n*channels*type.size.toNat := by
  obtain ⟨h1, -⟩ := type.size_bounds
  have hframes : 0 < n := by
    by_contra hzero
    rw [Nat.eq_zero_of_not_pos hzero, Nat.zero_mul, Nat.zero_mul] at hshort
    omega
  have hn : (UInt64.ofNat n).toNat = n := by
    rw [UInt64.toNat_ofNat']
    refine Nat.mod_eq_of_lt (lt_of_le_of_lt ?_ hbytes)
    calc
      n = 1*n*1 := by rw [Nat.one_mul, Nat.mul_one]
      _ ≤ l.bufferChannels*n*type.size.toNat := by
        gcongr
        omega
  have hwrapped : l.wrappedBytes n type.size = l.bufferChannels%2^32*n*type.size.toNat := by
    refine Nat.mod_eq_of_lt (lt_of_le_of_lt ?_ hbytes)
    rw [Layout.bytes]
    gcongr
    exact Nat.mod_le _ _
  have hless : l.wrappedBytes n type.size < n*channels*type.size.toNat := by
    rw [hwrapped, Nat.mul_comm n]
    gcongr
  rw [adaptorbufferResize_eq grants l type.size size (by omega), hn]
  split
  · exact ⟨size, rfl, hshort⟩
  rename_i hsome
  rw [if_neg (by rw [hwrapped]; exact (Nat.mul_pos (Nat.mul_pos (Nat.pos_of_ne_zero hsome) hframes)
    h1).ne'), hg]
  split
  · refine ⟨_, rfl, ?_⟩
    rw [toNat_wrappedBytes]
    exact hless
  · exact ⟨size, rfl, hshort⟩

theorem bytes_mono {l : Layout K} {m n : Nat} (hle : m ≤ n) (itemsize : UInt16) :
    l.bytes m itemsize ≤ l.bytes n itemsize := by
  rw [Layout.bytes, Layout.bytes]
  gcongr

theorem fits_of_bytes {l : Layout K} {channels n : Nat} {itemsize : UInt16} {size : UInt64}
    (hle : channels ≤ l.bufferChannels) (hroom : l.bytes n itemsize ≤ size.toNat) :
    n*channels*itemsize.toNat ≤ size.toNat := by
  calc
    n*channels*itemsize.toNat ≤ n*l.bufferChannels*itemsize.toNat := by gcongr
    _ = l.bytes n itemsize := by rw [Layout.bytes, Nat.mul_comm n]
    _ ≤ size.toNat := hroom

/-- The channels of the file are counted without a wrap. -/
structure Counted (h : Handle K) : Prop where
  covered : h.sf.file.channels.toNat ≤ h.bufferChannels
  unwrapped : h.bufferChannels < 2^32

theorem source_covered {l : Layout K} {channels : UInt32}
    (hsource : l.realinfo.ambichannels+l.realinfo.extrachannels = channels) :
    channels.toNat ≤ l.bufferChannels := by
  calc
    channels.toNat = (l.realinfo.ambichannels.toNat+l.realinfo.extrachannels.toNat) % 2^32 := by
      rw [← hsource, UInt32.toNat_add]
    _ ≤ l.realinfo.ambichannels.toNat+l.realinfo.extrachannels.toNat := Nat.mod_le _ _
    _ ≤ l.bufferChannels := Nat.add_le_add (Nat.le_max_right _ _) (Nat.le_max_right _ _)

variable {P : Platform K} {h g : Handle K} {type : SampleType} {n : Nat}

theorem counted_stored (hambi : h.info.ambichannels = h.realinfo.ambichannels)
    (hextra : h.info.extrachannels = h.realinfo.extrachannels)
    (hsource : h.realinfo.ambichannels+h.realinfo.extrachannels = h.sf.file.channels)
    (hle : h.realinfo.ambichannels ≤ h.sf.file.channels) : Counted h := by
  refine ⟨source_covered hsource, ?_⟩
  have hrest : h.realinfo.extrachannels = h.sf.file.channels-h.realinfo.ambichannels := by
    rw [← hsource, UInt32.add_comm, UInt32.add_sub_cancel]
  have hnat := UInt32.toNat_sub_of_le _ _ hle
  have hint := h.sf.file.channels_int
  rw [Layout.bufferChannels, hambi, hextra, hrest, Nat.max_self, Nat.max_self, hnat]
  have hle' := UInt32.le_iff_toNat_le.mp hle
  omega

theorem Counted.of_same (hcounted : Counted h) (hlayout : g.toLayout = h.toLayout)
    (hsame : SameFile h g) : Counted g := by
  refine ⟨?_, by rw [hlayout]; exact hcounted.unwrapped⟩
  rw [hsame.channels, hlayout]
  exact hcounted.covered

theorem readf_answers (hgrants : ∀ size, P.grants size = true) (hcounted : Counted h)
    (hbytes : h.bytes n type.size < 2^64) (ambidata otherdata : Nat → K) : ∃ split h',
      h.readf P type ambidata otherdata n =
        .ok (.ok ((sfReadf h.sf h.adaptorbuffer n).1, split), h') := by
  obtain ⟨size, hres, hroom⟩ :=
    resize_answers hgrants hcounted.unwrapped hbytes h.adaptorbuffersize
  have htouch : ({ h with startedReading := true, adaptorbuffersize := size } : Handle K).touch
      type (n*h.sf.file.channels.toNat) = .ok () := touch_ok (fits_of_bytes hcounted.covered hroom)
  unfold Handle.readf Handle.checkRead Handle.resize
  dsimp only
  rw [if_neg (by decide), hres]
  dsimp only
  rw [if_neg (by decide), htouch, ok_bind]
  exact ⟨_, _, rfl⟩

theorem writef_answers (hcheck : h.checkWrite P = .ok (.success, g))
    (hgrants : ∀ size, P.grants size = true) (hcounted : Counted g)
    (hbytes : g.bytes n type.size < 2^64) (ambidata otherdata : Nat → K) {channels : Nat}
    (hcount : (g.merge ambidata otherdata g.adaptorbuffer n).count = n*channels)
    (hchannels : channels ≤ g.bufferChannels) : ∃ h',
      h.writef P type ambidata otherdata n = .ok (.ok
        (sfWritef g.sf (g.merge ambidata otherdata g.adaptorbuffer n).data n).1, h') := by
  obtain ⟨size, hres, hroom⟩ :=
    resize_answers hgrants hcounted.unwrapped hbytes g.adaptorbuffersize
  have htouch : ({ g with adaptorbuffersize := size } : Handle K).touch type
      (g.merge ambidata otherdata g.adaptorbuffer n).count = .ok () := by
    rw [hcount]
    exact touch_ok (fits_of_bytes hchannels hroom)
  have htouch' : ({ g with adaptorbuffersize := size } : Handle K).touch type
      (n*g.sf.file.channels.toNat) = .ok () := touch_ok (fits_of_bytes hcounted.covered hroom)
  rw [Handle.writef, hcheck, ok_bind]
  unfold Handle.resize
  dsimp only
  rw [if_neg (by decide), hres]
  dsimp only
  rw [if_neg (by decide), htouch, ok_bind, htouch', ok_bind]
  exact ⟨_, rfl⟩

theorem touch_outside {items : Nat}
    (hshort : h.adaptorbuffersize.toNat < items*type.size.toNat) :
    ∃ fault, h.touch type items = .error fault := ⟨_, if_neg (Nat.not_le.mpr hshort)⟩

/-- A write request that its buffer does not grow with runs out of it. -/
theorem writef_overflows (hcheck : h.checkWrite P = .ok (.success, g))
    (hgrants : ∀ size, P.grants size = true) (hwrap : 2^32 ≤ g.bufferChannels)
    (hbytes : g.bytes n type.size < 2^64) (ambidata otherdata : Nat → K) {channels : Nat}
    (hcount : (g.merge ambidata otherdata g.adaptorbuffer n).count = n*channels)
    (hchannels : g.bufferChannels%2^32 < channels)
    (hshort : g.adaptorbuffersize.toNat < n*channels*type.size.toNat) :
    ∃ fault, h.writef P type ambidata otherdata n = .error fault := by
  obtain ⟨size, hres, hless⟩ := resize_short hgrants hwrap hbytes hchannels hshort
  obtain ⟨fault, htouch⟩ : ∃ fault, ({ g with adaptorbuffersize := size } : Handle K).touch type
      (g.merge ambidata otherdata g.adaptorbuffer n).count = .error fault := by
    rw [hcount]
    exact touch_outside hless
  rw [Handle.writef, hcheck, ok_bind]
  unfold Handle.resize
  dsimp only
  rw [if_neg (by decide), hres]
  dsimp only
  rw [if_neg (by decide), htouch]
  exact ⟨fault, rfl⟩

end room
end Ambix
