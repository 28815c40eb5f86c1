import Ambix.MarkerRegionWrite

/-! The chunks that `_ambix_write_markersregions` finishes, and when it stays inside
the blocks it has reserved for them. -/
namespace Ambix
open Machine

/-! The three finished chunks. -/

section chunks
variable (o : ByteOrder)

def markChunk (markers : List Marker) : List UInt8 :=
  if markers = [] then []
  else (headerRecord o (UInt32.ofNat markers.length)).flatten ++ markerRecords o 0 markers

def regnChunk (n : Nat) (regions : List Region) : List UInt8 :=
  if regions = [] then []
  else (headerRecord o (UInt32.ofNat regions.length)).flatten ++ regionRecords o n 0 regions

def strgChunk (names : List Name) : List UInt8 :=
  bytes32 o (UInt32.ofNat names.length) ++ stringids o 0 0 names ++ stringsBytes names

end chunks

/-- All sizes the writer computes in 32 bits are below `2^32`. -/
structure Fits32 (markers : List Marker) (regions : List Region) : Prop where
  markerBytes : 8+28*markers.length < 2^32
  regionBytes : 8+68*regions.length < 2^32
  reserved : 4+12*(markers.length+regions.length)+256 < 2^32
  used : 4+12*(markers.length+regions.length)+namesSize (allNames markers regions) < 2^32

@[simp] theorem headerRecord_length (o : ByteOrder) (count : UInt32) :
    (headerRecord o count).flatten.length = 8 := by simp [headerRecord]

theorem ofNat_pos {n : Nat} (h : 0 < n) (hn : n < 2^32) : 0 < UInt32.ofNat n := by
  rw [UInt32.lt_iff_toNat_lt, UInt32.toNat_ofNat']
  simp
  omega

theorem ofNat_zero : UInt32.ofNat 0 = 0 := rfl

theorem blockSize (base width n : Nat) (h : base+width*n < 2^32) :
    (UInt32.ofNat base+UInt32.ofNat n*UInt32.ofNat width).toNat = base+width*n := by
  rw [← UInt32.ofNat_mul, ← UInt32.ofNat_add, UInt32.toNat_ofNat', Nat.mul_comm n]
  omega

theorem stringsBlock_eq (host : ByteOrder) (swap : Bool) (n : Nat) (h : 4+12*n+256 < 2^32) :
    stringsBlock host swap (UInt32.ofNat n) =
      .ok (stringsAt (host.swapIf swap) (UInt32.ofNat n) [] n 256) := by
  have hn : (UInt32.ofNat n).toNat = n := by
    rw [UInt32.toNat_ofNat']
    omega
  have hsize : (4+UInt32.ofNat n*12+256).toNat = 4+(12*n+256) := by
    have hb := blockSize 4 12 n (by omega)
    have h256 : UInt32.toNat 256 = 256 := rfl
    rw [UInt32.toNat_add, h256]
    change (UInt32.toNat (UInt32.ofNat 4+UInt32.ofNat n*UInt32.ofNat 12)+256) % 2^32 = _
    rw [hb]
    omega
  have hstore := store_middle [] (zeros 4) (zeros (12*n+256)) (bytes32 host (UInt32.ofNat n))
    (by simp)
  have hswap : swapWhen swap (swap4array host · 0 1)
      (bytes32 host (UInt32.ofNat n) ++ zeros (12*n+256)) =
      .ok (bytes32 (host.swapIf swap) (UInt32.ofNat n) ++ zeros (12*n+256)) := by
    cases swap
    · rfl
    · have h := swap4array_middle host [] (bytes32 host (UInt32.ofNat n)) (zeros (12*n+256))
        (by simp)
      rwa [← bytes32_flip] at h
  have hdatasize : 4+UInt32.ofNat n*12 = UInt32.ofNat (4+12*n) := by
    rw [UInt32.ofNat_add, UInt32.ofNat_mul, UInt32.mul_comm]
    rfl
  rw [List.nil_append, List.nil_append, ← zeros_add, List.length_nil] at hstore
  rw [stringsBlock, hsize, store32, hstore, ok_bind, hswap, ok_bind, hn, hdatasize, Nat.mul_comm n]
  simp [stringsAt, stringids, stringsBytes, zeros_add]

theorem markersBlock_eq (host : ByteOrder) (swap : Bool) (count : UInt32) (markers : List Marker)
    (left spare : Nat) (h : 8+28*markers.length < 2^32) :
    ∃ datasize : UInt32, datasize.toNat = (markChunk (host.swapIf swap) markers).length ∧
      markersBlock host swap markers (stringsAt (host.swapIf swap) count [] (markers.length+left)
          (namesSize (markers.map Marker.name)+spare)) =
        .ok (⟨.mark, markChunk (host.swapIf swap) markers, datasize⟩,
          stringsAt (host.swapIf swap) count (markers.map Marker.name) left spare) := by
  by_cases hnil : markers = []
  · subst hnil
    refine ⟨0, rfl, ?_⟩
    simp [markersBlock, markChunk]
  · have hlen : 0 < markers.length := List.length_pos_iff.mpr hnil
    have hsize := blockSize 8 28 markers.length h
    refine ⟨8+UInt32.ofNat markers.length*28, ?_, ?_⟩
    · rw [markChunk, if_neg hnil, List.length_append, headerRecord_length, markerRecords_length]
      exact hsize
    · have hhead := setHeader_eq host (8+UInt32.ofNat markers.length*28)
        (UInt32.ofNat markers.length) (28*markers.length) hsize
      have hswap := swapHeader_record host swap (zeros (28*markers.length))
        (UInt32.ofNat markers.length)
      have hloop := writeMarkers_eq host swap count markers []
        (headerRecord (host.swapIf swap) (UInt32.ofNat markers.length)).flatten left spare
      rw [headerRecord_length, List.length_nil, List.nil_append, ofNat_zero] at hloop
      rw [markersBlock, if_pos (ofNat_pos hlen (by omega))]
      dsimp only
      rw [hhead, ok_bind, hswap, ok_bind, hloop, ok_bind, markChunk, if_neg hnil]

theorem regionsBlock_eq (host : ByteOrder) (swap : Bool) (count : UInt32) (n : Nat)
    (regions : List Region) (names : List Name) (hnames : names.length = n) (left spare : Nat)
    (h : 8+68*regions.length < 2^32) :
    ∃ datasize : UInt32, datasize.toNat = (regnChunk (host.swapIf swap) n regions).length ∧
      regionsBlock host swap (UInt32.ofNat n) regions (stringsAt (host.swapIf swap) count names
          (regions.length+left) (namesSize (regions.map Region.name)+spare)) =
        .ok (⟨.regn, regnChunk (host.swapIf swap) n regions, datasize⟩,
          stringsAt (host.swapIf swap) count (names ++ regions.map Region.name) left spare) := by
  by_cases hnil : regions = []
  · subst hnil
    refine ⟨0, rfl, ?_⟩
    simp [regionsBlock, regnChunk]
  · have hlen : 0 < regions.length := List.length_pos_iff.mpr hnil
    have hsize := blockSize 8 68 regions.length h
    refine ⟨8+UInt32.ofNat regions.length*68, ?_, ?_⟩
    · rw [regnChunk, if_neg hnil, List.length_append, headerRecord_length, regionRecords_length]
      exact hsize
    · have hhead := setHeader_eq host (8+UInt32.ofNat regions.length*68)
        (UInt32.ofNat regions.length) (68*regions.length) hsize
      have hswap := swapHeader_record host swap (zeros (68*regions.length))
        (UInt32.ofNat regions.length)
      have hloop := writeRegions_eq host swap count n regions 0 names hnames
        (headerRecord (host.swapIf swap) (UInt32.ofNat regions.length)).flatten left spare
      have hwidth : (8+UInt32.ofNat regions.length*(12+2*28) : UInt32) =
        8+UInt32.ofNat regions.length*68 := rfl
      have hregion : swapRegionChunk host = swapMarkerChunk host := rfl
      rw [headerRecord_length, ofNat_zero] at hloop
      rw [regionsBlock, if_pos (ofNat_pos hlen (by omega))]
      dsimp only
      rw [hwidth, hhead, ok_bind, hregion, hswap, ok_bind, hloop, ok_bind, regnChunk, if_neg hnil]

theorem count_ne_zero {m n : Nat} (h : 0 < m+n) (hlt : m+n < 2^32) :
    UInt32.ofNat m+UInt32.ofNat n ≠ 0 := by
  intro h0
  have hpos := ofNat_pos h hlt
  rw [UInt32.ofNat_add, h0] at hpos
  exact absurd hpos (by decide)

theorem markersregionsChunks_nil (host : ByteOrder) (swap : Bool) :
    markersregionsChunks host swap [] [] = .ok [] := rfl

theorem markersregionsChunks_eq (host : ByteOrder) (swap : Bool) (markers : List Marker)
    (regions : List Region) (hne : 0 < markers.length+regions.length)
    (hfit : Fits32 markers regions) (hroom : namesSize (allNames markers regions) ≤ 256) :
    ∃ dm dr ds : UInt32, dm.toNat = (markChunk (host.swapIf swap) markers).length ∧
      dr.toNat = (regnChunk (host.swapIf swap) markers.length regions).length ∧
      ds.toNat = (strgChunk (host.swapIf swap) (allNames markers regions)).length ∧
      markersregionsChunks host swap markers regions = .ok
        [⟨.mark, markChunk (host.swapIf swap) markers, dm⟩,
          ⟨.regn, regnChunk (host.swapIf swap) markers.length regions, dr⟩,
          ⟨.strg, strgChunk (host.swapIf swap) (allNames markers regions) ++
            zeros (256-namesSize (allNames markers regions)), ds⟩] := by
  let count := UInt32.ofNat (markers.length+regions.length)
  let spare := 256-namesSize (allNames markers regions)
  have hnames : namesSize (allNames markers regions) =
      namesSize (markers.map Marker.name)+namesSize (regions.map Region.name) :=
    namesSize_append _ _
  have hlen : (allNames markers regions).length = markers.length+regions.length := by
    simp [allNames]
  obtain ⟨dm, hdm, hmark⟩ := markersBlock_eq host swap count markers regions.length
    (namesSize (regions.map Region.name)+spare) hfit.markerBytes
  obtain ⟨dr, hdr, hregn⟩ := regionsBlock_eq host swap count markers.length regions
    (markers.map Marker.name) (by simp) 0 spare hfit.regionBytes
  have h256 : namesSize (markers.map Marker.name)+(namesSize (regions.map Region.name)+spare) =
      256 := by
    simp only [spare]
    omega
  have hstart := stringsBlock_eq host swap (markers.length+regions.length) hfit.reserved
  have hused := hfit.used
  have hcount := count_ne_zero hne (by omega)
  refine ⟨dm, dr, UInt32.ofNat (4+12*(markers.length+regions.length)+
    namesSize (allNames markers regions)), hdm, hdr, ?_, ?_⟩
  · rw [UInt32.toNat_ofNat', Nat.mod_eq_of_lt hfit.used]
    simp [strgChunk, hlen, Nat.add_assoc]
  · rw [h256] at hmark
    rw [markersregionsChunks, if_neg hcount, ← UInt32.ofNat_add, hstart, ok_bind]
    dsimp only
    rw [hmark, ok_bind]
    dsimp only
    rw [show regions.length = regions.length+0 from rfl, hregn, ok_bind]
    simp [stringsAt, strgChunk, allNames, count, spare, zeros]

/-! Conversely, a run that stays inside has had room for every name. -/

theorem swapWhen_length {swap : Bool} {f : List UInt8 → Checked (List UInt8)} {b b' : List UInt8}
    (hf : ∀ c c', f c = .ok c' → c'.length = c.length) (h : swapWhen swap f b = .ok b') :
    b'.length = b.length := by
  cases swap
  · rw [Except.ok.inj h]
  · exact hf b b' h

/-- From `s` to `s'` the names `names` have been stored, inside the block. -/
structure NamesAdded (names : List Name) (s s' : StringsData) : Prop where
  length : s'.data.length = s.data.length
  strings : s'.strings = s.strings+namesSize names
  inside : names ≠ [] → s'.strings ≤ s'.data.length

theorem NamesAdded.refl (s : StringsData) : NamesAdded [] s s := ⟨rfl, rfl, fun h => absurd rfl h⟩

theorem NamesAdded.trans {ms ns : List Name} {s s' s'' : StringsData} (h : NamesAdded ms s s')
    (h' : NamesAdded ns s' s'') : NamesAdded (ms ++ ns) s s'' := by
  refine ⟨h'.length.trans h.length, ?_, fun hne => ?_⟩
  · rw [h'.strings, h.strings, namesSize_append, Nat.add_assoc]
  · cases ns with
    | nil =>
      rw [List.append_nil] at hne
      rw [h'.strings, h'.length]
      exact h.inside hne
    | cons n ns => exact h'.inside (List.cons_ne_nil n ns)

theorem addStringToData_added {host : ByteOrder} {swap : Bool} {id : UInt32} {name : Name}
    {s s' : StringsData} (h : addStringToData host swap id name s = .ok s') :
    NamesAdded [name] s (s'.advance name) := by
  obtain ⟨d₁, h₁, h⟩ := bind_eq_ok.mp h
  obtain ⟨d₂, h₂, h⟩ := bind_eq_ok.mp h
  obtain ⟨d₃, h₃, h⟩ := bind_eq_ok.mp h
  obtain ⟨d₄, h₄, h⟩ := bind_eq_ok.mp h
  obtain ⟨d₅, h₅, h⟩ := bind_eq_ok.mp h
  have hlen : d₅.length = s.data.length := by
    rw [swapWhen_length (fun _ _ hc => swapRecord_length hc) h₅, store_length h₄, store_length h₃,
      store_length h₂, store_length h₁]
  have hnul := store_inside h₄
  rw [name.length_toNat, List.length_singleton, store_length h₃, store_length h₂,
    store_length h₁] at hnul
  rw [← Except.ok.inj h]
  refine ⟨hlen, by simp [StringsData.advance, Name.size], fun _ => ?_⟩
  simp only [StringsData.advance, hlen]
  omega

theorem writeMarkers_added {host : ByteOrder} {swap : Bool} {ms : List Marker} {i : UInt32}
    {b b' : List UInt8} {p p' : Nat} {s s' : StringsData}
    (h : writeMarkers host swap ms i (b, p, s) = .ok (b', p', s')) :
    NamesAdded (ms.map Marker.name) s s' := by
  induction ms generalizing i b p s with
  | nil =>
    simp only [writeMarkers, Except.ok.injEq, Prod.mk.injEq] at h
    rw [h.2.2]
    exact NamesAdded.refl s'
  | cons m ms ih =>
    obtain ⟨b₁, -, h⟩ := bind_eq_ok.mp h
    obtain ⟨b₂, -, h⟩ := bind_eq_ok.mp h
    obtain ⟨s₁, hadd, h⟩ := bind_eq_ok.mp h
    exact (addStringToData_added hadd).trans (ih h)

theorem writeRegions_added {host : ByteOrder} {swap : Bool} {n : UInt32} {rs : List Region}
    {i : UInt32} {b b' : List UInt8} {p p' : Nat} {s s' : StringsData}
    (h : writeRegions host swap n rs i (b, p, s) = .ok (b', p', s')) :
    NamesAdded (rs.map Region.name) s s' := by
  induction rs generalizing i b p s with
  | nil =>
    simp only [writeRegions, Except.ok.injEq, Prod.mk.injEq] at h
    rw [h.2.2]
    exact NamesAdded.refl s'
  | cons r rs ih =>
    obtain ⟨b₁, -, h⟩ := bind_eq_ok.mp h
    obtain ⟨s₁, hadd, h⟩ := bind_eq_ok.mp h
    exact (addStringToData_added hadd).trans (ih h)

theorem eq_nil_of_ofNat {α : Type} {l : List α} (hl : l.length < 2^32)
    (h : ¬ 0 < UInt32.ofNat l.length) : l = [] := by
  by_contra hne
  exact h (ofNat_pos (List.length_pos_iff.mpr hne) hl)

theorem markersBlock_added {host : ByteOrder} {swap : Bool} {ms : List Marker} {c : ChunkWrite}
    {s s' : StringsData} (h : markersBlock host swap ms s = .ok (c, s'))
    (hlen : ms.length < 2^32) : NamesAdded (ms.map Marker.name) s s' := by
  rw [markersBlock] at h
  split at h
  · obtain ⟨b₁, -, h⟩ := bind_eq_ok.mp h
    obtain ⟨b₂, -, h⟩ := bind_eq_ok.mp h
    obtain ⟨⟨b₃, p₃, s₃⟩, hloop, h⟩ := bind_eq_ok.mp h
    obtain ⟨-, rfl⟩ := Prod.mk.inj (Except.ok.inj h)
    exact writeMarkers_added hloop
  · rename_i hzero
    obtain ⟨-, rfl⟩ := Prod.mk.inj (Except.ok.inj h)
    rw [eq_nil_of_ofNat hlen hzero]
    exact NamesAdded.refl s

theorem regionsBlock_added {host : ByteOrder} {swap : Bool} {n : UInt32} {rs : List Region}
    {c : ChunkWrite} {s s' : StringsData} (h : regionsBlock host swap n rs s = .ok (c, s'))
    (hlen : rs.length < 2^32) : NamesAdded (rs.map Region.name) s s' := by
  rw [regionsBlock] at h
  split at h
  · obtain ⟨b₁, -, h⟩ := bind_eq_ok.mp h
    obtain ⟨b₂, -, h⟩ := bind_eq_ok.mp h
    obtain ⟨⟨b₃, p₃, s₃⟩, hloop, h⟩ := bind_eq_ok.mp h
    obtain ⟨-, rfl⟩ := Prod.mk.inj (Except.ok.inj h)
    exact writeRegions_added hloop
  · rename_i hzero
    obtain ⟨-, rfl⟩ := Prod.mk.inj (Except.ok.inj h)
    rw [eq_nil_of_ofNat hlen hzero]
    exact NamesAdded.refl s

theorem stringsBlock_start {host : ByteOrder} {swap : Bool} {n : UInt32} {s : StringsData}
    (h : stringsBlock host swap n = .ok s) :
    s.strings = 4+n.toNat*12 ∧ s.data.length ≤ 4+n.toNat*12+256 := by
  obtain ⟨d₁, h₁, h⟩ := bind_eq_ok.mp h
  obtain ⟨d₂, h₂, h⟩ := bind_eq_ok.mp h
  rw [← Except.ok.inj h]
  refine ⟨rfl, ?_⟩
  have h4 : UInt32.toNat 4 = 4 := rfl
  have h12 : UInt32.toNat 12 = 12 := rfl
  have h256 : UInt32.toNat 256 = 256 := rfl
  change d₂.length ≤ _
  rw [swapWhen_length (fun _ _ hc => swap4array_length hc) h₂, store_length h₁, zeros_length,
    UInt32.toNat_add, UInt32.toNat_add, UInt32.toNat_mul, h4, h12, h256]
  omega

theorem names_fit_of_ok {host : ByteOrder} {swap : Bool} {markers : List Marker}
    {regions : List Region} {chunks : List ChunkWrite}
    (hlen : markers.length+regions.length < 2^32)
    (h : markersregionsChunks host swap markers regions = .ok chunks) :
    namesSize (allNames markers regions) ≤ 256 := by
  by_cases hne : 0 < markers.length+regions.length
  · have hcount := count_ne_zero hne hlen
    rw [markersregionsChunks, if_neg hcount, ← UInt32.ofNat_add] at h
    obtain ⟨s, hstart, h⟩ := bind_eq_ok.mp h
    obtain ⟨⟨c₁, s₁⟩, hm, h⟩ := bind_eq_ok.mp h
    obtain ⟨⟨c₂, s₂⟩, hr, -⟩ := bind_eq_ok.mp h
    obtain ⟨hstrings, hdata⟩ := stringsBlock_start hstart
    have hadded := (markersBlock_added hm (by omega)).trans (regionsBlock_added hr (by omega))
    have hin := hadded.inside fun hnil => by
      have hnames := congrArg List.length hnil
      rw [List.length_append, List.length_map, List.length_map, List.length_nil] at hnames
      omega
    rw [hadded.strings, hadded.length, hstrings] at hin
    rw [allNames]
    omega
  · have hm : markers = [] := List.length_eq_zero_iff.mp (by omega)
    have hr : regions = [] := List.length_eq_zero_iff.mp (by omega)
    subst hm hr
    exact Nat.zero_le _

theorem Fits32.count {markers : List Marker} {regions : List Region}
    (hfit : Fits32 markers regions) : markers.length+regions.length < 2^32 := by
  have := hfit.reserved
  omega

theorem length_le_namesSize (names : List Name) : names.length ≤ namesSize names := by
  induction names with
  | nil => exact le_rfl
  | cons n ns ih =>
    rw [List.length_cons, namesSize_cons, Name.size]
    omega

theorem fits32_of_names {markers : List Marker} {regions : List Region}
    (h : namesSize (allNames markers regions) ≤ 256) : Fits32 markers regions := by
  have hle := length_le_namesSize (allNames markers regions)
  rw [allNames, List.length_append, List.length_map, List.length_map, ← allNames] at hle
  constructor
  all_goals omega

/-- With room for the names every chunk is finished inside its block. -/
theorem markersregionsChunks_inside (host : ByteOrder) (swap : Bool) {markers : List Marker}
    {regions : List Region} (h : namesSize (allNames markers regions) ≤ 256) :
    ∃ chunks, markersregionsChunks host swap markers regions = .ok chunks ∧
      ∀ c ∈ chunks, c.datasize.toNat ≤ c.data.length := by
  by_cases hne : 0 < markers.length+regions.length
  · obtain ⟨dm, dr, ds, hdm, hdr, hds, hrun⟩ :=
      markersregionsChunks_eq host swap markers regions hne (fits32_of_names h) h
    refine ⟨_, hrun, ?_⟩
    simp only [List.mem_cons, List.not_mem_nil, or_false]
    rintro c (rfl | rfl | rfl)
    · exact hdm.le
    · exact hdr.le
    · rw [hds, List.length_append]
      exact Nat.le_add_right _ _
  · have hm : markers = [] := List.length_eq_zero_iff.mp (by omega)
    have hr : regions = [] := List.length_eq_zero_iff.mp (by omega)
    subst hm hr
    exact ⟨[], markersregionsChunks_nil host swap, by simp⟩

/-- Every store of the writer lies below the size reserved for its block, and so do
the byte counts handed to `_ambix_write_chunk`. -/
def WriterInside (host : ByteOrder) (swap : Bool) (markers : List Marker)
    (regions : List Region) : Prop :=
  ∃ chunks, markersregionsChunks host swap markers regions = .ok chunks ∧
    ∀ c ∈ chunks, c.datasize.toNat ≤ c.data.length

/-- The area reserved once for all names is the only one that can be left. -/
theorem writerInside_iff (host : ByteOrder) (swap : Bool) (markers : List Marker)
    (regions : List Region) (hfit : Fits32 markers regions) :
    WriterInside host swap markers regions ↔ namesSize (allNames markers regions) ≤ 256 := by
  constructor
  · rintro ⟨chunks, hrun, -⟩
    exact names_fit_of_ok hfit.count hrun
  · exact markersregionsChunks_inside host swap

def nameA : Name := ⟨[0x41], by decide, by decide⟩

theorem writerInside_iff_single : WriterInside .little true [⟨0, nameA⟩] [⟨0, 1, nameA⟩] ↔
    namesSize (allNames [⟨0, nameA⟩] [⟨0, 1, nameA⟩]) ≤ 256 :=
  writerInside_iff .little true [⟨0, nameA⟩] [⟨0, 1, nameA⟩]
    ⟨by decide, by decide, by decide, by decide⟩

def nameLong : Name := ⟨List.replicate 128 0x41, by simp, by simp⟩

theorem writerInside_fails : Fits32 [⟨0, nameLong⟩, ⟨0, nameLong⟩] [] ∧
    ¬ WriterInside .little false [⟨0, nameLong⟩, ⟨0, nameLong⟩] [] := by
  have hnames : namesSize (allNames [⟨0, nameLong⟩, ⟨0, nameLong⟩] []) = 258 := by
    simp [allNames, nameLong, Name.size]
  have hfit : Fits32 [⟨0, nameLong⟩, ⟨0, nameLong⟩] [] :=
    ⟨by decide, by decide, by decide, by rw [hnames]; decide⟩
  refine ⟨hfit, ?_⟩
  rintro ⟨chunks, hrun, -⟩
  have hroom := names_fit_of_ok hfit.count hrun
  omega

end Ambix
