import Ambix.Header
import Mathlib.Algebra.Field.Rat

/-! Sessions: what opening leaves in a handle, and which parts of it a call can change. -/
namespace Ambix
open Machine

/-! Opening. -/

section opening
variable {K : Type} [Field K] {P : Platform K} {disk : Disk K} {mode : FileMode}

theorem ambixOpen_eq_some {info : Info} {h : Handle K} :
    ambixOpen P disk mode info = .ok (some h) ↔ ∃ ambixinfo wantformat o markers regions,
      openFormats mode info = some (ambixinfo, wantformat) ∧
      backendOpen P disk mode (ambixinfo.ambichannels+ambixinfo.extrachannels) = .ok (some o) ∧
      readAnnotations P o = .ok (markers, regions) ∧
      ((freshHandle mode ambixinfo o markers regions).present wantformat).resize P
        defaultAdaptorbufferSize 4 = (.success, h) := by
  constructor
  · intro hopen
    unfold ambixOpen at hopen
    split at hopen
    · cases hopen
    rename_i ambixinfo wantformat hformats
    obtain ⟨o, hback, hopen⟩ := bind_eq_ok.mp hopen
    cases o with
    | none => cases hopen
    | some o =>
      obtain ⟨⟨markers, regions⟩, hann, hopen⟩ := bind_eq_ok.mp hopen
      refine ⟨ambixinfo, wantformat, o, markers, regions, hformats, hback, hann, ?_⟩
      dsimp only at hopen
      generalize ((freshHandle mode ambixinfo o markers regions).present wantformat).resize P
        defaultAdaptorbufferSize 4 = r at hopen ⊢
      obtain ⟨err, h'⟩ := r
      by_cases hsucc : err = .success
      · subst hsucc
        have hh : h' = h := Option.some.inj (Except.ok.inj hopen)
        rw [hh]
      · dsimp only at hopen
        rw [if_neg hsucc] at hopen
        cases hopen
  · rintro ⟨ambixinfo, wantformat, o, markers, regions, hformats, hback, hann, hres⟩
    simp only [ambixOpen, hformats, hback, ok_bind, hann, hres, if_true]

/-- Resizing the buffer changes its recorded size and nothing else. -/
theorem resize_eq {frames : UInt64} {itemsize : UInt16} {h h' : Handle K} {err : Err}
    (hres : h.resize P frames itemsize = (err, h')) :
    ∃ size, h' = { h with adaptorbuffersize := size } := ⟨_, (congrArg Prod.snd hres).symm⟩

theorem present_cases (wantformat : FileFormat) (l : Layout K) :
    (wantformat = .basic ∧ l.realinfo.fileformat = .extended ∧ l.present wantformat = { l with
      info := { l.info with fileformat := .basic, ambichannels := l.matrix.rows }
      useMatrix := .matrix }) ∨
    (wantformat = .extended ∧ l.realinfo.fileformat = .basic ∧ l.present wantformat = { l with
      matrix := fillIdentity (matrixInit l.realinfo.ambichannels l.realinfo.ambichannels)
      info := { l.info with fileformat := .extended }
      useMatrix := .none }) ∨
    (¬ (wantformat = .basic ∧ l.realinfo.fileformat = .extended) ∧
      ¬ (wantformat = .extended ∧ l.realinfo.fileformat = .basic) ∧ l.present wantformat = l) := by
  unfold Layout.present
  split
  · rename_i hb
    exact Or.inl ⟨hb.1, hb.2, rfl⟩
  · rename_i hb
    split
    · rename_i he
      exact Or.inr (Or.inl ⟨he.1, he.2, rfl⟩)
    · rename_i he
      exact Or.inr (Or.inr ⟨hb, he, rfl⟩)

def created (P : Platform K) (disk : Disk K) (channels : UInt32)
    (ha : disk.accepts channels = true) : Opened K where
  sf := ⟨newFile disk channels ha, .write, 0, disk.chunkOk, 0⟩
  isAmbix := true
  format := .basic
  byteswap := decide (P.host ≠ disk.order)
  matrix := matrixNull

theorem backendOpen_created {channels : UInt32} (ha : disk.accepts channels = true) :
    backendOpen P disk .write channels = .ok (some (created P disk channels ha)) := by
  simp only [backendOpen, sfOpen, dif_pos ha]
  rfl

theorem backendOpen_write {channels : UInt32} {o : Opened K}
    (h : backendOpen P disk .write channels = .ok (some o)) :
    ∃ ha : disk.accepts channels = true, o = created P disk channels ha := by
  by_cases ha : disk.accepts channels = true
  · rw [backendOpen_created ha] at h
    exact ⟨ha, (Option.some.inj (Except.ok.inj h)).symm⟩
  · simp only [backendOpen, sfOpen, dif_neg ha] at h
    cases h

theorem ambixOpen_write {info : Info} {h : Handle K}
    (hopen : ambixOpen P disk .write info = .ok (some h)) : ∃ ambixinfo wantformat size,
      ∃ ha : disk.accepts (ambixinfo.ambichannels+ambixinfo.extrachannels) = true,
      openFormats .write info = some (ambixinfo, wantformat) ∧
      h = { (freshHandle .write ambixinfo (created P disk _ ha) [] []).present wantformat with
        adaptorbuffersize := size } := by
  obtain ⟨ambixinfo, wantformat, o, markers, regions, hformats, hback, hann, hres⟩ :=
    ambixOpen_eq_some.mp hopen
  obtain ⟨ha, rfl⟩ := backendOpen_write hback
  obtain ⟨rfl, rfl⟩ := Prod.mk.inj (Except.ok.inj hann)
  obtain ⟨size, rfl⟩ := resize_eq hres
  exact ⟨ambixinfo, wantformat, size, ha, hformats, rfl⟩

end opening

/-! Calls. -/

section calls
variable {K : Type} [Field K] {P : Platform K}

theorem touch_inside {h : Handle K} {type : SampleType} {items : Nat} {u : Unit}
    (htouch : h.touch type items = .ok u) :
    items*type.size.toNat ≤ h.adaptorbuffersize.toNat := by
  by_contra hout
  rw [Handle.touch, if_neg hout] at htouch
  cases htouch

theorem touch_ok {h : Handle K} {type : SampleType} {items : Nat}
    (hfit : items*type.size.toNat ≤ h.adaptorbuffersize.toNat) : h.touch type items = .ok () :=
  if_pos hfit

theorem writePending_frame {h h' : Handle K} {res : Err} (hw : h.writePending P = .ok (res, h')) :
    ∃ chunks asked pending,
      h' = { h with sf := h.sf.withChunks chunks asked, pendingHeaders := pending } := by
  unfold Handle.writePending at hw
  split at hw
  · exact writeHeader_frame hw
  · exact ⟨h.sf.file.chunks, h.sf.asked, h.pendingHeaders, (answered_state hw).symm⟩

theorem checkWrite_frame {h h' : Handle K} {res : Err} (hw : h.checkWrite P = .ok (res, h')) :
    ∃ chunks asked pending started, h' = { h with
      sf := h.sf.withChunks chunks asked
      pendingHeaders := pending
      startedWriting := started } := by
  unfold Handle.checkWrite at hw
  split at hw
  · exact ⟨h.sf.file.chunks, h.sf.asked, h.pendingHeaders, h.startedWriting,
      (answered_state hw).symm⟩
  · obtain ⟨⟨res', g⟩, hg, hw⟩ := bind_eq_ok.mp hw
    obtain ⟨chunks, asked, pending, rfl⟩ := writePending_frame hg
    dsimp only at hw
    split at hw
    · exact ⟨chunks, asked, pending, h.startedWriting, (answered_state hw).symm⟩
    · exact ⟨chunks, asked, pending, true, (answered_state hw).symm⟩

theorem readf_cases {type : SampleType} {ambidata otherdata : Nat → K} {n : Nat}
    {h h' : Handle K} {result : Except Err (Nat × Split K)}
    (hr : h.readf P type ambidata otherdata n = .ok (result, h')) : ∃ size,
      (∃ err, result = .error err ∧
        h' = { h with startedReading := true, adaptorbuffersize := size }) ∨
      adaptorbufferResize P.grants h.info h.realinfo (UInt64.ofNat n) type.size
        h.adaptorbuffersize = (.success, size) ∧
      n*h.sf.file.channels.toNat*type.size.toNat ≤ size.toNat ∧
      result = .ok ((sfReadf h.sf h.adaptorbuffer n).1,
        h.split (sfReadf h.sf h.adaptorbuffer n).2.1 ambidata otherdata
          (sfReadf h.sf h.adaptorbuffer n).1) ∧
      h' = { h with
        startedReading := true
        adaptorbuffersize := size
        adaptorbuffer := (sfReadf h.sf h.adaptorbuffer n).2.1
        sf := (sfReadf h.sf h.adaptorbuffer n).2.2 } := by
  unfold Handle.readf Handle.checkRead at hr
  dsimp only at hr
  rw [if_neg (by decide)] at hr
  split at hr
  · obtain ⟨rfl, rfl⟩ := Prod.mk.inj (Except.ok.inj hr)
    exact ⟨_, Or.inl ⟨_, rfl, rfl⟩⟩
  · rename_i hs
    obtain ⟨_, htouch, hr⟩ := bind_eq_ok.mp hr
    obtain ⟨rfl, rfl⟩ := Prod.mk.inj (Except.ok.inj hr)
    exact ⟨_, Or.inr ⟨Prod.ext (not_not.mp hs) rfl, touch_inside htouch, rfl, rfl⟩⟩

/-- A write request fails before the headers are written or after, or hands frames over, through
a buffer that holds them. -/
theorem writef_cases {type : SampleType} {ambidata otherdata : Nat → K} {n : Nat}
    {h h' : Handle K} {result : Except Err Nat}
    (hr : h.writef P type ambidata otherdata n = .ok (result, h')) : ∃ err g,
      h.checkWrite P = .ok (err, g) ∧
      ((err ≠ .success ∧ result = .error err ∧ h' = g) ∨ err = .success ∧ ∃ size,
        ((∃ e, result = .error e ∧ h' = { g with adaptorbuffersize := size }) ∨
        adaptorbufferResize P.grants g.info g.realinfo (UInt64.ofNat n) type.size
          g.adaptorbuffersize = (.success, size) ∧
        (g.merge ambidata otherdata g.adaptorbuffer n).count*type.size.toNat ≤ size.toNat ∧
        n*g.sf.file.channels.toNat*type.size.toNat ≤ size.toNat ∧
        result = .ok (sfWritef g.sf (g.merge ambidata otherdata g.adaptorbuffer n).data n).1 ∧
        h' = { g with
          adaptorbuffersize := size
          adaptorbuffer := (g.merge ambidata otherdata g.adaptorbuffer n).data
          sf := (sfWritef g.sf (g.merge ambidata otherdata g.adaptorbuffer n).data n).2 })) := by
  obtain ⟨⟨err, g⟩, hg, hr⟩ := bind_eq_ok.mp hr
  refine ⟨err, g, hg, ?_⟩
  dsimp only at hr
  split at hr
  · rename_i hne
    obtain ⟨rfl, rfl⟩ := Prod.mk.inj (Except.ok.inj hr)
    exact Or.inl ⟨hne, rfl, rfl⟩
  · rename_i hsucc
    refine Or.inr ⟨not_not.mp hsucc, ?_⟩
    split at hr
    · obtain ⟨rfl, rfl⟩ := Prod.mk.inj (Except.ok.inj hr)
      exact ⟨_, Or.inl ⟨_, rfl, rfl⟩⟩
    · rename_i hs
      obtain ⟨_, hstores, hr⟩ := bind_eq_ok.mp hr
      obtain ⟨_, htakes, hr⟩ := bind_eq_ok.mp hr
      obtain ⟨rfl, rfl⟩ := Prod.mk.inj (Except.ok.inj hr)
      exact ⟨_, Or.inr ⟨Prod.ext (not_not.mp hs) rfl, touch_inside hstores, touch_inside htakes,
        rfl, rfl⟩⟩

theorem writef_layout {type : SampleType} {ambidata otherdata : Nat → K} {frames : Nat}
    {h h' : Handle K} {result : Except Err Nat}
    (hw : h.writef P type ambidata otherdata frames = .ok (result, h')) :
    h'.toLayout = h.toLayout := by
  obtain ⟨err, g, hg, hcases⟩ := writef_cases hw
  obtain ⟨chunks, asked, pending, started, rfl⟩ := checkWrite_frame hg
  obtain ⟨-, -, rfl⟩ | ⟨-, size, ⟨-, -, rfl⟩ | ⟨-, -, -, -, rfl⟩⟩ := hcases
  · rfl
  · rfl
  · rfl

theorem readf_layout {type : SampleType} {ambidata otherdata : Nat → K} {frames : Nat}
    {h h' : Handle K} {result : Except Err (Nat × Split K)}
    (hr : h.readf P type ambidata otherdata frames = .ok (result, h')) :
    h'.toLayout = h.toLayout := by
  obtain ⟨size, ⟨-, -, rfl⟩ | ⟨-, -, -, rfl⟩⟩ := readf_cases hr
  · rfl
  · rfl

def Annotates (h h' : Handle K) : Prop := ∃ markers regions pending,
  h' = { h with markers := markers, regions := regions, pendingHeaders := pending }

theorem Annotates.refl (h : Handle K) : Annotates h h := ⟨_, _, _, rfl⟩

theorem addMarker_annotates (h : Handle K) (marker : Option Marker) :
    Annotates h (h.addMarker marker).2 := by
  unfold Handle.addMarker
  split
  · exact Annotates.refl h
  · cases marker with
    | none => exact Annotates.refl h
    | some marker => exact ⟨_, _, _, rfl⟩

theorem addRegion_annotates (h : Handle K) (region : Option Region) :
    Annotates h (h.addRegion region).2 := by
  unfold Handle.addRegion
  split
  · exact Annotates.refl h
  · cases region with
    | none => exact Annotates.refl h
    | some region => exact ⟨_, _, _, rfl⟩

theorem deleteMarkers_annotates (h : Handle K) : Annotates h h.deleteMarkers.2 := by
  unfold Handle.deleteMarkers
  split
  · exact Annotates.refl h
  · exact ⟨_, _, _, rfl⟩

theorem deleteRegions_annotates (h : Handle K) : Annotates h h.deleteRegions.2 := by
  unfold Handle.deleteRegions
  split
  · exact Annotates.refl h
  · exact ⟨_, _, _, rfl⟩

theorem Annotates.layout {h h' : Handle K} (ha : Annotates h h') : h'.toLayout = h.toLayout := by
  obtain ⟨markers, regions, pending, rfl⟩ := ha
  rfl

/-- Only `ambix_set_adaptormatrix` changes the layout. -/
theorem run_layout [LinearOrder K] {h h' : Handle K} {call : Call K} {answer : Answer K}
    (hcall : call.run P h = .ok (answer, h')) (hset : ∀ A, call ≠ .setAdaptormatrix A) :
    h'.toLayout = h.toLayout := by
  cases call with
  | setAdaptormatrix matrix => exact absurd rfl (hset matrix)
  | writef type ambidata otherdata frames =>
    obtain ⟨⟨result, g⟩, hg, hcall⟩ := bind_eq_ok.mp hcall
    rw [← answered_state hcall]
    exact writef_layout hg
  | seek position => exact (congrArg Handle.toLayout (answered_state hcall)).symm
  | addMarker marker => exact answered_state hcall ▸ (addMarker_annotates h marker).layout
  | addRegion region => exact answered_state hcall ▸ (addRegion_annotates h region).layout
  | deleteMarkers => exact answered_state hcall ▸ (deleteMarkers_annotates h).layout
  | deleteRegions => exact answered_state hcall ▸ (deleteRegions_annotates h).layout
  | readf type ambidata otherdata frames =>
    obtain ⟨⟨result, g⟩, hg, hcall⟩ := bind_eq_ok.mp hcall
    rw [← answered_state hcall]
    exact readf_layout hg

/-- What no call changes: how a file was opened and what kind of file it is. -/
structure SameFile (h h' : Handle K) : Prop where
  filemode : h'.filemode = h.filemode
  byteswap : h'.byteswap = h.byteswap
  mode : h'.sf.mode = h.sf.mode
  chunkOk : h'.sf.chunkOk = h.sf.chunkOk
  container : h'.sf.file.container = h.sf.file.container
  order : h'.sf.file.order = h.sf.file.order
  channels : h'.sf.file.channels = h.sf.file.channels

theorem SameFile.refl (h : Handle K) : SameFile h h := ⟨rfl, rfl, rfl, rfl, rfl, rfl, rfl⟩

theorem SameFile.trans {h h' h'' : Handle K} (a : SameFile h h') (b : SameFile h' h'') :
    SameFile h h'' :=
  ⟨b.filemode.trans a.filemode, b.byteswap.trans a.byteswap, b.mode.trans a.mode,
    b.chunkOk.trans a.chunkOk, b.container.trans a.container, b.order.trans a.order,
    b.channels.trans a.channels⟩

theorem Annotates.sameFile {h h' : Handle K} (ha : Annotates h h') : SameFile h h' := by
  obtain ⟨markers, regions, pending, rfl⟩ := ha
  exact ⟨rfl, rfl, rfl, rfl, rfl, rfl, rfl⟩

theorem checkWrite_sameFile {h h' : Handle K} {res : Err} (hw : h.checkWrite P = .ok (res, h')) :
    SameFile h h' := by
  obtain ⟨chunks, asked, pending, started, rfl⟩ := checkWrite_frame hw
  exact ⟨rfl, rfl, rfl, rfl, rfl, rfl, rfl⟩

theorem writef_sameFile {type : SampleType} {ambidata otherdata : Nat → K} {frames : Nat}
    {h h' : Handle K} {result : Except Err Nat}
    (hw : h.writef P type ambidata otherdata frames = .ok (result, h')) : SameFile h h' := by
  obtain ⟨err, g, hg, hcases⟩ := writef_cases hw
  refine (checkWrite_sameFile hg).trans ?_
  obtain ⟨-, -, rfl⟩ | ⟨-, size, ⟨-, -, rfl⟩ | ⟨-, -, -, -, rfl⟩⟩ := hcases
  · exact SameFile.refl _
  · exact ⟨rfl, rfl, rfl, rfl, rfl, rfl, rfl⟩
  · unfold sfWritef
    split <;> exact ⟨rfl, rfl, rfl, rfl, rfl, rfl, rfl⟩

theorem readf_sameFile {type : SampleType} {ambidata otherdata : Nat → K} {frames : Nat}
    {h h' : Handle K} {result : Except Err (Nat × Split K)}
    (hr : h.readf P type ambidata otherdata frames = .ok (result, h')) : SameFile h h' := by
  obtain ⟨size, ⟨-, -, rfl⟩ | ⟨-, -, -, rfl⟩⟩ := readf_cases hr
  · exact ⟨rfl, rfl, rfl, rfl, rfl, rfl, rfl⟩
  · unfold sfReadf
    split <;> exact ⟨rfl, rfl, rfl, rfl, rfl, rfl, rfl⟩

end calls

/-! A platform and files to compute with: of all floats it knows 0 and 1. -/

def unitPlatform : Platform ℚ where
  host := .little
  word x := if x = 1 then 0x3f800000 else 0
  number w := if w = 0x3f800000 then 1 else 0
  sqrt x := x
  grants _ := true
  behind _ := 0

def unitMatrix (rows cols : UInt32) : AmbixMatrix ℚ := AmbixMatrix.ofFn rows cols fun _ _ => 1

/-- A 4 by 2 matrix that swaps its columns and adds two silent rows. -/
def swapMatrix : AmbixMatrix ℚ := AmbixMatrix.ofFn 4 2 fun r c => if r+c = 1 then 1 else 0

def unitFile : SoundFile ℚ where
  container := .caf
  order := .little
  channels := 1
  chunks := []
  frames := [[1]]
  channels_pos := by decide
  channels_int := by decide
  width := by decide

/-- Three frames of two ambisonics channels and an extra one, and the matrix that decodes them. -/
def reducedFile : SoundFile ℚ where
  container := .caf
  order := .little
  channels := 3
  chunks := [⟨.uuid, uuid1Bytes .little unitPlatform.word swapMatrix⟩]
  frames := [[1, 2, 3], [4, 5, 6], [7, 8, 9]]
  channels_pos := by decide
  channels_int := by decide
  width := by decide

/-- A place where every file can be created and every chunk stored. -/
def unitDisk (existing : Option (SoundFile ℚ)) : Disk ℚ where
  existing := existing
  accepts n := decide (0 < n.toNat ∧ n.toNat < 2^31)
  accepts_int _ h := of_decide_eq_true h
  order := .little
  chunkOk _ := true

end Ambix
