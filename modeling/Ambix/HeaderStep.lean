import Ambix.BlockSize

/-! What a call on a writing handle does to the header: the lists it is made from, the
chunks handed over, and the flags that say whether it is still to come. -/
namespace Ambix
open Machine

/-! Handing the header over. -/

section pending
variable {K : Type} [Field K] {P : Platform K} {h h' g : Handle K} {writes : List ChunkWrite}

/-- The chunk writes that describe the markers and regions of a handle. -/
structure HeaderOf (P : Platform K) (h : Handle K) (writes : List ChunkWrite) : Prop where
  chunks : markersregionsChunks P.host h.byteswap h.markers h.regions = .ok writes
  inside : ∀ w ∈ writes, w.Inside

structure HeaderWriter (P : Platform K) (h : Handle K) : Prop where
  mode : h.filemode = .write
  swap : h.byteswap = decide (P.host ≠ h.sf.file.order)
  size : 24+4*(h.matrix.rows.toNat*h.matrix.cols.toNat) < 2^64

theorem markersBlock_id {host : ByteOrder} {swap : Bool} {markers : List Marker} {c : ChunkWrite}
    {s s' : StringsData} (hb : markersBlock host swap markers s = .ok (c, s')) : c.id = .mark := by
  rw [markersBlock] at hb
  split at hb
  · obtain ⟨b₁, -, hb⟩ := bind_eq_ok.mp hb
    obtain ⟨b₂, -, hb⟩ := bind_eq_ok.mp hb
    obtain ⟨⟨b₃, p₃, s₃⟩, -, hb⟩ := bind_eq_ok.mp hb
    rw [← (Prod.mk.inj (Except.ok.inj hb)).1]
  · rw [← (Prod.mk.inj (Except.ok.inj hb)).1]

theorem regionsBlock_id {host : ByteOrder} {swap : Bool} {n : UInt32} {regions : List Region}
    {c : ChunkWrite} {s s' : StringsData}
    (hb : regionsBlock host swap n regions s = .ok (c, s')) : c.id = .regn := by
  rw [regionsBlock] at hb
  split at hb
  · obtain ⟨b₁, -, hb⟩ := bind_eq_ok.mp hb
    obtain ⟨b₂, -, hb⟩ := bind_eq_ok.mp hb
    obtain ⟨⟨b₃, p₃, s₃⟩, -, hb⟩ := bind_eq_ok.mp hb
    rw [← (Prod.mk.inj (Except.ok.inj hb)).1]
  · rw [← (Prod.mk.inj (Except.ok.inj hb)).1]

theorem HeaderOf.no_uuid (hof : HeaderOf P h writes) : ∀ w ∈ writes, w.id ≠ .uuid := by
  have hc := hof.chunks
  rw [markersregionsChunks] at hc
  dsimp only at hc
  split at hc
  · rw [← Except.ok.inj hc]
    exact fun w hw => absurd hw List.not_mem_nil
  · obtain ⟨s, -, hc⟩ := bind_eq_ok.mp hc
    obtain ⟨⟨mark, s₁⟩, hm, hc⟩ := bind_eq_ok.mp hc
    obtain ⟨⟨regn, s₂⟩, hr, hc⟩ := bind_eq_ok.mp hc
    have hmark := markersBlock_id hm
    have hregn := regionsBlock_id hr
    rw [← Except.ok.inj hc]
    simp [hmark, hregn]

theorem HeaderOf.uuid (hof : HeaderOf P h writes) : chunksOf .uuid (h.headerChunks P writes) =
    if h.realinfo.fileformat = .extended then [uuid1Bytes h.sf.file.order P.word h.matrix]
    else [] := by
  have hnone : chunksOf .uuid (writes.map ChunkWrite.chunk) = [] := by
    rw [chunksOf, List.filter_eq_nil_iff.mpr, List.map_nil]
    intro c hc
    obtain ⟨w, hw, rfl⟩ := List.mem_map.mp hc
    exact fun hid => hof.no_uuid w hw (of_decide_eq_true hid)
  rw [Handle.headerChunks, chunksOf, List.filter_append, List.map_append, ← chunksOf, hnone]
  split <;> rfl

def Handle.handOver (P : Platform K) (h : Handle K) (writes : List ChunkWrite) : Handle K :=
  { h with sf := h.sf.setChunks (h.headerChunks P writes) }

inductive PendingOutcome (P : Platform K) (h : Handle K) : Err × Handle K → Prop where
  | idle (hpending : h.pendingHeaders = false) : PendingOutcome P h (.success, h)
  | headed {writes : List ChunkWrite} (hpending : h.pendingHeaders = true)
      (hof : HeaderOf P h writes) (hok : h.headerOk writes = true) :
      PendingOutcome P h (.success, { h.handOver P writes with pendingHeaders := false })
  | failed {writes : List ChunkWrite} (hpending : h.pendingHeaders = true)
      (hof : HeaderOf P h writes) (hok : h.headerOk writes = false) :
      PendingOutcome P h (.unknown, h.handOver P writes)

theorem HeaderWriter.canWrite (hw : HeaderWriter P h) : h.filemode.canWrite = true := by
  rw [hw.mode]
  rfl

theorem writeHeader_headerOf {r : Err × Handle K} (hmode : h.filemode.canWrite = true)
    (hr : h.writeHeader P = .ok r) : ∃ writes, HeaderOf P h writes := by
  rw [Handle.writeHeader, if_pos hmode] at hr
  obtain ⟨⟨res, sf⟩, hmr, -⟩ := bind_eq_ok.mp hr
  obtain ⟨writes, hchunks, hin, -, -⟩ := writeMarkersregions_ok.mp hmr
  exact ⟨writes, hchunks, hin⟩

theorem writePending_outcome {r : Err × Handle K} (hw : HeaderWriter P h)
    (hr : h.writePending P = .ok r) : PendingOutcome P h r := by
  cases hpending : h.pendingHeaders with
  | false =>
    rw [Handle.writePending, if_neg (by rw [hpending]; decide)] at hr
    rw [← Except.ok.inj hr]
    exact .idle hpending
  | true =>
    rw [Handle.writePending, if_pos hpending] at hr
    obtain ⟨writes, hof⟩ := writeHeader_headerOf hw.canWrite hr
    rw [writeHeader_eq hw.canWrite hof.chunks hof.inside
      (fun hreal => writeHeader_columned hr hw.canWrite hreal hw.size) hw.size hw.swap] at hr
    rw [← Except.ok.inj hr]
    cases hok : h.headerOk writes with
    | true => exact .headed hpending hof hok
    | false => exact .failed hpending hof hok

inductive CheckOutcome (P : Platform K) (h : Handle K) : Err × Handle K → Prop where
  | refused (hguard : h.realinfo.fileformat = .extended ∧ ¬ isFullset h.matrix.rows = true) :
      CheckOutcome P h (.invalidDimension, h)
  | passed {g : Handle K} (hpending : PendingOutcome P h (.success, g)) :
      CheckOutcome P h (.success, { g with startedWriting := true })
  | failed {res : Err} {g : Handle K} (hpending : PendingOutcome P h (res, g))
      (hres : res ≠ .success) : CheckOutcome P h (res, g)

theorem checkWrite_outcome {r : Err × Handle K} (hw : HeaderWriter P h)
    (hr : h.checkWrite P = .ok r) : CheckOutcome P h r := by
  unfold Handle.checkWrite at hr
  split at hr
  · rename_i hguard
    rw [← Except.ok.inj hr]
    exact .refused hguard
  · obtain ⟨⟨res, g⟩, hg, hr⟩ := bind_eq_ok.mp hr
    have hpending := writePending_outcome hw hg
    dsimp only at hr
    split at hr
    · rename_i hres
      rw [← Except.ok.inj hr]
      exact .failed hpending hres
    · rename_i hres
      rw [not_not.mp hres] at hpending
      rw [← Except.ok.inj hr]
      exact .passed hpending

theorem checkWrite_of_headerOf (hw : HeaderWriter P h)
    (hguard : ¬ (h.realinfo.fileformat = .extended ∧ ¬ isFullset h.matrix.rows = true))
    (hof : HeaderOf P h writes) (hcols : h.realinfo.fileformat = .extended → h.matrix.Columned)
    (hok : h.headerOk writes = true) : ∃ g, h.checkWrite P = .ok (.success, g) := by
  rw [Handle.checkWrite, if_neg hguard, Handle.writePending,
    writeHeader_eq hw.canWrite hof.chunks hof.inside hcols hw.size hw.swap, hok]
  cases h.pendingHeaders with
  | false => exact ⟨_, rfl⟩
  | true => exact ⟨_, rfl⟩

/-- What a successful check leaves: the header is in the file, if it was pending. -/
structure HeaderDone (P : Platform K) (h g : Handle K) : Prop where
  layout : g.toLayout = h.toLayout
  markers : g.markers = h.markers
  regions : g.regions = h.regions
  frames : g.sf.file.frames = h.sf.file.frames
  started : g.startedWriting = true
  pending : g.pendingHeaders = false
  handed : (h.pendingHeaders = false ∧ g.sf = h.sf) ∨ (h.pendingHeaders = true ∧ ∃ writes,
    HeaderOf P h writes ∧ h.headerOk writes = true ∧
      g.sf = h.sf.setChunks (h.headerChunks P writes))

omit [Field K] in
theorem setChunks_frames (sf : SndFile K) (chunks : List Chunk) :
    (sf.setChunks chunks).file.frames = sf.file.frames := by
  rw [setChunks_eq]
  rfl

theorem CheckOutcome.done (hc : CheckOutcome P h (.success, g)) : HeaderDone P h g := by
  cases hc with
  | failed hpending hres => exact absurd rfl hres
  | passed hpending =>
    cases hpending with
    | idle hp => exact ⟨rfl, rfl, rfl, rfl, rfl, hp, Or.inl ⟨hp, rfl⟩⟩
    | headed hp hof hok =>
      exact ⟨rfl, rfl, rfl, setChunks_frames _ _, rfl, rfl, Or.inr ⟨hp, _, hof, hok, rfl⟩⟩

theorem headerOk_of_backend (hok : ∀ k, h.sf.chunkOk k = true) (writes : List ChunkWrite) :
    h.headerOk writes = true := decide_eq_true fun _ => hok _

theorem CheckOutcome.idle {res : Err} (hok : ∀ k, h.sf.chunkOk k = true)
    (hc : CheckOutcome P h (res, g)) (hres : res ≠ .success) : g = h := by
  cases hc with
  | refused => rfl
  | passed => exact absurd rfl hres
  | failed hpending =>
    cases hpending with
    | idle => exact absurd rfl hres
    | headed => exact absurd rfl hres
    | failed hp hof hno => exact absurd (headerOk_of_backend hok _) (by rw [hno]; decide)

structure SameHeader (h h' : Handle K) : Prop where
  layout : h'.toLayout = h.toLayout
  markers : h'.markers = h.markers
  regions : h'.regions = h.regions
  started : h'.startedWriting = h.startedWriting
  pending : h'.pendingHeaders = h.pendingHeaders
  chunks : h'.sf.file.chunks = h.sf.file.chunks
  asked : h'.sf.asked = h.sf.asked

theorem SameHeader.refl (h : Handle K) : SameHeader h h := ⟨rfl, rfl, rfl, rfl, rfl, rfl, rfl⟩

omit [Field K] in
theorem sfWritef_sameHeader (sf : SndFile K) (data : Nat → K) (frames : Nat) :
    (sfWritef sf data frames).2.file.chunks = sf.file.chunks ∧
      (sfWritef sf data frames).2.asked = sf.asked := by
  unfold sfWritef
  split <;> exact ⟨rfl, rfl⟩

theorem readf_sameHeader {type : SampleType} {ambidata otherdata : Nat → K} {frames : Nat}
    {result : Except Err (Nat × Split K)}
    (hr : h.readf P type ambidata otherdata frames = .ok (result, h')) :
    SameHeader h h' ∧ h'.sf.file.frames = h.sf.file.frames := by
  obtain ⟨size, ⟨-, -, rfl⟩ | ⟨-, -, -, rfl⟩⟩ := readf_cases hr
  · exact ⟨⟨rfl, rfl, rfl, rfl, rfl, rfl, rfl⟩, rfl⟩
  · unfold sfReadf
    split <;> exact ⟨⟨rfl, rfl, rfl, rfl, rfl, rfl, rfl⟩, rfl⟩

inductive WritefOutcome (P : Platform K) (h : Handle K) : Except Err Nat × Handle K → Prop where
  | headless {res : Err} {g : Handle K} (hcheck : CheckOutcome P h (res, g))
      (hres : res ≠ .success) : WritefOutcome P h (.error res, g)
  | unbuffered {res : Err} {g h' : Handle K} (hcheck : CheckOutcome P h (.success, g))
      (hsame : SameHeader g h') (hframes : h'.sf.file.frames = g.sf.file.frames) :
      WritefOutcome P h (.error res, h')
  | written {k : Nat} {g h' : Handle K} (hcheck : CheckOutcome P h (.success, g))
      (hsame : SameHeader g h') : WritefOutcome P h (.ok k, h')

theorem writef_outcome {type : SampleType} {ambidata otherdata : Nat → K} {frames : Nat}
    {r : Except Err Nat × Handle K} (hw : HeaderWriter P h)
    (hr : h.writef P type ambidata otherdata frames = .ok r) : WritefOutcome P h r := by
  obtain ⟨result, h'⟩ := r
  obtain ⟨err, g, hg, hcases⟩ := writef_cases hr
  have hcheck := checkWrite_outcome hw hg
  obtain ⟨hres, rfl, rfl⟩ | ⟨rfl, size, ⟨e, rfl, rfl⟩ | ⟨-, -, -, rfl, rfl⟩⟩ := hcases
  · exact .headless hcheck hres
  · exact .unbuffered hcheck ⟨rfl, rfl, rfl, rfl, rfl, rfl, rfl⟩ rfl
  · obtain ⟨hchunks, hasked⟩ := sfWritef_sameHeader g.sf
      (g.merge ambidata otherdata g.adaptorbuffer frames).data frames
    exact .written hcheck ⟨rfl, rfl, rfl, rfl, rfl, hchunks, hasked⟩

end pending

/-! Calls. -/

section calls
variable {K : Type} [Field K] [LinearOrder K] {P : Platform K} {h h' : Handle K}

def acceptedMatrix : Call K → Answer K → Option (AmbixMatrix K)
  | .setAdaptormatrix A, .err .success => some A
  | _, _ => none

inductive SetsTo (h : Handle K) (A : AmbixMatrix K) : Handle K → Prop where
  | encoded {pinv : AmbixMatrix K} (hinfo : h.info.fileformat = .basic)
      (hpinv : (matrixPinv A none).ret = some pinv) :
      SetsTo h A { h with
        matrix2 := pinv
        matrix := A
        realinfo := { h.realinfo with fileformat := .extended }
        info := { h.info with ambichannels := A.rows }
        useMatrix := .matrix2
        pendingHeaders := true }
  | stored (hinfo : h.info.fileformat = .extended) :
      SetsTo h A { h with matrix := A, pendingHeaders := true }

/-- What one call on a writing handle does to the header. -/
inductive HeaderStep (P : Platform K) (h : Handle K) : Call K → Answer K → Handle K → Prop where
  | rests {call : Call K} {answer : Answer K} {h' : Handle K} (hsame : SameHeader h h')
      (hframes : h'.sf.file.frames = h.sf.file.frames)
      (hmatrix : acceptedMatrix call answer = none)
      (hanswer : ∀ result, answer ≠ .written result) : HeaderStep P h call answer h'
  | added {call : Call K} {answer : Answer K} {markers : List Marker} {regions : List Region}
      (hstarted : h.startedWriting = false) (hmatrix : acceptedMatrix call answer = none)
      (hanswer : ∀ result, answer ≠ .written result) :
      HeaderStep P h call answer
        { h with markers := markers, regions := regions, pendingHeaders := true }
  | deletedMarkers (hne : h.markers ≠ []) :
      HeaderStep P h .deleteMarkers (.err .success) { h with markers := [] }
  | deletedRegions (hne : h.regions ≠ []) :
      HeaderStep P h .deleteRegions (.err .success) { h with regions := [] }
  | set {A : AmbixMatrix K} {h' : Handle K} (hstarted : h.startedWriting = false)
      (hset : SetsTo h A h') : HeaderStep P h (.setAdaptormatrix A) (.err .success) h'
  | writef {type : SampleType} {ambidata otherdata : Nat → K} {frames : Nat}
      {result : Except Err Nat} {h' : Handle K} (hout : WritefOutcome P h (result, h')) :
      HeaderStep P h (.writef type ambidata otherdata frames) (.written result) h'

theorem addMarker_step (marker : Option Marker) :
    HeaderStep P h (.addMarker marker) (.err (h.addMarker marker).1) (h.addMarker marker).2 := by
  cases hstarted : h.startedWriting with
  | true =>
    unfold Handle.addMarker
    rw [if_pos hstarted]
    exact .rests (SameHeader.refl h) rfl rfl nofun
  | false =>
    unfold Handle.addMarker
    rw [if_neg (by rw [hstarted]; decide)]
    cases marker with
    | none => exact .rests (SameHeader.refl h) rfl rfl nofun
    | some marker => exact .added hstarted rfl nofun

theorem addRegion_step (region : Option Region) :
    HeaderStep P h (.addRegion region) (.err (h.addRegion region).1) (h.addRegion region).2 := by
  cases hstarted : h.startedWriting with
  | true =>
    unfold Handle.addRegion
    rw [if_pos hstarted]
    exact .rests (SameHeader.refl h) rfl rfl nofun
  | false =>
    unfold Handle.addRegion
    rw [if_neg (by rw [hstarted]; decide)]
    cases region with
    | none => exact .rests (SameHeader.refl h) rfl rfl nofun
    | some region => exact .added hstarted rfl nofun

theorem deleteMarkers_step :
    HeaderStep P h .deleteMarkers (.err h.deleteMarkers.1) h.deleteMarkers.2 := by
  by_cases hnil : h.markers = []
  · rw [Handle.deleteMarkers, if_pos hnil]
    exact .rests (SameHeader.refl h) rfl rfl nofun
  · rw [Handle.deleteMarkers, if_neg hnil]
    exact .deletedMarkers hnil

theorem deleteRegions_step :
    HeaderStep P h .deleteRegions (.err h.deleteRegions.1) h.deleteRegions.2 := by
  by_cases hnil : h.regions = []
  · rw [Handle.deleteRegions, if_pos hnil]
    exact .rests (SameHeader.refl h) rfl rfl nofun
  · rw [Handle.deleteRegions, if_neg hnil]
    exact .deletedRegions hnil

theorem setAdaptormatrix_started (hmode : h.filemode = .write)
    (hstarted : h.startedWriting = true) (A : AmbixMatrix K) :
    h.setAdaptormatrix A = (.unknown, h) := by
  have hread : ¬ (h.filemode.canRead = true ∧ h.info.fileformat = .basic) := by
    rw [hmode]
    exact fun hr => absurd hr.1 (by decide)
  have hwrite : h.filemode.canWrite = true := by
    rw [hmode]
    rfl
  rw [Handle.setAdaptormatrix, if_neg hread, if_pos hwrite, if_pos hstarted, ite_self]

theorem setAdaptormatrix_step (hmode : h.filemode = .write) (A : AmbixMatrix K) :
    HeaderStep P h (.setAdaptormatrix A) (.err (h.setAdaptormatrix A).1)
      (h.setAdaptormatrix A).2 := by
  cases hstarted : h.startedWriting with
  | true =>
    rw [setAdaptormatrix_started hmode hstarted]
    exact .rests (SameHeader.refl h) rfl rfl nofun
  | false =>
    have hout := setAdaptormatrix_outcome h A
    have hnoread : ¬ h.filemode.canRead = true := by
      rw [hmode]
      decide
    generalize h.setAdaptormatrix A = r at hout
    cases hout with
    | @refused err herr hcols =>
      refine .rests (SameHeader.refl h) rfl ?_ nofun
      cases err with
      | success => exact absurd rfl herr
      | _ => rfl
    | multiplied hread => exact absurd hread hnoread
    | fellThrough hread => exact absurd hread hnoread
    | encoded hread hwrite hinfo hfull hcols hpinv => exact .set hstarted (.encoded hinfo hpinv)
    | stored hwrite hinfo hfull => exact .set hstarted (.stored hinfo)

/-- Every call on a writing handle is one of these steps. -/
theorem run_headerStep (hw : HeaderWriter P h) {call : Call K} {answer : Answer K}
    (hcall : call.run P h = .ok (answer, h')) : HeaderStep P h call answer h' := by
  cases call with
  | seek position =>
    obtain ⟨rfl, rfl⟩ := Prod.mk.inj (Except.ok.inj hcall)
    exact .rests ⟨rfl, rfl, rfl, rfl, rfl, rfl, rfl⟩ rfl rfl nofun
  | addMarker marker =>
    obtain ⟨rfl, rfl⟩ := Prod.mk.inj (Except.ok.inj hcall)
    exact addMarker_step marker
  | addRegion region =>
    obtain ⟨rfl, rfl⟩ := Prod.mk.inj (Except.ok.inj hcall)
    exact addRegion_step region
  | deleteMarkers =>
    obtain ⟨rfl, rfl⟩ := Prod.mk.inj (Except.ok.inj hcall)
    exact deleteMarkers_step
  | deleteRegions =>
    obtain ⟨rfl, rfl⟩ := Prod.mk.inj (Except.ok.inj hcall)
    exact deleteRegions_step
  | setAdaptormatrix matrix =>
    obtain ⟨rfl, rfl⟩ := Prod.mk.inj (Except.ok.inj hcall)
    exact setAdaptormatrix_step hw.mode matrix
  | readf type ambidata otherdata frames =>
    obtain ⟨⟨result, g⟩, hg, hcall⟩ := bind_eq_ok.mp hcall
    obtain ⟨rfl, rfl⟩ := Prod.mk.inj (Except.ok.inj hcall)
    obtain ⟨hsame, hframes⟩ := readf_sameHeader hg
    exact .rests hsame hframes rfl nofun
  | writef type ambidata otherdata frames =>
    obtain ⟨⟨result, g⟩, hg, hcall⟩ := bind_eq_ok.mp hcall
    obtain ⟨rfl, rfl⟩ := Prod.mk.inj (Except.ok.inj hcall)
    exact .writef (writef_outcome hw hg)

end calls
end Ambix
