import Ambix.MarkerRegionRoundTrip
import Ambix.OneHeader

/-! Markers and regions on their way into the file: what the chunks of a header say about
them, in every order of calls and with every way the backend can answer. -/
namespace Ambix
open Machine

/-- What the library reads from these chunks, on any host. -/
def Describes (order : ByteOrder) (chunks : List Chunk) (markers : List Marker)
    (regions : List Region) : Prop :=
  ∀ reader fuel, chunks.length < fuel →
    readMarkersregions reader (decide (reader ≠ order)) (chunksOf .strg chunks)
      (chunksOf .mark chunks) (chunksOf .regn chunks) fuel = .ok (markers, regions)

theorem describes_nil (order : ByteOrder) : Describes order [] [] [] := by
  intro reader fuel hfuel
  cases fuel with
  | zero => exact absurd hfuel (Nat.not_lt_zero _)
  | succ fuel => rfl

theorem Describes.unique {order : ByteOrder} {chunks : List Chunk} {ms ns : List Marker}
    {rs ss : List Region} (h : Describes order chunks ms rs) (h' : Describes order chunks ns ss) :
    ms = ns ∧ rs = ss := by
  have heq := (h order _ (Nat.lt_succ_self _)).symm.trans (h' order _ (Nat.lt_succ_self _))
  exact Prod.mk.inj (Except.ok.inj heq)

theorem chunksOf_writes (id : ChunkId) (writes : List ChunkWrite) :
    chunksOf id (writes.map ChunkWrite.chunk) = stored id writes := by
  rw [chunksOf, stored, List.filter_map, List.map_map]
  rfl

section header
variable {K : Type} [Field K] {P : Platform K} {h : Handle K} {writes : List ChunkWrite}

def Countable (h : Handle K) : Prop := h.markers.length+h.regions.length < 2^32

theorem chunksOf_headerChunks {id : ChunkId} (hid : id ≠ .uuid) :
    chunksOf id (h.headerChunks P writes) = stored id writes := by
  have hnone : (List.filter (fun c : Chunk => c.id = id)
      [⟨.uuid, uuid1Bytes h.sf.file.order P.word h.matrix⟩]) = [] := by
    exact List.filter_cons_of_neg fun heq => hid (of_decide_eq_true heq).symm
  rw [Handle.headerChunks, chunksOf, List.filter_append, List.map_append, ← chunksOf,
    chunksOf_writes]
  split
  · rw [hnone, List.map_nil, List.append_nil]
  · rw [List.filter_nil, List.map_nil, List.append_nil]

/-- A header that is stored as a whole says what the handle holds. -/
theorem HeaderOf.describes (hof : HeaderOf P h writes) (hw : HeaderWriter P h)
    (hcount : Countable h) :
    Describes h.sf.file.order (h.headerChunks P writes) h.markers h.regions := by
  intro reader fuel hfuel
  have hwrite := hof.chunks
  rw [hw.swap] at hwrite
  rw [chunksOf_headerChunks (by decide), chunksOf_headerChunks (by decide),
    chunksOf_headerChunks (by decide)]
  refine readMarkersregions_written hwrite hcount (Nat.lt_of_le_of_lt ?_ hfuel)
  rw [← chunksOf_headerChunks (P := P) (h := h) (by decide), chunksOf, List.length_map]
  exact List.length_filter_le _ _

end header

/-! A backend that does not fail. -/

section follow
variable {K : Type} [Field K] [LinearOrder K] {P : Platform K} {disk : Disk K} {info : Info}
  {h h' h0 : Handle K} {call : Call K} {answer : Answer K}
  {events : List (Event (Handle K) (Call K) (Answer K))}

/-- While nothing is pending the chunks in the file say what the handle holds. -/
def Follows (h : Handle K) : Prop :=
  h.pendingHeaders = false → Describes h.sf.file.order h.sf.file.chunks h.markers h.regions

/-- Markers and regions are deleted before writing starts, if there are any; a header is
written while their number can be told. -/
structure InTime (e : Event (Handle K) (Call K) (Answer K)) : Prop where
  markers : e.call = .deleteMarkers → e.state.startedWriting = false ∨ e.state.markers = []
  regions : e.call = .deleteRegions → e.state.startedWriting = false ∨ e.state.regions = []
  count : IsWritef e.call → e.state.pendingHeaders = true → Countable e.state

omit [LinearOrder K] in
/-- Before writing starts nothing is described, and nothing held unless it is pending. -/
theorem Follows.untouched (hf : Follows h) (hb : Begun h) (hstarted : h.startedWriting = false)
    (hpending : h.pendingHeaders = false) : h.markers = [] ∧ h.regions = [] := by
  have hdesc := hf hpending
  rw [(hb.untouched hstarted).2.1] at hdesc
  exact hdesc.unique (describes_nil _)

theorem Follows.run (hf : Follows h) (hw : Writes P h) (hcall : call.run P h = .ok (answer, h'))
    (htime : InTime ⟨h, call, answer⟩) : Follows h' := by
  have horder := (run_sameFile hcall).order
  cases run_headerStep hw.toHeaderWriter hcall with
  | rests hsame =>
    intro hp
    rw [horder, hsame.chunks, hsame.markers, hsame.regions]
    exact hf (hsame.pending.symm.trans hp)
  | added => exact fun hp => by cases hp
  | deletedMarkers hne =>
    intro hp
    cases htime.markers rfl with
    | inl hstarted => exact absurd (hf.untouched hw.toBegun hstarted hp).1 hne
    | inr hnil => exact absurd hnil hne
  | deletedRegions hne =>
    intro hp
    cases htime.regions rfl with
    | inl hstarted => exact absurd (hf.untouched hw.toBegun hstarted hp).2 hne
    | inr hnil => exact absurd hnil hne
  | set hstarted hset => cases hset <;> exact fun hp => by cases hp
  | writef hout =>
    cases writef_working hw.backend hout with
    | inl hidle =>
      rw [hidle.1]
      exact hf
    | inr hdone =>
      obtain ⟨g, hd, hsame, -⟩ := hdone
      intro _
      rw [horder, hsame.chunks, hsame.markers, hd.markers, hsame.regions, hd.regions]
      cases hpending : h.pendingHeaders with
      | false =>
        cases hd.handed with
        | inl hkept =>
          rw [hkept.2]
          exact hf hpending
        | inr hnew => exact absurd (hpending.symm.trans hnew.1) (by decide)
      | true =>
        cases hd.chunks hw with
        | inl hkept => exact absurd (hpending.symm.trans hkept.1) (by decide)
        | inr hnew =>
          obtain ⟨-, writes, hof, hchunks⟩ := hnew
          rw [hchunks]
          exact hof.describes hw.toHeaderWriter (htime.count ⟨_, _, _, _, rfl⟩ hpending)

theorem session_follows (hopen : ambixOpen P disk .write info = .ok (some h0))
    (hok : ∀ k, disk.chunkOk k = true) (hrun : Session P h0 events h)
    (hmem : ∀ e ∈ events, BringsAddressable e) (htime : ∀ e ∈ events, InTime e) : Follows h := by
  refine (hrun.invariant_of (fun e => BringsAddressable e ∧ InTime e)
    (fun _ h => Writes P h ∧ Follows h) (fun e he => ⟨hmem e he, htime e he⟩)
    ⟨ambixOpen_writes hopen hok, fun _ => ?_⟩ fun _ _ _ _ _ hcall he hh => ?_).2
  · have hj := ambixOpen_justOpened hopen
    rw [hj.chunks, hj.markers, hj.regions]
    exact describes_nil _
  · exact ⟨hh.1.run hcall he.1, hh.2.run hh.1 hcall he.2⟩

/-- In a run that deletes nothing after writing has started, the file follows the handle, and
closing leaves what the handle holds then. -/
theorem markers_follow (hopen : ambixOpen P disk .write info = .ok (some h0))
    (hok : ∀ k, disk.chunkOk k = true) (hrun : Session P h0 events h)
    (hmem : ∀ e ∈ events, ∀ A, e.call = .setAdaptormatrix A → Addressable A)
    (htime : ∀ e ∈ events, InTime e) :
    (h.pendingHeaders = false →
      Describes h.sf.file.order h.sf.file.chunks h.markers h.regions) ∧
    (Countable h → ∀ r, h.close P = .ok r →
      Describes r.2.order r.2.chunks h.markers h.regions) := by
  have hf := session_follows hopen hok hrun hmem htime
  have hw := session_writes hopen hok hrun hmem
  refine ⟨hf, fun hcount r hr => ?_⟩
  cases (close_working hw hr).2 with
  | inl hkept =>
    rw [hkept.2]
    exact hf hkept.1
  | inr hnew =>
    obtain ⟨-, horder, writes, hof, hchunks⟩ := hnew
    rw [horder, hchunks]
    exact hof.describes hw.toHeaderWriter hcount

end follow
/-! A BASIC file with one marker. -/

def oneMarker : Marker := ⟨5, nameA⟩

theorem marked_session {disk : Disk ℚ} {info : Info} {h0 : Handle ℚ}
    (hopen : ambixOpen unitPlatform disk .write info = .ok (some h0))
    (hreal : h0.realinfo.fileformat = .basic) (hraw : h0.useMatrix = .none)
    (hcounted : Counted h0) : ∃ (h1 h2 : Handle ℚ) (k : Nat),
    Call.run unitPlatform h0 (.addMarker (some oneMarker)) = .ok (.err .success, h1) ∧
    Call.run unitPlatform h1 (.writef .float32 (fun _ => 1) (fun _ => 0) 1) =
      .ok (.written (.ok k), h2) ∧
    h1.markers = [oneMarker] ∧ h1.regions = [] ∧ h2.markers = [oneMarker] := by
  have hj := ambixOpen_justOpened hopen
  have hadd : Call.run unitPlatform h0 (.addMarker (some oneMarker)) =
      .ok (.err .success, { h0 with markers := [oneMarker], pendingHeaders := true }) := by
    rw [Call.run, Handle.addMarker.eq_def, if_neg (by rw [hj.started]; decide), hj.markers]
    rfl
  have hw := hj.toHeaderWriter.run hadd fun A hA => by cases hA
  obtain ⟨writes, hwrite, hin⟩ := markersregionsChunks_inside unitPlatform.host h0.byteswap
    (by rw [hj.regions]; decide : namesSize (allNames [oneMarker] h0.regions) ≤ 256)
  obtain ⟨g, hcheck⟩ := checkWrite_of_headerOf hw
    (fun hguard => absurd (hreal.symm.trans hguard.1) (by decide)) ⟨hwrite, hin⟩
    (fun hext => absurd (hreal.symm.trans hext) (by decide))
    (decide_eq_true fun hext => absurd (hreal.symm.trans hext) (by decide))
  obtain ⟨k, h2, hwritef⟩ := writef_of_checkWrite hcheck (fun _ => rfl) (takes_raw hraw)
    (Nat.add_le_add (Nat.le_max_left _ _) (Nat.le_max_left _ _))
    ⟨hcounted.covered, hcounted.unwrapped⟩ ⟨.float32, fun _ => 1, fun _ => 0, 1⟩
    (bytes_lt hcounted.unwrapped (by decide) .float32)
  have hkept : h2.markers = [oneMarker] := by
    obtain ⟨g', size, hcheck', -, rfl⟩ := writef_ok hwritef
    obtain ⟨chunks, asked, pending, started, rfl⟩ := checkWrite_frame hcheck'
    rfl
  refine ⟨_, h2, k, hadd, ?_, rfl, hj.regions, hkept⟩
  rw [Call.run, hwritef]
  rfl

theorem unitDisk_basic : ∃ h0 : Handle ℚ,
    ambixOpen unitPlatform (unitDisk none) .write ⟨.basic, 0, 1⟩ = .ok (some h0) ∧
    h0.realinfo.fileformat = .basic ∧ h0.useMatrix = .none ∧ Counted h0 :=
  ⟨_, rfl, by rfl, by rfl, counted_stored rfl rfl rfl (by decide)⟩

def markedEvents (h0 h1 : Handle ℚ) (k : Nat) : List (Event (Handle ℚ) (Call ℚ) (Answer ℚ)) :=
  [⟨h0, .addMarker (some oneMarker), .err .success⟩,
    ⟨h1, .writef .float32 (fun _ => 1) (fun _ => 0) 1, .written (.ok k)⟩]

theorem markedEvents_inTime (h0 : Handle ℚ) {h1 : Handle ℚ} (k : Nat)
    (hmarkers : h1.markers = [oneMarker]) (hregions : h1.regions = []) :
    ∀ e ∈ markedEvents h0 h1 k, BringsAddressable e ∧ InTime e := by
  refine List.forall_mem_cons.mpr ⟨⟨nofun, nofun, nofun, nofun⟩,
    List.forall_mem_singleton.mpr ⟨nofun, nofun, nofun, fun _ _ => ?_⟩⟩
  rw [Countable, hmarkers, hregions]
  decide

/-- One marker and one frame. -/
theorem markers_follow_marked : ∃ (h0 h : Handle ℚ)
      (events : List (Event (Handle ℚ) (Call ℚ) (Answer ℚ))),
    ambixOpen unitPlatform (unitDisk none) .write ⟨.basic, 0, 1⟩ = .ok (some h0) ∧
    Session unitPlatform h0 events h ∧ events.length = 2 ∧
    (h.pendingHeaders = false →
      Describes h.sf.file.order h.sf.file.chunks h.markers h.regions) ∧
    (Countable h → ∀ r, h.close unitPlatform = .ok r →
      Describes r.2.order r.2.chunks h.markers h.regions) := by
  obtain ⟨h0, hopen, hreal, hraw, hcounted⟩ := unitDisk_basic
  obtain ⟨h1, h2, k, hadd, hwrite, hmarkers, hregions, -⟩ :=
    marked_session hopen hreal hraw hcounted
  have hrun : Session unitPlatform h0 (markedEvents h0 h1 k) h2 := .call (.call .start hadd) hwrite
  have htime := markedEvents_inTime h0 k hmarkers hregions
  exact ⟨h0, h2, _, hopen, hrun, rfl, markers_follow hopen (fun _ => rfl) hrun
    (fun e he => (htime e he).1) fun e he => (htime e he).2⟩

/-- Deleted after the first frame, the marker stays in the file. -/
theorem markers_follow_fails : ∃ (h0 h : Handle ℚ)
      (events : List (Event (Handle ℚ) (Call ℚ) (Answer ℚ))),
    ambixOpen unitPlatform (unitDisk none) .write ⟨.basic, 0, 1⟩ = .ok (some h0) ∧
    Session unitPlatform h0 events h ∧ h.pendingHeaders = false ∧
    ¬ Describes h.sf.file.order h.sf.file.chunks h.markers h.regions ∧
    ∃ r, h.close unitPlatform = .ok r ∧ ¬ Describes r.2.order r.2.chunks h.markers h.regions := by
  obtain ⟨h0, hopen, hreal, hraw, hcounted⟩ := unitDisk_basic
  obtain ⟨h1, h2, k, hadd, hwrite, hmarkers, hregions, hheld⟩ :=
    marked_session hopen hreal hraw hcounted
  have hrun : Session unitPlatform h0 (markedEvents h0 h1 k) h2 := .call (.call .start hadd) hwrite
  have htime := markedEvents_inTime h0 k hmarkers hregions
  have hmem (e) (he : e ∈ markedEvents h0 h1 k) := (htime e he).1
  have hf := session_follows hopen (fun _ => rfl) hrun hmem fun e he => (htime e he).2
  have hw := session_writes hopen (fun _ => rfl) hrun hmem
  have hstarted : h2.startedWriting = true :=
    ((session_handedOnce hopen (fun _ => rfl) hrun hmem).written _
      (List.mem_cons_of_mem _ List.mem_cons_self) ⟨⟨_, _, _, _, rfl⟩, k, rfl⟩).1
  have hpending := hw.started hstarted
  have hdelete : Call.run unitPlatform h2 .deleteMarkers =
      .ok (.err .success, { h2 with markers := [] }) := by
    rw [Call.run, Handle.deleteMarkers, if_neg (by rw [hheld]; decide)]
  have hlost : ¬ Describes h2.sf.file.order h2.sf.file.chunks [] h2.regions := fun hdesc => by
    have heq := (hdesc.unique (hf hpending)).1
    rw [hheld] at heq
    cases heq
  have hw' := hw.run hdelete fun A hset => by cases hset
  exact ⟨h0, _, _, hopen, .call hrun hdelete, hpending, hlost, _, hw'.close_started hstarted,
    hlost⟩

/-! A backend that fails. -/

section retry
variable {K : Type} [Field K] [LinearOrder K] {P : Platform K} {disk : Disk K} {info : Info}
  {h h' g h0 h1 : Handle K} {call : Call K} {answer : Answer K} {writes : List ChunkWrite}
  {events setup : List (Event (Handle K) (Call K) (Answer K))}

def Handle.headerWrites (h : Handle K) : Nat :=
  (if h.markers = [] ∧ h.regions = [] then 0 else 3)+
    if h.realinfo.fileformat = .extended then 1 else 0

/-- The backend stores all chunks of the header. -/
def Stores (h : Handle K) : Prop :=
  ∀ k < h.headerWrites, h.sf.chunkOk (h.sf.asked+k) = true

/-- The backend stores none of them, and that is noticed, as the last one is looked at. -/
def Loses (h : Handle K) : Prop :=
  h.realinfo.fileformat = .extended ∧ ∀ k < h.headerWrites, h.sf.chunkOk (h.sf.asked+k) = false

omit [LinearOrder K] in
theorem HeaderOf.length (hof : HeaderOf P h writes) (hcount : Countable h) :
    writes.length = if h.markers = [] ∧ h.regions = [] then 0 else 3 := by
  have hwrite := hof.chunks
  by_cases hnil : h.markers = [] ∧ h.regions = []
  · rw [if_pos hnil]
    rw [hnil.1, hnil.2] at hwrite
    rw [← Except.ok.inj hwrite]
    rfl
  · have hne : 0 < h.markers.length+h.regions.length := by
      by_contra hzero
      exact hnil ⟨List.length_eq_zero_iff.mp (by omega), List.length_eq_zero_iff.mp (by omega)⟩
    rw [if_neg hnil]
    rw [markersregionsChunks, if_neg (count_ne_zero hne hcount)] at hwrite
    obtain ⟨s, -, hwrite⟩ := bind_eq_ok.mp hwrite
    obtain ⟨⟨mark, s₁⟩, -, hwrite⟩ := bind_eq_ok.mp hwrite
    obtain ⟨⟨regn, s₂⟩, -, hwrite⟩ := bind_eq_ok.mp hwrite
    rw [← Except.ok.inj hwrite]
    rfl

omit [LinearOrder K] in
theorem HeaderOf.headerWrites (hof : HeaderOf P h writes) (hcount : Countable h) :
    (h.headerChunks P writes).length = h.headerWrites := by
  rw [Handle.headerChunks, List.length_append, List.length_map, hof.length hcount,
    Handle.headerWrites]
  split <;> split <;> rfl

omit [LinearOrder K] in
theorem Loses.headerOk (hlost : Loses h) (hof : HeaderOf P h writes) (hcount : Countable h) :
    h.headerOk writes = false := by
  refine decide_eq_false fun hok => ?_
  have hlast := hlost.2 writes.length (by
    rw [← hof.headerWrites hcount, Handle.headerChunks, if_pos hlost.1]
    simp)
  rw [hok hlost.1] at hlast
  cases hlast

omit [LinearOrder K] in
theorem Stores.headerOk (hstored : Stores h) (hof : HeaderOf P h writes) (hcount : Countable h) :
    h.headerOk writes = true := by
  refine decide_eq_true fun hext => hstored writes.length ?_
  rw [← hof.headerWrites hcount, Handle.headerChunks, if_pos hext]
  simp

omit [LinearOrder K] in
theorem Stores.chunks (hstored : Stores h) (hof : HeaderOf P h writes) (hcount : Countable h) :
    (h.handOver P writes).sf.file.chunks = h.sf.file.chunks ++ h.headerChunks P writes := by
  rw [Handle.handOver, setChunks_eq, storedChunks_all]
  · rfl
  · rw [hof.headerWrites hcount]
    exact hstored

omit [LinearOrder K] in
theorem Loses.chunks (hlost : Loses h) (hof : HeaderOf P h writes) (hcount : Countable h) :
    (h.handOver P writes).sf.file.chunks = h.sf.file.chunks := by
  rw [Handle.handOver, setChunks_eq, storedChunks_none, List.append_nil]
  · rfl
  · rw [hof.headerWrites hcount]
    exact hlost.2

/-! Everything before the first request. -/

structure Prepared (P : Platform K) (events : List (Event (Handle K) (Call K) (Answer K)))
    (h : Handle K) : Prop extends HeaderWriter P h where
  consistent : Consistent h.toLayout
  started : h.startedWriting = false
  chunks : h.sf.file.chunks = []
  idle : h.pendingHeaders = false → h.markers = [] ∧ h.regions = [] ∧ lastAccepted events = none
  matrix : ∀ M, lastAccepted events = some M → h.matrix = M ∧ h.realinfo.fileformat = .extended

theorem Prepared.run (hp : Prepared P events h) (hcall : call.run P h = .ok (answer, h'))
    (hmem : BringsAddressable ⟨h, call, answer⟩) (hno : ¬ IsWritef call) :
    Prepared P (events ++ [⟨h, call, answer⟩]) h' := by
  have hw := hp.toHeaderWriter.run hcall hmem
  have hc := consistent_run hcall hp.consistent
  cases run_headerStep hp.toHeaderWriter hcall with
  | rests hsame hframes hnone =>
    refine { hw with
      consistent := hc
      started := hsame.started.trans hp.started
      chunks := hsame.chunks.trans hp.chunks
      idle := ?_
      matrix := ?_ }
    · rw [lastAccepted_keep hnone, hsame.pending, hsame.markers, hsame.regions]
      exact hp.idle
    · rw [lastAccepted_keep hnone, hsame.layout]
      exact hp.matrix
  | added hstarted hnone =>
    refine { hw with
      consistent := hc, started := hp.started, chunks := hp.chunks, idle := nofun, matrix := ?_ }
    rw [lastAccepted_keep hnone]
    exact hp.matrix
  | deletedMarkers hne =>
    refine { hw with
      consistent := hc, started := hp.started, chunks := hp.chunks, idle := ?_, matrix := ?_ }
    · exact fun hidle => absurd (hp.idle hidle).1 hne
    · rw [lastAccepted_keep rfl]
      exact hp.matrix
  | deletedRegions hne =>
    refine { hw with
      consistent := hc, started := hp.started, chunks := hp.chunks, idle := ?_, matrix := ?_ }
    · exact fun hidle => absurd (hp.idle hidle).2.1 hne
    · rw [lastAccepted_keep rfl]
      exact hp.matrix
  | set hstarted hset =>
    cases hset with
    | encoded =>
      refine { hw with
        consistent := hc, started := hp.started, chunks := hp.chunks, idle := nofun, matrix := ?_ }
      rw [lastAccepted_set rfl]
      exact fun M hM => ⟨Option.some.inj hM, rfl⟩
    | stored hinfo =>
      refine { hw with
        consistent := hc, started := hp.started, chunks := hp.chunks, idle := nofun, matrix := ?_ }
      rw [lastAccepted_set rfl]
      exact fun M hM => ⟨Option.some.inj hM, hp.consistent.writeExtended hp.canWrite hinfo⟩
  | writef => exact absurd ⟨_, _, _, _, rfl⟩ hno

theorem session_prepared (hopen : ambixOpen P disk .write info = .ok (some h0))
    (hrun : Session P h0 setup h1) (hmem : ∀ e ∈ setup, BringsAddressable e)
    (hno : ∀ e ∈ setup, ¬ IsWritef e.call) : Prepared P setup h1 := by
  refine hrun.invariant_of (fun e => BringsAddressable e ∧ ¬ IsWritef e.call) (Prepared P)
    (fun e he => ⟨hmem e he, hno e he⟩) ?_ fun _ _ _ _ _ hcall he hp => hp.run hcall he.1 he.2
  have hj := ambixOpen_justOpened hopen
  exact { hj.toHeaderWriter with
    consistent := consistent_open hopen
    started := hj.started
    chunks := hj.chunks
    idle := fun _ => ⟨hj.markers, hj.regions, rfl⟩
    matrix := nofun }

/-! Requests that try to write the header, and the last try when the file is closed. -/

/-- Between `h1` and `h` there were only tries: the header is still to come, or in the file. -/
structure Retried (P : Platform K) (h1 h : Handle K) : Prop where
  layout : h.toLayout = h1.toLayout
  markers : h.markers = h1.markers
  regions : h.regions = h1.regions
  pending : h.pendingHeaders = true → h.sf.file.chunks = []
  done : h.pendingHeaders = false → (h1.pendingHeaders = false ∧ h.sf.file.chunks = []) ∨
    ∃ writes, HeaderOf P h1 writes ∧ h.sf.file.chunks = h1.headerChunks P writes

omit [LinearOrder K] in
theorem Retried.headerOf (hr : Retried P h1 h) (hsame : SameFile h1 h) (hof : HeaderOf P h writes) :
    HeaderOf P h1 writes ∧ h.headerChunks P writes = h1.headerChunks P writes := by
  have hwrite := hof.chunks
  rw [hsame.byteswap, hr.markers, hr.regions] at hwrite
  refine ⟨⟨hwrite, hof.inside⟩, ?_⟩
  rw [Handle.headerChunks, Handle.headerChunks, hr.layout, hsame.order]

omit [LinearOrder K] in
theorem Retried.tried (hr : Retried P h1 h) (hsame : SameFile h1 h) (hcount : Countable h)
    (htry : h.pendingHeaders = true → Stores h ∨ Loses h) {res : Err}
    (hout : PendingOutcome P h (res, g)) : Retried P h1 g := by
  cases hout with
  | idle => exact hr
  | headed hp hof hok =>
    obtain ⟨hof₁, hchunks⟩ := hr.headerOf hsame hof
    refine ⟨hr.layout, hr.markers, hr.regions, nofun, fun _ => Or.inr ⟨_, hof₁, ?_⟩⟩
    cases htry hp with
    | inl hstored =>
      have hfile := hstored.chunks hof hcount
      rw [hr.pending hp, List.nil_append, hchunks] at hfile
      exact hfile
    | inr hlost => exact absurd hok (by rw [hlost.headerOk hof hcount]; decide)
  | failed hp hof hno =>
    refine ⟨hr.layout, hr.markers, hr.regions, fun _ => ?_, fun hd => absurd hd (by
      rw [Handle.handOver, hp]; decide)⟩
    cases htry hp with
    | inl hstored => exact absurd (hstored.headerOk hof hcount) (by rw [hno]; decide)
    | inr hlost => exact (hlost.chunks hof hcount).trans (hr.pending hp)

omit [LinearOrder K] in
theorem Retried.same (hr : Retried P h1 g) (hsame : SameHeader g h') : Retried P h1 h' := by
  refine ⟨hsame.layout.trans hr.layout, hsame.markers.trans hr.markers,
    hsame.regions.trans hr.regions, fun hp => ?_, fun hd => ?_⟩
  · exact hsame.chunks.trans (hr.pending (hsame.pending.symm.trans hp))
  · rw [hsame.chunks]
    exact hr.done (hsame.pending.symm.trans hd)

omit [LinearOrder K] in
theorem Retried.writef (hr : Retried P h1 h) (hsame : SameFile h1 h) (hcount : Countable h)
    (htry : h.pendingHeaders = true → Stores h ∨ Loses h) {result : Except Err Nat}
    (hout : WritefOutcome P h (result, h')) : Retried P h1 h' := by
  have hpassed {g : Handle K} (hcheck : CheckOutcome P h (.success, g)) : Retried P h1 g := by
    cases hcheck with
    | passed hpending =>
      have ht := hr.tried hsame hcount htry hpending
      exact ⟨ht.layout, ht.markers, ht.regions, ht.pending, ht.done⟩
    | failed _ hres => exact absurd rfl hres
  cases hout with
  | headless hcheck hres =>
    cases hcheck with
    | refused => exact hr
    | passed => exact absurd rfl hres
    | failed hpending => exact hr.tried hsame hcount htry hpending
  | unbuffered hcheck hs => exact (hpassed hcheck).same hs
  | written hcheck hs => exact (hpassed hcheck).same hs

structure HoldsHeader (P : Platform K) (setup : List (Event (Handle K) (Call K) (Answer K)))
    (h1 : Handle K) (file : SoundFile K) : Prop where
  annotations : Describes file.order file.chunks h1.markers h1.regions
  matrix : ∀ M, lastAccepted setup = some M →
    chunksOf .uuid file.chunks = [uuid1Bytes file.order P.word M]

omit [LinearOrder K] in
theorem Retried.holds (hr : Retried P h1 h) (hp : Prepared P setup h1)
    (horder : h.sf.file.order = h1.sf.file.order) (hcount : Countable h1)
    (hdone : h.pendingHeaders = false) : HoldsHeader P setup h1 h.sf.file := by
  cases hr.done hdone with
  | inl hnone =>
    obtain ⟨hmarkers, hregions, hmatrix⟩ := hp.idle hnone.1
    refine ⟨?_, fun M hM => ?_⟩
    · rw [hnone.2, hmarkers, hregions]
      exact describes_nil _
    · rw [hmatrix] at hM
      cases hM
  | inr hheld =>
    obtain ⟨writes, hof, hchunks⟩ := hheld
    refine ⟨?_, fun M hM => ?_⟩
    · rw [hchunks, horder]
      exact hof.describes hp.toHeaderWriter hcount
    · obtain ⟨hmatrix, hext⟩ := hp.matrix M hM
      rw [hchunks, horder, hof.uuid, if_pos hext, hmatrix]

/-- Every try of a request stores the whole header or, in an EXTENDED file, nothing of it. -/
def TriesWell (e : Event (Handle K) (Call K) (Answer K)) : Prop :=
  IsWritef e.call ∧ (e.state.pendingHeaders = true → Stores e.state ∨ Loses e.state)

theorem session_retried (hp : Prepared P setup h1) (hrun : Session P h1 events h)
    (hcount : Countable h1) (htries : ∀ e ∈ events, TriesWell e) :
    HeaderWriter P h ∧ SameFile h1 h ∧ Retried P h1 h := by
  refine hrun.invariant_of TriesWell
    (fun _ h => HeaderWriter P h ∧ SameFile h1 h ∧ Retried P h1 h) htries
    ⟨hp.toHeaderWriter, SameFile.refl h1, rfl, rfl, rfl, fun _ => hp.chunks,
      fun hd => Or.inl ⟨hd, hp.chunks⟩⟩ ?_
  rintro events h call answer h' hcall ⟨⟨type, ambidata, otherdata, frames, rfl⟩, htry⟩
    ⟨hw, hsame, hr⟩
  refine ⟨hw.run hcall nofun, hsame.trans (run_sameFile hcall), ?_⟩
  have hcount' : Countable h := by
    rw [Countable, hr.markers, hr.regions]
    exact hcount
  obtain ⟨⟨result, g⟩, hg, hcall⟩ := bind_eq_ok.mp hcall
  rw [← answered_state hcall]
  exact hr.writef hsame hcount' htry (writef_outcome hw hg)

/-- If closing and the last request before it report success, the file holds the header. -/
def KeepsHeader (P : Platform K) (setup : List (Event (Handle K) (Call K) (Answer K)))
    (h1 : Handle K) (events : List (Event (Handle K) (Call K) (Answer K))) (h : Handle K) : Prop :=
  (∀ e, events.getLast? = some e → HandsFrames e) →
    ∀ file, h.close P = .ok (.success, file) → HoldsHeader P setup h1 file

/-- Header data is neither lost nor duplicated as long as no try stores a part of it, and
none is lost in a try whose result nobody looks at. -/
theorem header_kept (hopen : ambixOpen P disk .write info = .ok (some h0))
    (hsetup : Session P h0 setup h1)
    (hmem : ∀ e ∈ setup, ∀ A, e.call = .setAdaptormatrix A → Addressable A)
    (hno : ∀ e ∈ setup, ¬ IsWritef e.call) (hrun : Session P h1 events h)
    (hcount : h1.markers.length+h1.regions.length < 2^32)
    (htries : ∀ e ∈ events, IsWritef e.call ∧
      (e.state.pendingHeaders = true → Stores e.state ∨ Loses e.state))
    (hclosing : events = [] → h.pendingHeaders = true → Stores h) :
    KeepsHeader P setup h1 events h := by
  intro hlast file hclose
  have hp := session_prepared hopen hsetup hmem hno
  obtain ⟨hw, hsame, hr⟩ := session_retried hp hrun hcount htries
  have hcount' : Countable h := by
    rw [Countable, hr.markers, hr.regions]
    exact hcount
  rw [Handle.close, if_pos hw.canWrite] at hclose
  obtain ⟨⟨res, g⟩, hg, hclose⟩ := bind_eq_ok.mp hclose
  obtain rfl : g.sf.file = file := congrArg Prod.snd (Except.ok.inj hclose)
  have hout := writePending_outcome hw hg
  cases List.eq_nil_or_concat events with
  | inl hnil =>
    have hstores := hclosing hnil
    have ht := hr.tried hsame hcount' (fun hpending => Or.inl (hstores hpending)) hout
    cases hout with
    | idle hdone => exact ht.holds hp hsame.order hcount hdone
    | headed hpending hof hok =>
      refine ht.holds hp (.trans ?_ hsame.order) hcount rfl
      rw [Handle.handOver, setChunks_eq]
      rfl
    | failed hpending hof hfailed =>
      exact absurd ((hstores hpending).headerOk hof hcount') (by rw [hfailed]; decide)
  | inr hsnoc =>
    obtain ⟨init, e, rfl⟩ := hsnoc
    rw [List.concat_eq_append] at hrun htries hlast
    obtain ⟨hwe, -, -⟩ := session_retried hp hrun.before hcount
      (List.forall_mem_append.mp htries).1
    have hdone := (handsFrames_started (run_headerStep hwe hrun.last)
      (hlast e List.getLast?_concat)).2.1
    cases hout with
    | idle => exact hr.holds hp hsame.order hcount hdone
    | headed hpending => exact absurd (hdone.symm.trans hpending) (by decide)
    | failed hpending => exact absurd (hdone.symm.trans hpending) (by decide)

end retry
/-- One marker, stored at the first try. -/
theorem header_kept_marked : ∃ (h0 h1 h : Handle ℚ)
      (setup events : List (Event (Handle ℚ) (Call ℚ) (Answer ℚ))),
    ambixOpen unitPlatform (unitDisk none) .write ⟨.basic, 0, 1⟩ = .ok (some h0) ∧
    Session unitPlatform h0 setup h1 ∧ Session unitPlatform h1 events h ∧
    h1.markers = [oneMarker] ∧ (∃ e ∈ events, HandsFrames e) ∧
    KeepsHeader unitPlatform setup h1 events h := by
  obtain ⟨h0, hopen, hreal, hraw, hcounted⟩ := unitDisk_basic
  obtain ⟨h1, h2, k, hadd, hwrite, hmarkers, hregions, -⟩ :=
    marked_session hopen hreal hraw hcounted
  have hsetup : Session unitPlatform h0 _ h1 := .call .start hadd
  have hrun : Session unitPlatform h1 _ h2 := .call .start hwrite
  have hok : ∀ n, h1.sf.chunkOk n = true := fun n => by
    rw [(session_sameFile hsetup).chunkOk, (ambixOpen_justOpened hopen).chunkOk]
    rfl
  refine ⟨h0, h1, h2, _, _, hopen, hsetup, hrun, hmarkers, ⟨_, List.mem_cons_self,
    ⟨_, _, _, _, rfl⟩, k, rfl⟩, header_kept hopen hsetup ?_ ?_ hrun ?_ ?_ nofun⟩
  · exact List.forall_mem_singleton.mpr nofun
  · exact List.forall_mem_singleton.mpr nofun
  · rw [hmarkers, hregions]
    decide
  · exact List.forall_mem_singleton.mpr ⟨⟨_, _, _, _, rfl⟩, fun _ => Or.inl fun n _ => hok _⟩

def deafDisk : Disk ℚ := { unitDisk none with chunkOk := fun _ => false }

/-- The marker is lost, and both the request and closing report success. -/
theorem header_kept_fails : ∃ (h0 h1 h : Handle ℚ)
      (setup events : List (Event (Handle ℚ) (Call ℚ) (Answer ℚ))),
    ambixOpen unitPlatform deafDisk .write ⟨.basic, 0, 1⟩ = .ok (some h0) ∧
    Session unitPlatform h0 setup h1 ∧ Session unitPlatform h1 events h ∧
    h1.markers = [oneMarker] ∧ (∀ e ∈ events, HandsFrames e) ∧
    ¬ KeepsHeader unitPlatform setup h1 events h := by
  obtain ⟨h0, hopen, hreal, hraw, hcounted⟩ : ∃ h0 : Handle ℚ,
      ambixOpen unitPlatform deafDisk .write ⟨.basic, 0, 1⟩ = .ok (some h0) ∧
      h0.realinfo.fileformat = .basic ∧ h0.useMatrix = .none ∧ Counted h0 :=
    ⟨_, rfl, by rfl, by rfl, counted_stored rfl rfl rfl (by decide)⟩
  obtain ⟨h1, h2, k, hadd, hwrite, hmarkers, hregions, hheld⟩ :=
    marked_session hopen hreal hraw hcounted
  have hj := ambixOpen_justOpened hopen
  have hsetup : Session unitPlatform h0 _ h1 := .call .start hadd
  have hrun : Session unitPlatform h1 _ h2 := .call .start hwrite
  have hp := session_prepared hopen hsetup (List.forall_mem_singleton.mpr nofun)
    (List.forall_mem_singleton.mpr nofun)
  have hdeaf : ∀ n, h1.sf.chunkOk n = false := fun n => by
    rw [(session_sameFile hsetup).chunkOk, hj.chunkOk]
    rfl
  have hframes : HandsFrames ⟨h1, .writef .float32 (fun _ => 1) (fun _ => 0) 1, .written (.ok k)⟩ :=
    ⟨⟨_, _, _, _, rfl⟩, k, rfl⟩
  have hstep := run_headerStep hp.toHeaderWriter hwrite
  have hpending := (handsFrames_started hstep hframes).2.1
  have hchunks : h2.sf.file.chunks = [] := by
    cases hstep with
    | rests _ _ _ hno => exact absurd rfl (hno _)
    | added _ _ hno => exact absurd rfl (hno _)
    | writef hout =>
      cases hout with
      | written hcheck hsame =>
        rw [hsame.chunks]
        cases hcheck.done.handed with
        | inl hkept => rw [hkept.2, hp.chunks]
        | inr hnew =>
          obtain ⟨-, writes, -, -, hsf⟩ := hnew
          rw [hsf, setChunks_eq, storedChunks_none fun n _ => hdeaf _, hp.chunks]
          rfl
  have hclose : h2.close unitPlatform = .ok (.success, h2.sf.file) := by
    have hmode := hp.toHeaderWriter.run hwrite nofun
    rw [Handle.close, if_pos hmode.canWrite, Handle.writePending,
      if_neg (by rw [hpending]; decide), ok_bind]
  refine ⟨h0, h1, h2, _, _, hopen, hsetup, hrun, hmarkers, List.forall_mem_singleton.mpr hframes,
    fun hkeeps => ?_⟩
  have hheld := (hkeeps (fun e he => Option.some.inj he ▸ hframes) _ hclose).annotations
  rw [hchunks] at hheld
  have hnone := (hheld.unique (describes_nil _)).1
  rw [hmarkers] at hnone
  cases hnone

end Ambix
