import Ambix.HeaderStep

/-! One header and one matrix in every file: with a backend that does not fail the header
is handed over once, before the first frame, and nothing it says changes afterwards. -/
namespace Ambix
open Machine
variable {K : Type} [Field K] [LinearOrder K] {P : Platform K} {disk : Disk K} {info : Info}
  {h h' g h0 : Handle K} {call : Call K} {answer : Answer K}
  {events : List (Event (Handle K) (Call K) (Answer K))}

/-! Writing handles. -/

/-- The encoding of a matrix has a size that can be counted in 64 bits. -/
def Addressable (A : AmbixMatrix K) : Prop := 24+4*(A.rows.toNat*A.cols.toNat) < 2^64

def BringsAddressable (e : Event (Handle K) (Call K) (Answer K)) : Prop :=
  ∀ A, e.call = .setAdaptormatrix A → Addressable A

/-- Writing starts with the header; before that nothing has been handed to the backend. -/
structure Begun (h : Handle K) : Prop where
  started : h.startedWriting = true → h.pendingHeaders = false
  untouched : h.startedWriting = false →
    h.sf.asked = 0 ∧ h.sf.file.chunks = [] ∧ h.sf.file.frames = []

structure JustOpened (P : Platform K) (disk : Disk K) (h : Handle K) : Prop extends
    HeaderWriter P h where
  chunkOk : h.sf.chunkOk = disk.chunkOk
  markers : h.markers = []
  regions : h.regions = []
  pending : h.pendingHeaders = false
  started : h.startedWriting = false
  asked : h.sf.asked = 0
  chunks : h.sf.file.chunks = []
  frames : h.sf.file.frames = []
  noEncoder : h.useMatrix ≠ .matrix2

omit [LinearOrder K] in
theorem ambixOpen_justOpened (hopen : ambixOpen P disk .write info = .ok (some h)) :
    JustOpened P disk h := by
  have hmatrix : h.matrix = matrixNull := ambixOpen_write_matrix hopen
  have hmode := (ambixOpen_write_shape hopen).1
  have hsize : 24+4*(h.matrix.rows.toNat*h.matrix.cols.toNat) < 2^64 := by
    rw [hmatrix]
    exact Nat.lt_of_lt_of_le (by decide : 24 < 2^64) le_rfl
  obtain ⟨ambixinfo, wantformat, size, ha, hformats, rfl⟩ := ambixOpen_write hopen
  refine ⟨⟨hmode, rfl, hsize⟩, rfl, rfl, rfl, rfl, rfl, rfl, rfl, rfl, ?_⟩
  change ((freshLayout .write ambixinfo (created P disk _ ha)).present wantformat).useMatrix ≠ _
  obtain ⟨-, -, hp⟩ | ⟨-, -, hp⟩ | ⟨-, -, hp⟩ :=
    present_cases wantformat (freshLayout .write ambixinfo (created P disk _ ha))
  all_goals
    rw [hp]
    exact fun hm => by cases hm

theorem HeaderWriter.run (hw : HeaderWriter P h) (hcall : call.run P h = .ok (answer, h'))
    (hmem : BringsAddressable ⟨h, call, answer⟩) : HeaderWriter P h' := by
  have hsame := run_sameFile hcall
  refine ⟨hsame.filemode.trans hw.mode, by rw [hsame.byteswap, hw.swap, hsame.order], ?_⟩
  by_cases hset : ∃ A, call = .setAdaptormatrix A
  · obtain ⟨A, rfl⟩ := hset
    have hA : Addressable A := hmem A rfl
    cases run_headerStep hw hcall with
    | rests hs =>
      rw [hs.layout]
      exact hw.size
    | added => exact hw.size
    | set hstarted hset => cases hset <;> exact hA
  · rw [run_layout hcall fun A hA => hset ⟨A, hA⟩]
    exact hw.size

/-! A backend that does not fail. -/

/-- A handle on its way through a run with such a backend. -/
structure Writes (P : Platform K) (h : Handle K) : Prop extends HeaderWriter P h, Begun h where
  backend : ∀ k, h.sf.chunkOk k = true
  consistent : Consistent h.toLayout

omit [LinearOrder K] in
/-- The header that has been handed over is the file's only one. -/
theorem HeaderDone.chunks (hw : Writes P h) (hd : HeaderDone P h g) :
    (h.pendingHeaders = false ∧ g.sf = h.sf) ∨ (h.startedWriting = false ∧ ∃ writes,
      HeaderOf P h writes ∧ g.sf.file.chunks = h.headerChunks P writes) := by
  cases hd.handed with
  | inl hidle => exact Or.inl hidle
  | inr hhanded =>
    obtain ⟨hpending, writes, hof, -, hsf⟩ := hhanded
    have hstarted : h.startedWriting = false := by
      by_contra hs
      rw [hw.started (Bool.not_eq_false _ ▸ hs)] at hpending
      cases hpending
    refine Or.inr ⟨hstarted, writes, hof, ?_⟩
    rw [hsf, setChunks_eq, storedChunks_all fun k _ => hw.backend _]
    change h.sf.file.chunks ++ _ = _
    rw [(hw.untouched hstarted).2.1, List.nil_append]

omit [LinearOrder K] in
theorem writef_working (hok : ∀ k, h.sf.chunkOk k = true) {result : Except Err Nat}
    (hout : WritefOutcome P h (result, h')) :
    (h' = h ∧ ∃ res, result = .error res) ∨
      ∃ g, HeaderDone P h g ∧ SameHeader g h' ∧
        ((∃ k, result = .ok k) ∨ h'.sf.file.frames = h.sf.file.frames) := by
  cases hout with
  | headless hcheck hres => exact Or.inl ⟨hcheck.idle hok hres, _, rfl⟩
  | unbuffered hcheck hsame hframes =>
    exact Or.inr ⟨_, hcheck.done, hsame, Or.inr (hframes.trans hcheck.done.frames)⟩
  | written hcheck hsame => exact Or.inr ⟨_, hcheck.done, hsame, Or.inl ⟨_, rfl⟩⟩

theorem Begun.step (hb : Begun h) (hok : ∀ k, h.sf.chunkOk k = true)
    (hs : HeaderStep P h call answer h') : Begun h' := by
  cases hs with
  | rests hsame hframes =>
    refine ⟨fun hst => ?_, fun hst => ?_⟩
    · rw [hsame.pending]
      exact hb.started (hsame.started.symm.trans hst)
    · rw [hsame.asked, hsame.chunks, hframes]
      exact hb.untouched (hsame.started.symm.trans hst)
  | added hstarted => exact ⟨fun hst => absurd hst (by rw [hstarted]; decide), hb.untouched⟩
  | deletedMarkers => exact ⟨hb.started, hb.untouched⟩
  | deletedRegions => exact ⟨hb.started, hb.untouched⟩
  | set hstarted hset =>
    cases hset with
    | encoded => exact ⟨fun hst => absurd hst (by rw [hstarted]; decide), hb.untouched⟩
    | stored => exact ⟨fun hst => absurd hst (by rw [hstarted]; decide), hb.untouched⟩
  | writef hout =>
    cases writef_working hok hout with
    | inl hidle =>
      rw [hidle.1]
      exact hb
    | inr hdone =>
      obtain ⟨g, hd, hsame, -⟩ := hdone
      refine ⟨fun _ => hsame.pending.trans hd.pending, fun hst => ?_⟩
      rw [hsame.started, hd.started] at hst
      cases hst

theorem Writes.run (hw : Writes P h) (hcall : call.run P h = .ok (answer, h'))
    (hmem : BringsAddressable ⟨h, call, answer⟩) : Writes P h' := by
  have hb := hw.toBegun.step hw.backend (run_headerStep hw.toHeaderWriter hcall)
  refine { hw.toHeaderWriter.run hcall hmem, hb with
    backend := ?_, consistent := consistent_run hcall hw.consistent }
  rw [(run_sameFile hcall).chunkOk]
  exact hw.backend

omit [LinearOrder K] in
theorem ambixOpen_writes (hopen : ambixOpen P disk .write info = .ok (some h))
    (hok : ∀ k, disk.chunkOk k = true) : Writes P h := by
  have hj := ambixOpen_justOpened hopen
  refine { hj.toHeaderWriter with
    started := fun hst => absurd hst (by rw [hj.started]; decide)
    untouched := fun _ => ⟨hj.asked, hj.chunks, hj.frames⟩
    backend := by rw [hj.chunkOk]; exact hok
    consistent := consistent_open hopen }

theorem session_writes (hopen : ambixOpen P disk .write info = .ok (some h0))
    (hok : ∀ k, disk.chunkOk k = true) (hrun : Session P h0 events h)
    (hmem : ∀ e ∈ events, BringsAddressable e) : Writes P h :=
  hrun.invariant_of BringsAddressable (fun _ => Writes P) hmem (ambixOpen_writes hopen hok)
    fun _ _ _ _ _ hcall hm hw => hw.run hcall hm

/-! The header is handed over once. -/

/-- A call hands chunks to the backend. -/
def HandsHeader (P : Platform K) (e : Event (Handle K) (Call K) (Answer K)) : Prop :=
  ∃ h', e.call.run P e.state = .ok (e.answer, h') ∧ h'.sf.asked ≠ e.state.sf.asked

structure StartStep (h h' : Handle K) : Prop where
  stays : h.startedWriting = true → h'.startedWriting = true ∧ h'.toLayout = h.toLayout
  hands : h'.sf.asked ≠ h.sf.asked → h.startedWriting = false ∧ h'.startedWriting = true

theorem startStep (hw : Writes P h) (hs : HeaderStep P h call answer h') : StartStep h h' := by
  cases hs with
  | rests hsame =>
    exact ⟨fun hst => ⟨hsame.started.trans hst, hsame.layout⟩, fun hne => absurd hsame.asked hne⟩
  | added hstarted =>
    exact ⟨fun hst => ⟨hst, rfl⟩, fun hne => absurd rfl hne⟩
  | deletedMarkers => exact ⟨fun hst => ⟨hst, rfl⟩, fun hne => absurd rfl hne⟩
  | deletedRegions => exact ⟨fun hst => ⟨hst, rfl⟩, fun hne => absurd rfl hne⟩
  | set hstarted hset =>
    refine ⟨fun hst => absurd hst (by rw [hstarted]; decide), fun hne => absurd ?_ hne⟩
    cases hset <;> rfl
  | writef hout =>
    cases writef_working hw.backend hout with
    | inl hidle =>
      rw [hidle.1]
      exact ⟨fun hst => ⟨hst, rfl⟩, fun hne => absurd rfl hne⟩
    | inr hdone =>
      obtain ⟨g, hd, hsame, -⟩ := hdone
      have hst' := hsame.started.trans hd.started
      refine ⟨fun _ => ⟨hst', hsame.layout.trans hd.layout⟩, fun hne => ⟨?_, hst'⟩⟩
      cases hd.chunks hw with
      | inl hkept => exact absurd (hsame.asked.trans (by rw [hkept.2])) hne
      | inr hnew => exact hnew.1

/-- Chunks were handed over at most once so far, and if so writing has started. -/
structure HandedOnce (P : Platform K) (events : List (Event (Handle K) (Call K) (Answer K)))
    (h : Handle K) : Prop where
  handed : ∀ e ∈ events, HandsHeader P e → h.startedWriting = true ∧ e.state.sf.file.frames = []
  once : events.Pairwise fun e f => ¬ (HandsHeader P e ∧ HandsHeader P f)
  written : ∀ e ∈ events, HandsFrames e → h.startedWriting = true ∧
    h.toLayout = e.state.toLayout

theorem handsFrames_started (hs : HeaderStep P h call answer h')
    (hframes : HandsFrames ⟨h, call, answer⟩) : h'.startedWriting = true ∧
      h'.pendingHeaders = false ∧ h'.toLayout = h.toLayout := by
  obtain ⟨-, k, hanswer⟩ := hframes
  dsimp only at hanswer
  subst hanswer
  cases hs with
  | rests _ _ _ hno => exact absurd rfl (hno _)
  | added _ _ hno => exact absurd rfl (hno _)
  | writef hout =>
    cases hout with
    | written hcheck hsame =>
      have hd := hcheck.done
      exact ⟨hsame.started.trans hd.started, hsame.pending.trans hd.pending,
        hsame.layout.trans hd.layout⟩

theorem HandedOnce.run (hh : HandedOnce P events h) (hw : Writes P h)
    (hcall : call.run P h = .ok (answer, h')) :
    HandedOnce P (events ++ [⟨h, call, answer⟩]) h' := by
  have hs := run_headerStep hw.toHeaderWriter hcall
  have hstart := startStep hw hs
  have hnew (hhands : HandsHeader P ⟨h, call, answer⟩) :
      h.startedWriting = false ∧ h'.startedWriting = true := by
    obtain ⟨h'', hcall', hne⟩ := hhands
    obtain rfl : h'' = h' := congrArg Prod.snd (Except.ok.inj (hcall'.symm.trans hcall))
    exact hstart.hands hne
  refine ⟨fun e he hhands => ?_,
    List.pairwise_append.mpr ⟨hh.once, List.pairwise_singleton _ _, ?_⟩,
    fun e he hframes => ?_⟩
  · cases List.mem_append.mp he with
    | inl hold =>
      obtain ⟨hst, hnone⟩ := hh.handed e hold hhands
      exact ⟨(hstart.stays hst).1, hnone⟩
    | inr hlast =>
      rw [List.mem_singleton] at hlast
      subst hlast
      obtain ⟨hst, hst'⟩ := hnew hhands
      exact ⟨hst', (hw.untouched hst).2.2⟩
  · rintro e he f hf ⟨hhands, hhands'⟩
    rw [List.mem_singleton] at hf
    subst hf
    exact absurd (hh.handed e he hhands).1 (by rw [(hnew hhands').1]; decide)
  · cases List.mem_append.mp he with
    | inl hold =>
      obtain ⟨hst, hlayout⟩ := hh.written e hold hframes
      exact ⟨(hstart.stays hst).1, (hstart.stays hst).2.trans hlayout⟩
    | inr hlast =>
      rw [List.mem_singleton] at hlast
      subst hlast
      obtain ⟨hstarted, -, hlayout⟩ := handsFrames_started hs hframes
      exact ⟨hstarted, hlayout⟩

/-! The matrix in the file. -/

def lastAccepted (events : List (Event (Handle K) (Call K) (Answer K))) : Option (AmbixMatrix K) :=
  (events.filterMap fun e => acceptedMatrix e.call e.answer).getLast?

omit [LinearOrder K] in
theorem lastAccepted_keep (hnone : acceptedMatrix call answer = none) :
    lastAccepted (events ++ [⟨h, call, answer⟩]) = lastAccepted events := by
  rw [lastAccepted, List.filterMap_append, List.filterMap_cons, hnone]
  exact congrArg List.getLast? (List.append_nil _)

omit [LinearOrder K] in
theorem lastAccepted_set {A : AmbixMatrix K} (hsome : acceptedMatrix call answer = some A) :
    lastAccepted (events ++ [⟨h, call, answer⟩]) = some A := by
  rw [lastAccepted, List.filterMap_append, List.filterMap_cons, hsome]
  exact List.getLast?_concat

/-- `M` is the matrix of a handle and of its file, and the one its frames are encoded for. -/
structure MatrixStored (P : Platform K) (M : AmbixMatrix K) (h : Handle K) : Prop where
  matrix : h.matrix = M
  extended : h.realinfo.fileformat = .extended
  encoder : h.useMatrix = .matrix2 → (matrixPinv M none).ret = some h.matrix2
  chunk : h.pendingHeaders = false →
    chunksOf .uuid h.sf.file.chunks = [uuid1Bytes h.sf.file.order P.word M]

/-- The last accepted matrix is stored; an encoder is for full sets only. -/
structure MatrixKept (P : Platform K) (events : List (Event (Handle K) (Call K) (Answer K)))
    (h : Handle K) : Prop where
  basic : h.useMatrix = .matrix2 → h.info.fileformat = .basic
  stored : ∀ M, lastAccepted events = some M → MatrixStored P M h

theorem MatrixStored.of_headerOf {M : AmbixMatrix K} (hm : MatrixStored P M h)
    {writes : List ChunkWrite} (hof : HeaderOf P h writes) :
    chunksOf .uuid (h.headerChunks P writes) = [uuid1Bytes h.sf.file.order P.word M] := by
  rw [hof.uuid, if_pos hm.extended, hm.matrix]

theorem MatrixStored.written {M : AmbixMatrix K} (hm : MatrixStored P M h) (hw : Writes P h)
    (hd : HeaderDone P h g) (hsame : SameHeader g h')
    (horder : h'.sf.file.order = h.sf.file.order) : MatrixStored P M h' := by
  have hlayout := hsame.layout.trans hd.layout
  refine ⟨?_, ?_, ?_, fun _ => ?_⟩
  · rw [hlayout]
    exact hm.matrix
  · rw [hlayout]
    exact hm.extended
  · rw [hlayout]
    exact hm.encoder
  · rw [hsame.chunks, horder]
    cases hd.chunks hw with
    | inl hkept =>
      rw [hkept.2]
      exact hm.chunk hkept.1
    | inr hnew =>
      obtain ⟨-, writes, hof, hchunks⟩ := hnew
      rw [hchunks, hm.of_headerOf hof]

theorem MatrixKept.run (hk : MatrixKept P events h) (hw : Writes P h)
    (hcall : call.run P h = .ok (answer, h')) :
    MatrixKept P (events ++ [⟨h, call, answer⟩]) h' := by
  have horder := (run_sameFile hcall).order
  cases run_headerStep hw.toHeaderWriter hcall with
  | rests hsame hframes hnone =>
    refine ⟨by rw [hsame.layout]; exact hk.basic, fun M hM => ?_⟩
    rw [lastAccepted_keep hnone] at hM
    have hm := hk.stored M hM
    refine ⟨?_, ?_, ?_, fun hp => ?_⟩
    · rw [hsame.layout]
      exact hm.matrix
    · rw [hsame.layout]
      exact hm.extended
    · rw [hsame.layout]
      exact hm.encoder
    · rw [hsame.chunks, horder]
      exact hm.chunk (hsame.pending.symm.trans hp)
  | added hstarted hnone =>
    refine ⟨hk.basic, fun M hM => ?_⟩
    rw [lastAccepted_keep hnone] at hM
    have hm := hk.stored M hM
    exact ⟨hm.matrix, hm.extended, hm.encoder, fun hp => by cases hp⟩
  | deletedMarkers =>
    refine ⟨hk.basic, fun M hM => ?_⟩
    rw [lastAccepted_keep rfl] at hM
    have hm := hk.stored M hM
    exact ⟨hm.matrix, hm.extended, hm.encoder, hm.chunk⟩
  | deletedRegions =>
    refine ⟨hk.basic, fun M hM => ?_⟩
    rw [lastAccepted_keep rfl] at hM
    have hm := hk.stored M hM
    exact ⟨hm.matrix, hm.extended, hm.encoder, hm.chunk⟩
  | set hstarted hset =>
    cases hset with
    | encoded hinfo hpinv =>
      refine ⟨fun _ => hinfo, fun M hM => ?_⟩
      rw [lastAccepted_set rfl] at hM
      obtain rfl := Option.some.inj hM
      exact ⟨rfl, rfl, fun _ => hpinv, fun hp => by cases hp⟩
    | stored hinfo =>
      refine ⟨hk.basic, fun M hM => ?_⟩
      rw [lastAccepted_set rfl] at hM
      obtain rfl := Option.some.inj hM
      refine ⟨rfl, hw.consistent.writeExtended hw.canWrite hinfo, fun hm => ?_,
        fun hp => by cases hp⟩
      exact absurd (hinfo.symm.trans (hk.basic hm)) (by decide)
  | writef hout =>
    cases writef_working hw.backend hout with
    | inl hidle =>
      rw [hidle.1]
      refine ⟨hk.basic, fun M hM => ?_⟩
      rw [lastAccepted_keep rfl] at hM
      exact hk.stored M hM
    | inr hdone =>
      obtain ⟨g, hd, hsame, -⟩ := hdone
      refine ⟨by rw [hsame.layout, hd.layout]; exact hk.basic, fun M hM => ?_⟩
      rw [lastAccepted_keep rfl] at hM
      exact (hk.stored M hM).written hw hd hsame horder

omit [LinearOrder K] in
theorem close_working (hw : Writes P h) {r : Err × SoundFile K} (hr : h.close P = .ok r) :
    r.1 = .success ∧ ((h.pendingHeaders = false ∧ r.2 = h.sf.file) ∨
      (h.startedWriting = false ∧ r.2.order = h.sf.file.order ∧ ∃ writes, HeaderOf P h writes ∧
        r.2.chunks = h.headerChunks P writes)) := by
  rw [Handle.close, if_pos hw.canWrite] at hr
  obtain ⟨⟨res, g⟩, hg, hr⟩ := bind_eq_ok.mp hr
  rw [← Except.ok.inj hr]
  refine ⟨rfl, ?_⟩
  have hout := writePending_outcome hw.toHeaderWriter hg
  cases hout with
  | idle hp => exact Or.inl ⟨hp, rfl⟩
  | headed hp hof hok =>
    have hd : HeaderDone P h
        { h.handOver P _ with pendingHeaders := false, startedWriting := true } :=
      (CheckOutcome.passed (.headed hp hof hok)).done
    cases hd.chunks hw with
    | inl hkept => exact absurd (hkept.1.symm.trans hp) (by decide)
    | inr hnew =>
      obtain ⟨hstarted, writes', hof', hchunks⟩ := hnew
      refine Or.inr ⟨hstarted, ?_, writes', hof', hchunks⟩
      change (h.sf.setChunks _).file.order = _
      rw [setChunks_eq]
      rfl
  | failed hp hof hno => exact absurd (headerOk_of_backend hw.backend _) (by rw [hno]; decide)

/-! All of it together. -/

/-- A request whose samples reach the backend encoded by `C`. -/
def EncodedBy (P : Platform K) (C : FrameCoder K) (e : Event (Handle K) (Call K) (Answer K)) :
    Prop :=
  ∀ t : Transfer K, e.call = .writef t.type t.ambidata t.otherdata t.frames → ∃ h',
    e.call.run P e.state = .ok (e.answer, h') ∧
    h'.adaptorbuffer = ((Cursor.start e.state.adaptorbuffer).putAll
      (C.code (t.sent C.ambi C.extra)).flatten).data ∧
    (C.channels = e.state.sf.file.channels.toNat → Hands C t e.state h')

/-- One header and one matrix: the header is handed over at most once and before the first
frame, the layout stays as the first frame found it, and the matrix in the file is the
last one that was accepted and the one that all frames were encoded for. -/
structure OneHeader (P : Platform K) (events : List (Event (Handle K) (Call K) (Answer K)))
    (h : Handle K) : Prop where
  once : events.Pairwise fun e f => ¬ (HandsHeader P e ∧ HandsHeader P f)
  first : ∀ e ∈ events, HandsHeader P e → e.state.sf.file.frames = []
  last : (h.sf.file.frames ≠ [] ∨ ∃ e ∈ events, HandsHeader P e) →
    h.close P = .ok (.success, h.sf.file)
  fixed : ∀ e ∈ events, HandsFrames e → h.toLayout = e.state.toLayout
  stored : ∀ M, lastAccepted events = some M → ∀ r, h.close P = .ok r →
    chunksOf .uuid r.2.chunks = [uuid1Bytes r.2.order P.word M]
  encoded : ∀ M, lastAccepted events = some M → h.useMatrix = .matrix2 → ∃ pinv,
    (matrixPinv M none).ret = some pinv ∧ ∀ e ∈ events, HandsFrames e →
      EncodedBy P (matrixCoder pinv h.info.extrachannels.toNat) e

theorem session_handedOnce (hopen : ambixOpen P disk .write info = .ok (some h0))
    (hok : ∀ k, disk.chunkOk k = true) (hrun : Session P h0 events h)
    (hmem : ∀ e ∈ events, BringsAddressable e) : HandedOnce P events h := by
  refine (hrun.invariant_of BringsAddressable (fun events h => Writes P h ∧ HandedOnce P events h)
    hmem ⟨ambixOpen_writes hopen hok, ?_⟩ fun _ _ _ _ _ hcall hm hh => ?_).2
  · exact ⟨fun _ he => absurd he List.not_mem_nil, .nil, fun _ he => absurd he List.not_mem_nil⟩
  · exact ⟨hh.1.run hcall hm, hh.2.run hh.1 hcall⟩

theorem session_matrixKept (hopen : ambixOpen P disk .write info = .ok (some h0))
    (hok : ∀ k, disk.chunkOk k = true) (hrun : Session P h0 events h)
    (hmem : ∀ e ∈ events, BringsAddressable e) : MatrixKept P events h := by
  refine (hrun.invariant_of BringsAddressable (fun events h => Writes P h ∧ MatrixKept P events h)
    hmem ⟨ambixOpen_writes hopen hok, ?_⟩ fun _ _ _ _ _ hcall hm hh => ?_).2
  · exact ⟨fun hm => absurd hm (ambixOpen_justOpened hopen).noEncoder, fun _ hM => by cases hM⟩
  · exact ⟨hh.1.run hcall hm, hh.2.run hh.1 hcall⟩

omit [LinearOrder K] in
theorem Writes.close_started (hw : Writes P h) (hstarted : h.startedWriting = true) :
    h.close P = .ok (.success, h.sf.file) := by
  rw [Handle.close, if_pos hw.canWrite, Handle.writePending,
    if_neg (by rw [hw.started hstarted]; decide), ok_bind]

theorem encodedBy_of {A : AmbixMatrix K} {e : Event (Handle K) (Call K) (Answer K)} {h' : Handle K}
    (hwrite : WriteHandle e.state) (hA : e.state.inUse = some A)
    (hcall : e.call.run P e.state = .ok (e.answer, h')) (hframes : HandsFrames e) :
    EncodedBy P (matrixCoder A e.state.info.extrachannels.toNat) e := by
  intro t ht
  refine ⟨h', hcall, ?_⟩
  obtain ⟨-, k, hanswer⟩ := hframes
  rw [ht, hanswer] at hcall
  obtain ⟨⟨result, g⟩, hg, hcall⟩ := bind_eq_ok.mp hcall
  obtain ⟨hresult, rfl⟩ := Prod.mk.inj (Except.ok.inj hcall)
  rw [Answer.written.inj hresult] at hg
  have htakes := takes_matrix hA
  refine ⟨writef_buffer htakes t hg, fun hwidth => writef_hands htakes hwidth ?_ t hg⟩
  rw [hwrite.mode]
  rfl

/-- With a backend that does not fail every run writes one header and one matrix. -/
theorem session_oneHeader (hopen : ambixOpen P disk .write info = .ok (some h0))
    (hok : ∀ k, disk.chunkOk k = true) (hrun : Session P h0 events h)
    (hmem : ∀ e ∈ events, ∀ A, e.call = .setAdaptormatrix A → Addressable A) :
    OneHeader P events h := by
  have hw := session_writes hopen hok hrun hmem
  have hh := session_handedOnce hopen hok hrun hmem
  have hk := session_matrixKept hopen hok hrun hmem
  refine ⟨hh.once, fun e he hhands => (hh.handed e he hhands).2, fun hbegun => ?_,
    fun e he hframes => (hh.written e he hframes).2, fun M hM r hr => ?_, fun M hM hmatrix => ?_⟩
  · refine hw.close_started ?_
    cases hbegun with
    | inl hframes =>
      by_contra hst
      exact hframes (hw.untouched (Bool.not_eq_true _ ▸ hst)).2.2
    | inr hhands =>
      obtain ⟨e, he, hhands⟩ := hhands
      exact (hh.handed e he hhands).1
  · have hm := hk.stored M hM
    cases (close_working hw hr).2 with
    | inl hkept =>
      rw [hkept.2]
      exact hm.chunk hkept.1
    | inr hnew =>
      obtain ⟨-, horder, writes, hof, hchunks⟩ := hnew
      rw [hchunks, horder, hm.of_headerOf hof]
  · refine ⟨h.matrix2, (hk.stored M hM).encoder hmatrix, fun e he hframes => ?_⟩
    obtain ⟨h', hcall⟩ := hrun.event he
    obtain ⟨before, after, rfl⟩ := List.append_of_mem he
    have hwrite := session_writeHandle hopen hrun.before
    have hlayout := (hh.written e he hframes).2
    have hA : e.state.inUse = some h.matrix2 := by
      rw [← hlayout, Layout.inUse, hmatrix]
    have hencoded := encodedBy_of hwrite hA hcall hframes
    rwa [← hlayout] at hencoded

/-- A matrix, a frame and a second matrix that comes too late. -/
theorem session_oneHeader_unit : ∃ (h0 h : Handle ℚ)
      (events : List (Event (Handle ℚ) (Call ℚ) (Answer ℚ))),
    ambixOpen unitPlatform (unitDisk none) .write ⟨.extended, 0, 1⟩ = .ok (some h0) ∧
    Session unitPlatform h0 events h ∧ events.length = 3 ∧
    lastAccepted events = some (unitMatrix 1 1) ∧ (∃ e ∈ events, HandsFrames e) ∧
    OneHeader unitPlatform events h := by
  obtain ⟨h0, h1, h2, hopen, hset, hwrite, hmode, hstarted⟩ : ∃ h0 h1 h2 : Handle ℚ,
      ambixOpen unitPlatform (unitDisk none) .write ⟨.extended, 0, 1⟩ = .ok (some h0) ∧
      Call.run unitPlatform h0 (.setAdaptormatrix (unitMatrix 1 1)) = .ok (.err .success, h1) ∧
      Call.run unitPlatform h1 (.writef .float32 (fun _ => 1) (fun _ => 0) 1) =
        .ok (.written (.ok 1), h2) ∧ h2.filemode = .write ∧ h2.startedWriting = true :=
    ⟨_, _, _, rfl, rfl, rfl, by rfl, by rfl⟩
  have hlate : Call.run unitPlatform h2 (.setAdaptormatrix (unitMatrix 4 1)) =
      .ok (.err .unknown, h2) := by
    rw [Call.run, setAdaptormatrix_started hmode hstarted]
  have hrun : Session unitPlatform h0 _ h2 := .call (.call (.call .start hset) hwrite) hlate
  refine ⟨h0, h2, _, hopen, hrun, rfl, rfl, ⟨_, List.mem_append_left _
      (List.mem_append_right _ List.mem_cons_self), ⟨_, _, _, _, rfl⟩, 1, rfl⟩,
    session_oneHeader hopen (fun _ => rfl) hrun ?_⟩
  intro e he A hcall
  simp only [List.nil_append, List.cons_append, List.mem_cons, List.not_mem_nil, or_false] at he
  rcases he with rfl | rfl | rfl
  · rw [← Call.setAdaptormatrix.inj hcall]
    exact (by decide : 24+4*(UInt32.toNat 1*UInt32.toNat 1) < 2^64)
  · cases hcall
  · rw [← Call.setAdaptormatrix.inj hcall]
    exact (by decide : 24+4*(UInt32.toNat 4*UInt32.toNat 1) < 2^64)

end Ambix
