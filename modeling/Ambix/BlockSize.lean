import Ambix.FrameShape

/-! The size of the blocks does not matter: whichever way frames are cut into transfers,
the same samples go to the backend and come from it. -/
namespace Ambix
open Machine
variable {K : Type} [Field K] {P : Platform K} {h h' g : Handle K}

/-! Writing. -/

/-- Write requests one after the other: the samples they hand to the backend and the
handle they leave, as long as each is answered. -/
def Handle.writeOut (P : Platform K) :
    List (Transfer K) → Handle K → Checked (Option (List K × Handle K))
  | [], h => .ok (some ([], h))
  | t :: ts, h => do
    let (result, h) ← h.writef P t.type t.ambidata t.otherdata t.frames
    match result with
    | .ok _ => do
      let rest ← writeOut P ts h
      .ok (rest.map fun r =>
        (window h.adaptorbuffer 0 (t.frames*h.sf.file.channels.toNat) ++ r.1, r.2))
    | .error _ => .ok none

theorem writeHeader_success (hw : h.writeHeader P = .ok (.success, g)) :
    g.pendingHeaders = false := by
  unfold Handle.writeHeader at hw
  split at hw
  · obtain ⟨⟨mres, sf⟩, hmr, hw⟩ := bind_eq_ok.mp hw
    dsimp only at hw
    split at hw
    · obtain ⟨⟨datalen, d⟩, -, hw⟩ := bind_eq_ok.mp hw
      dsimp only at hw
      split at hw
      · cases congrArg Prod.fst (Except.ok.inj hw)
      · obtain ⟨⟨len, data⟩, -, hw⟩ := bind_eq_ok.mp hw
        dsimp only at hw
        split at hw
        · cases congrArg Prod.fst (Except.ok.inj hw)
        · obtain ⟨⟨cres, sf'⟩, -, hw⟩ := bind_eq_ok.mp hw
          obtain ⟨rfl, rfl⟩ := Prod.mk.inj (Except.ok.inj hw)
          rfl
    · obtain ⟨rfl, rfl⟩ := Prod.mk.inj (Except.ok.inj hw)
      rfl
  · cases congrArg Prod.fst (Except.ok.inj hw)

theorem writePending_success (hw : h.writePending P = .ok (.success, g)) :
    g.pendingHeaders = false := by
  unfold Handle.writePending at hw
  split at hw
  · exact writeHeader_success hw
  · rename_i hpending
    rw [← answered_state hw]
    exact Bool.not_eq_true _ ▸ hpending

structure Started (h : Handle K) : Prop where
  guard : ¬ (h.realinfo.fileformat = .extended ∧ ¬ isFullset h.matrix.rows = true)
  pending : h.pendingHeaders = false

theorem Started.checkWrite (hs : Started h) :
    h.checkWrite P = .ok (.success, { h with startedWriting := true }) := by
  rw [Handle.checkWrite, if_neg hs.guard, Handle.writePending, if_neg (by rw [hs.pending]; decide),
    ok_bind]
  rfl

theorem checkWrite_started (hw : h.checkWrite P = .ok (.success, g)) : Started g := by
  obtain ⟨g', hpending, rfl⟩ := checkWrite_success hw
  have hfalse := writePending_success hpending
  obtain ⟨chunks, asked, pending, rfl⟩ := writePending_frame hpending
  refine ⟨fun hno => ?_, hfalse⟩
  rw [Handle.checkWrite, if_pos hno] at hw
  cases congrArg Prod.fst (Except.ok.inj hw)

theorem writef_started {type : SampleType} {ambidata otherdata : Nat → K} {frames k : Nat}
    (hr : h.writef P type ambidata otherdata frames = .ok (.ok k, h')) : Started h' := by
  obtain ⟨g, size, hcheck, -, rfl⟩ := writef_ok hr
  have hs := checkWrite_started hcheck
  exact ⟨hs.guard, hs.pending⟩

theorem writeOut_cons {t : Transfer K} {ts : List (Transfer K)} {r : List K × Handle K}
    (hr : h.writeOut P (t :: ts) = .ok (some r)) : ∃ k h' r',
      h.writef P t.type t.ambidata t.otherdata t.frames = .ok (.ok k, h') ∧
      h'.writeOut P ts = .ok (some r') ∧
      r = (window h'.adaptorbuffer 0 (t.frames*h'.sf.file.channels.toNat) ++ r'.1, r'.2) := by
  obtain ⟨⟨result, h'⟩, hw, hr⟩ := bind_eq_ok.mp hr
  cases result with
  | error err => cases hr
  | ok k =>
    obtain ⟨rest, hrest, hr⟩ := bind_eq_ok.mp hr
    obtain ⟨r', rfl, rfl⟩ := Option.map_eq_some_iff.mp (Except.ok.inj hr)
    exact ⟨k, h', r', hw, hrest, rfl⟩

theorem writeOut_cons_of {t : Transfer K} {ts : List (Transfer K)} {k : Nat} {r : List K × Handle K}
    (hw : h.writef P t.type t.ambidata t.otherdata t.frames = .ok (.ok k, h'))
    (hr : h'.writeOut P ts = .ok (some r)) : h.writeOut P (t :: ts) = .ok (some
      (window h'.adaptorbuffer 0 (t.frames*h'.sf.file.channels.toNat) ++ r.1, r.2)) := by
  rw [Handle.writeOut, hw, ok_bind]
  dsimp only
  rw [hr]
  rfl

theorem writeOut_hands {C : FrameCoder K} {ts : List (Transfer K)} {r : List K × Handle K}
    (htakes : Takes h.toLayout C) (hwidth : C.channels = h.sf.file.channels.toNat)
    (hmode : h.sf.mode.canWrite = true) (hr : h.writeOut P ts = .ok (some r)) :
    r.1 = (C.code (sent C.ambi C.extra ts)).flatten ∧
      r.2.sf.file.frames = overwritten h.sf.file.frames h.sf.position
        (C.code (sent C.ambi C.extra ts)) := by
  induction ts generalizing h r with
  | nil =>
    rw [← Option.some.inj (Except.ok.inj hr)]
    exact ⟨rfl, (overwritten_nil _ _).symm⟩
  | cons t ts ih =>
    obtain ⟨k, h', r', hw, hrest, rfl⟩ := writeOut_cons hr
    have hhands := writef_hands htakes hwidth hmode t hw
    have hsame := writef_sameFile hw
    obtain ⟨hsamples, hframes⟩ := ih (by rw [writef_layout hw]; exact htakes)
      (by rw [hsame.channels]; exact hwidth) (by rw [hsame.mode]; exact hmode) hrest
    have hcode : C.code (sent C.ambi C.extra (t :: ts)) =
        C.code (t.sent C.ambi C.extra) ++ C.code (sent C.ambi C.extra ts) := List.map_append
    rw [hcode]
    constructor
    · rw [hhands.samples, hsamples, List.flatten_append]
    · rw [hframes, hhands.frames, hhands.position, ← overwritten_append, code_sent_length]

theorem writeOut_started {C : FrameCoder K} (hs : Started h)
    (hgrants : ∀ size, P.grants size = true) (htakes : Takes h.toLayout C)
    (hwidth : C.channels ≤ h.bufferChannels) (hcounted : Counted h) {ts : List (Transfer K)}
    (hts : ∀ t ∈ ts, h.bytes t.frames t.type.size < 2^64) :
    ∃ r, h.writeOut P ts = .ok (some r) := by
  induction ts generalizing h with
  | nil => exact ⟨_, rfl⟩
  | cons t ts ih =>
    obtain ⟨k, h', hw⟩ := writef_of_checkWrite hs.checkWrite hgrants htakes hwidth hcounted t
      (hts t List.mem_cons_self)
    have hlayout := writef_layout hw
    obtain ⟨r, hr⟩ := ih (writef_started hw) (by rw [hlayout]; exact htakes)
      (by rw [hlayout]; exact hwidth) (hcounted.of_same hlayout (writef_sameFile hw))
      fun t' ht' => by rw [hlayout]; exact hts t' (List.mem_cons_of_mem t ht')
    exact ⟨_, writeOut_cons_of hw hr⟩

/-- Two ways of cutting the same frames hand over the same samples; where the header can be
written, every way whose requests can be counted is answered. -/
structure WritesAlike (P : Platform K) (h : Handle K) : Prop where
  same : ∀ {ts us : List (Transfer K)} {r q : List K × Handle K},
    sent h.coder.ambi h.coder.extra ts = sent h.coder.ambi h.coder.extra us →
      h.writeOut P ts = .ok (some r) → h.writeOut P us = .ok (some q) →
        r.1 = q.1 ∧ r.2.sf.file.frames = q.2.sf.file.frames
  answered : (∀ size, P.grants size = true) → (∃ g, h.checkWrite P = .ok (.success, g)) →
    ∀ us : List (Transfer K), (∀ u ∈ us, h.bytes u.frames u.type.size < 2^64) →
      ∃ q, h.writeOut P us = .ok (some q)

theorem writesAlike_of (hw : WriteHandle h) (hready : h.useMatrix ≠ .matrix)
    (hwrap : h.bufferChannels < 2^32) : WritesAlike P h := by
  have htakes := takes_coder h.toLayout
  have hreal := hw.shape.coder_real hready
  have hwidth := hw.shape.coder_channels (lt_of_le_of_lt h.realChannels_le hwrap) hready
  have hmode : h.sf.mode.canWrite = true := by
    rw [hw.mode]
    rfl
  refine ⟨fun hcut hts hus => ?_, fun hgrants hchecks us husmall => ?_⟩
  · obtain ⟨hsamples, hframes⟩ := writeOut_hands htakes hwidth hmode hts
    obtain ⟨hsamples', hframes'⟩ := writeOut_hands htakes hwidth hmode hus
    rw [hsamples, hframes, hsamples', hframes', hcut]
    exact ⟨rfl, rfl⟩
  · obtain ⟨g, hcheck⟩ := hchecks
    have hle : h.coder.channels ≤ h.bufferChannels := hreal ▸ h.realChannels_le
    have hcounted : Counted h := ⟨source_covered hw.shape.source, hwrap⟩
    cases us with
    | nil => exact ⟨_, rfl⟩
    | cons u us =>
      obtain ⟨k, h', hu⟩ := writef_of_checkWrite hcheck hgrants htakes hle hcounted u
        (husmall u List.mem_cons_self)
      have hlayout := writef_layout hu
      obtain ⟨q, hq⟩ := writeOut_started (writef_started hu) hgrants
        (by rw [hlayout]; exact htakes) (by rw [hlayout]; exact hle)
        (hcounted.of_same hlayout (writef_sameFile hu))
        fun u' hu' => by rw [hlayout]; exact husmall u' (List.mem_cons_of_mem u hu')
      exact ⟨_, writeOut_cons_of hu hq⟩

theorem writeOut_empty (hcheck : h.checkWrite P = .ok (.success, g)) : ∃ r,
    h.writeOut P [⟨.float32, fun _ => 0, fun _ => 0, 0⟩] = .ok (some r) := by
  have hmerge : (g.merge (fun _ => 0) (fun _ => 0) g.adaptorbuffer 0).count = 0 := by
    rw [takes_coder g.toLayout ⟨.float32, fun _ => 0, fun _ => 0, 0⟩ g.adaptorbuffer,
      putAll_count _ code_width, code_sent_length, Nat.zero_mul]
  have hnone : (UInt64.ofNat 0 : UInt64) < 1 := by decide
  have hwrite : ∃ k h', h.writef P .float32 (fun _ => 0) (fun _ => 0) 0 = .ok (.ok k, h') := by
    rw [Handle.writef, hcheck, ok_bind]
    unfold Handle.resize adaptorbufferResize
    dsimp only
    rw [if_neg (fun hne => hne rfl), if_pos (Or.inl hnone), if_neg (fun hne => hne rfl), hmerge,
      touch_ok (by rw [Nat.zero_mul]; exact Nat.zero_le _), ok_bind,
      touch_ok (by rw [Nat.zero_mul, Nat.zero_mul]; exact Nat.zero_le _), ok_bind]
    exact ⟨_, _, rfl⟩
  obtain ⟨k, h', hw⟩ := hwrite
  exact ⟨_, writeOut_cons_of hw rfl⟩

/-- The buffer has grown to hold every request that can be counted. -/
def Handle.Roomy (h : Handle K) : Prop := ∀ t : Transfer K,
  h.bytes t.frames t.type.size < 2^64 →
    t.frames*h.realChannels*t.type.size.toNat ≤ h.adaptorbuffersize.toNat

theorem writeOut_overflows (hw : WriteHandle h) (hready : h.useMatrix ≠ .matrix)
    (hwrap : 2^32 ≤ h.bufferChannels) (hgrants : ∀ size, P.grants size = true)
    (hcheck : h.checkWrite P = .ok (.success, g)) {t : Transfer K}
    (ht : h.bytes t.frames t.type.size < 2^64)
    (hshort : h.adaptorbuffersize.toNat < t.frames*h.realChannels*t.type.size.toNat) :
    ∃ fault, h.writeOut P [t] = .error fault := by
  obtain ⟨chunks, asked, pending, started, rfl⟩ := checkWrite_frame hcheck
  have hcount : (h.merge t.ambidata t.otherdata h.adaptorbuffer t.frames).count =
      t.frames*h.realChannels := by
    rw [takes_coder h.toLayout t h.adaptorbuffer, putAll_count _ code_width, code_sent_length,
      hw.shape.coder_real hready]
  obtain ⟨fault, hfault⟩ := writef_overflows hcheck hgrants hwrap ht t.ambidata t.otherdata hcount
    (hw.shape.wrapped_lt hwrap) hshort
  refine ⟨fault, ?_⟩
  rw [Handle.writeOut, hfault]
  rfl

theorem not_writesAlike (hgrants : ∀ size, P.grants size = true)
    (hcheck : h.checkWrite P = .ok (.success, g)) {t : Transfer K}
    (ht : h.bytes t.frames t.type.size < 2^64) {fault : Stop}
    (hfault : h.writeOut P [t] = .error fault) : ¬ WritesAlike P h := by
  intro halike
  have hcounts : ∀ u ∈ [t], h.bytes u.frames u.type.size < 2^64 := List.forall_mem_singleton.mpr ht
  obtain ⟨q, hq⟩ := halike.answered hgrants ⟨g, hcheck⟩ [t] hcounts
  cases hq.symm.trans hfault

/-! Reading. -/

/-- Requests that reach equally far deliver the same frames, and requests that can be counted
are answered. -/
structure ReadsAlike (P : Platform K) (h : Handle K) : Prop where
  same : ∀ {ts us : List (Transfer K)} {fs gs : List (Frame K)},
    min (total ts) h.remaining.length = min (total us) h.remaining.length →
      h.readOut P ts = some fs → h.readOut P us = some gs → fs = gs
  answered : (∀ size, P.grants size = true) → ∀ ts : List (Transfer K),
    (∀ t ∈ ts, h.bytes t.frames t.type.size < 2^64) → ∃ fs, h.readOut P ts = some fs

theorem readsAlike_of (hr : ReadHandle h) (hwrap : h.bufferChannels < 2^32) : ReadsAlike P h := by
  refine ⟨fun {ts us fs gs} hreach hts hus => ?_, fun hgrants ts hts =>
    readAllIn_answered hgrants ts h ⟨source_covered hr.shape.source, hwrap⟩ hts⟩
  obtain ⟨V, hV⟩ := hr.delivers
  rw [readOut_eq hV] at hts hus
  have htake (n : Nat) : h.remaining.take n = h.remaining.take (min n h.remaining.length) := by
    rw [List.take_eq_take_iff, Nat.min_eq_left (Nat.min_le_right _ _)]
  rw [readAllIn_presents hV.toPresents hts, readAllIn_presents hV.toPresents hus, htake, hreach,
    ← htake]

/-! Any handle. -/

/-- The size of the blocks does not matter on a handle whose channels can be counted in 32 bits,
those presented and those on disk side by side. On any other handle that writes it does, unless
the buffer has grown by then. -/
theorem blockSize_irrelevant [LinearOrder K] {disk : Disk K} {mode : FileMode} {info : Info}
    {h0 : Handle K} {events : List (Event (Handle K) (Call K) (Answer K))}
    (hopen : ambixOpen P disk mode info = .ok (some h0)) (hrun : Session P h0 events h) :
    (mode = .write → (h.realinfo.fileformat = .extended → Accepted events) →
      (h.bufferChannels < 2^32 → WritesAlike P h) ∧
      ((∃ g, h.checkWrite P = .ok (.success, g)) → (∀ size, P.grants size = true) →
        WritesAlike P h → h.bufferChannels < 2^32 ∨ h.Roomy)) ∧
    (mode = .read → h.bufferChannels < 2^32 → ReadsAlike P h) := by
  constructor
  · rintro rfl haccepted
    have hw := session_writeHandle hopen hrun
    have hready : h.useMatrix ≠ .matrix := fun hmatrix =>
      encoder_of_accepted hopen hrun (haccepted (hw.shape.unset hmatrix).2) hmatrix
    refine ⟨writesAlike_of hw hready, ?_⟩
    rintro ⟨g, hcheck⟩ hgrants halike
    by_contra hno
    obtain ⟨hwrap, hroomy⟩ := not_or.mp hno
    refine hroomy fun t ht => ?_
    by_contra hshort
    obtain ⟨fault, hfault⟩ := writeOut_overflows hw hready (Nat.not_lt.mp hwrap) hgrants hcheck ht
      (Nat.not_le.mp hshort)
    exact not_writesAlike hgrants hcheck ht hfault halike
  · rintro rfl hwrap
    exact readsAlike_of (session_readHandle hopen hrun) hwrap

/-- Two frames of two ambisonics channels and an extra one, in a file written with a 4 by 2
matrix, and of a file with this matrix that is read through the full set. -/
theorem blockSize_irrelevant_reduced :
    (∃ (h0 h : Handle ℚ) (events : List (Event (Handle ℚ) (Call ℚ) (Answer ℚ))),
      ambixOpen unitPlatform (unitDisk none) .write ⟨.extended, 1, 2⟩ = .ok (some h0) ∧
      Session unitPlatform h0 events h ∧ Accepted events ∧ WritesAlike unitPlatform h) ∧
    ∃ h : Handle ℚ,
      ambixOpen unitPlatform (unitDisk (some reducedFile)) .read ⟨.basic, 0, 0⟩ = .ok (some h) ∧
      h.info.ambichannels = 4 ∧ ReadsAlike unitPlatform h := by
  constructor
  · obtain ⟨h0, h, hopen, hset, hchannels⟩ : ∃ h0 h : Handle ℚ,
        ambixOpen unitPlatform (unitDisk none) .write ⟨.extended, 1, 2⟩ = .ok (some h0) ∧
        Call.run unitPlatform h0 (.setAdaptormatrix swapMatrix) = .ok (.err .success, h) ∧
        h.bufferChannels = 3 := by
      with_unfolding_all exact ⟨_, _, rfl, rfl, rfl⟩
    have hrun := Run.call (.start (s := h0)) hset
    exact ⟨h0, h, _, hopen, hrun, accepted_append, ((blockSize_irrelevant hopen hrun).1 rfl
      fun _ => accepted_append).1 (by rw [hchannels]; decide)⟩
  · obtain ⟨h, hopen, hrows, hchannels⟩ : ∃ h : Handle ℚ,
        ambixOpen unitPlatform (unitDisk (some reducedFile)) .read ⟨.basic, 0, 0⟩ = .ok (some h) ∧
        h.info.ambichannels = 4 ∧ h.bufferChannels = 5 := by
      with_unfolding_all exact ⟨_, rfl, rfl, rfl⟩
    exact ⟨h, hopen, hrows, (blockSize_irrelevant hopen .start).2 rfl (by rw [hchannels]; decide)⟩

/-- Two ambisonics and 2^32-1 extra channels: no frame fits in the buffer. -/
theorem blockSize_irrelevant_fails : ∃ (h0 h : Handle ℚ)
      (events : List (Event (Handle ℚ) (Call ℚ) (Answer ℚ))) (r : List ℚ × Handle ℚ)
      (fault : Stop),
    ambixOpen unitPlatform (unitDisk none) .write ⟨.extended, 0xffffffff, 2⟩ = .ok (some h0) ∧
    Session unitPlatform h0 events h ∧ Accepted events ∧
    h.writeOut unitPlatform [⟨.float32, fun _ => 0, fun _ => 0, 0⟩] = .ok (some r) ∧
    h.writeOut unitPlatform [⟨.float32, fun _ => 1, fun _ => 0, 1⟩] = .error fault ∧
    ¬ WritesAlike unitPlatform h := by
  obtain ⟨h0, h, hopen, hset, hreal, hsize, hbuffer, hrows, hcols, hmode, hpending, hswap, hmr,
      hok⟩ : ∃ h0 h : Handle ℚ,
      ambixOpen unitPlatform (unitDisk none) .write ⟨.extended, 0xffffffff, 2⟩ = .ok (some h0) ∧
      Call.run unitPlatform h0 (.setAdaptormatrix (unitMatrix 1 2)) = .ok (.err .success, h) ∧
      h.realChannels = 2^32+1 ∧ h.adaptorbuffersize = 256 ∧ h.bufferChannels = 2^32+1 ∧
      h.matrix.rows = 1 ∧ h.matrix.cols = 2 ∧ h.filemode.canWrite = true ∧
      h.pendingHeaders = true ∧
      h.byteswap = decide (unitPlatform.host ≠ h.sf.file.order) ∧
      markersregionsChunks unitPlatform.host h.byteswap h.markers h.regions = .ok [] ∧
      h.headerOk [] = true :=
    ⟨_, _, rfl, rfl, rfl, rfl, rfl, rfl, rfl, rfl, rfl, rfl, rfl, rfl⟩
  have hrun := Run.call (.start (s := h0)) hset
  have hbytes : 24+4*(h.matrix.rows.toNat*h.matrix.cols.toNat) < 2^64 := by
    rw [hrows, hcols]
    decide
  have hheader := writeHeader_eq hmode hmr (by simp) (fun _ _ => by rw [hcols]; decide) hbytes hswap
  rw [hok] at hheader
  have hcheck : ∃ g, h.checkWrite unitPlatform = .ok (.success, g) := by
    rw [Handle.checkWrite, if_neg fun hno => hno.2 (by rw [hrows]; rfl), Handle.writePending,
      if_pos hpending, hheader]
    exact ⟨_, rfl⟩
  obtain ⟨g, hcheck⟩ := hcheck
  have hcount : h.bytes 1 4 < 2^64 := by
    rw [Layout.bytes, hbuffer]
    decide
  obtain ⟨r, hr⟩ := writeOut_empty hcheck
  obtain ⟨fault, hfault⟩ := writeOut_overflows (t := ⟨.float32, fun _ => 1, fun _ => 0, 1⟩)
    (session_writeHandle hopen hrun) (encoder_of_accepted hopen hrun accepted_append)
    (by rw [hbuffer]; decide) (fun _ => rfl) hcheck hcount (by rw [hreal, hsize]; decide)
  exact ⟨h0, h, _, r, fault, hopen, hrun, accepted_append, hr, hfault,
    not_writesAlike (fun _ => rfl) hcheck hcount hfault⟩

end Ambix
