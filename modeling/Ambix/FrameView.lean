import Ambix.BufferRoom

/-! Reading: a `FrameView` is a way to take the frames of a file apart, and a handle
that shows one delivers the frames of its file through it, whatever the requests. -/
namespace Ambix
open Machine

/-- How file frames of `channels` samples are presented: `ambi` ambisonics and `extra`
other samples. -/
structure FrameView (K : Type) where
  channels : Nat
  ambi : Nat
  extra : Nat
  decode : List K → List K × List K
  ambi_width : ∀ fr, fr.length = channels → (decode fr).1.length = ambi
  extra_width : ∀ fr, fr.length = channels → (decode fr).2.length = extra

abbrev Frame (K : Type) := List K × List K

def rawView (K : Type) {channels ambi : Nat} (h : ambi ≤ channels) : FrameView K where
  channels := channels
  ambi := ambi
  extra := channels-ambi
  decode fr := (fr.take ambi, fr.drop ambi)
  ambi_width fr hfr := by rw [List.length_take, hfr, Nat.min_eq_left h]
  extra_width fr hfr := by rw [List.length_drop, hfr]

/-- What one request is given. -/
structure Transfer (K : Type) where
  type : SampleType
  ambidata : Nat → K
  otherdata : Nat → K
  frames : Nat

variable {K : Type}

def total (ts : List (Transfer K)) : Nat := (ts.map Transfer.frames).sum

@[simp] theorem total_cons (t : Transfer K) (ts : List (Transfer K)) :
    total (t :: ts) = t.frames+total ts := by simp [total]

variable [Field K]

def decodedView (matrix : AmbixMatrix K) {channels : Nat} (_ : matrix.cols.toNat ≤ channels) :
    FrameView K where
  channels := channels
  ambi := matrix.rows.toNat
  extra := channels-matrix.cols.toNat
  decode fr := (mix id id matrix fr, fr.drop matrix.cols.toNat)
  ambi_width fr _ := mix_length id id matrix fr
  extra_width fr hfr := by rw [List.length_drop, hfr]

def FrameView.split (V : FrameView K) (ambidata otherdata : Nat → K) (frames : List (List K)) :
    Split K :=
  ⟨(Cursor.start ambidata).putAll (frames.flatMap fun fr => (V.decode fr).1),
    (Cursor.start otherdata).putAll (frames.flatMap fun fr => (V.decode fr).2)⟩

/-- A handle takes the frames of its file apart as `V` does. -/
structure Presents (h : Handle K) (V : FrameView K) : Prop where
  reads : h.sf.mode.canRead = true
  channels : h.sf.file.channels.toNat = V.channels
  split : ∀ adaptorbuffer ambidata otherdata n, h.split adaptorbuffer ambidata otherdata n =
    V.split ambidata otherdata (framesOf adaptorbuffer V.channels n)

/-- A reading handle delivers the frames of its file as `V` presents them. -/
structure Shows (h : Handle K) (V : FrameView K) : Prop where
  reads : h.sf.mode.canRead = true
  channels : h.sf.file.channels.toNat = V.channels
  ambi : h.info.ambichannels.toNat = V.ambi
  extra : h.info.extrachannels.toNat = V.extra
  split : ∀ adaptorbuffer ambidata otherdata n, h.split adaptorbuffer ambidata otherdata n =
    V.split ambidata otherdata (framesOf adaptorbuffer V.channels n)

theorem Shows.presents {h : Handle K} {V : FrameView K} (hs : Shows h V) : Presents h V :=
  ⟨hs.reads, hs.channels, hs.split⟩

/-- The frames behind the two destinations, `ambi` and `extra` samples wide. -/
def Split.frames (ambi extra : Nat) (split : Split K) (n : Nat) : List (Frame K) :=
  (framesOf split.ambi.data ambi n).zip (framesOf split.other.data extra n)

def Handle.delivered (h : Handle K) (split : Split K) (n : Nat) : List (Frame K) :=
  (framesOf split.ambi.data h.info.ambichannels.toNat n).zip
    (framesOf split.other.data h.info.extrachannels.toNat n)

/-- Requests one after the other: the frames they deliver, as long as each is answered. -/
def Handle.readAll (P : Platform K) : List (Transfer K) → Handle K → Option (List (Frame K))
  | [], _ => some []
  | t :: ts, h =>
    match h.readf P t.type t.ambidata t.otherdata t.frames with
    | .ok (.ok (n, split), h') => (h.delivered split n ++ ·) <$> readAll P ts h'
    | .ok (.error _, _) | .error _ => none

def Handle.readAllIn (P : Platform K) (ambi extra : Nat) :
    List (Transfer K) → Handle K → Option (List (Frame K))
  | [], _ => some []
  | t :: ts, h =>
    match h.readf P t.type t.ambidata t.otherdata t.frames with
    | .ok (.ok (n, split), h') => (split.frames ambi extra n ++ ·) <$> readAllIn P ambi extra ts h'
    | .ok (.error _, _) | .error _ => none

/-! One request. -/

omit [Field K] in
theorem FrameView.split_frames {V : FrameView K} (ambidata otherdata : Nat → K)
    {frames : List (List K)} (hw : ∀ fr ∈ frames, fr.length = V.channels) :
    (V.split ambidata otherdata frames).frames V.ambi V.extra frames.length =
      frames.map V.decode := by
  have hambi : framesOf (V.split ambidata otherdata frames).ambi.data V.ambi frames.length =
      frames.map fun fr => (V.decode fr).1 := by
    rw [← List.length_map (fun fr => (V.decode fr).1)]
    refine framesOf_written ?_ ?_
    · simpa using fun fr hfr => V.ambi_width fr (hw fr hfr)
    · rw [FrameView.split, Cursor.start_putAll_items, List.flatMap_def]
  have hextra : framesOf (V.split ambidata otherdata frames).other.data V.extra frames.length =
      frames.map fun fr => (V.decode fr).2 := by
    rw [← List.length_map (fun fr => (V.decode fr).2)]
    refine framesOf_written ?_ ?_
    · simpa using fun fr hfr => V.extra_width fr (hw fr hfr)
    · rw [FrameView.split, Cursor.start_putAll_items, List.flatMap_def]
  rw [Split.frames, hambi, hextra, List.zip_map']

omit [Field K] in
theorem FrameView.split_counts {V : FrameView K} (ambidata otherdata : Nat → K)
    {frames : List (List K)} (hw : ∀ fr ∈ frames, fr.length = V.channels) :
    (V.split ambidata otherdata frames).ambi.count = frames.length*V.ambi ∧
      (V.split ambidata otherdata frames).other.count = frames.length*V.extra := by
  constructor
  · have hambi : ∀ l ∈ frames.map fun fr => (V.decode fr).1, l.length = V.ambi := by
      simpa using fun fr hfr => V.ambi_width fr (hw fr hfr)
    have hcount := putAll_count ambidata hambi
    rwa [List.length_map] at hcount
  · have hextra : ∀ l ∈ frames.map fun fr => (V.decode fr).2, l.length = V.extra := by
      simpa using fun fr hfr => V.extra_width fr (hw fr hfr)
    have hcount := putAll_count otherdata hextra
    rwa [List.length_map] at hcount

theorem readf_ok {P : Platform K} {h h' : Handle K} {type : SampleType}
    {ambidata otherdata : Nat → K} {n got : Nat} {split : Split K}
    (hr : h.readf P type ambidata otherdata n = .ok (.ok (got, split), h')) : ∃ size,
      adaptorbufferResize P.grants h.info h.realinfo (UInt64.ofNat n) type.size
        h.adaptorbuffersize = (.success, size) ∧
      got = (sfReadf h.sf h.adaptorbuffer n).1 ∧
      split = h.split (sfReadf h.sf h.adaptorbuffer n).2.1 ambidata otherdata got ∧
      h' = { h with
        startedReading := true
        adaptorbuffersize := size
        adaptorbuffer := (sfReadf h.sf h.adaptorbuffer n).2.1
        sf := (sfReadf h.sf h.adaptorbuffer n).2.2 } := by
  obtain ⟨size, ⟨err, hno, -⟩ | ⟨hres, -, hok, hh⟩⟩ := readf_cases hr
  · cases hno
  · obtain ⟨rfl, rfl⟩ := Prod.mk.inj (Except.ok.inj hok)
    exact ⟨size, hres, rfl, rfl, hh⟩

theorem readf_error {P : Platform K} {h h' : Handle K} {type : SampleType}
    {ambidata otherdata : Nat → K} {n : Nat} {err : Err}
    (hr : h.readf P type ambidata otherdata n = .ok (.error err, h')) :
    ∃ size, h' = { h with startedReading := true, adaptorbuffersize := size } := by
  obtain ⟨size, ⟨-, -, hh⟩ | ⟨-, -, hok, -⟩⟩ := readf_cases hr
  · exact ⟨size, hh⟩
  · cases hok

/-- What is still in front of a handle. -/
def Handle.remaining (h : Handle K) : List (List K) := h.sf.file.frames.drop h.sf.position

theorem sfReadf_reads {h : Handle K} (hreads : h.sf.mode.canRead = true) (n : Nat) :
    sfReadf h.sf h.adaptorbuffer n = ((h.remaining.take n).length,
      ((Cursor.start h.adaptorbuffer).putAll (h.remaining.take n).flatten).data,
      { h.sf with position := h.sf.position+(h.remaining.take n).length }) := if_pos hreads

theorem remaining_width {h : Handle K} {fr : List K} (hfr : fr ∈ h.remaining) :
    fr.length = h.sf.file.channels.toNat := h.sf.file.width fr (List.mem_of_mem_drop hfr)

theorem readf_left {P : Platform K} {h : Handle K} (hgrants : ∀ size, P.grants size = true)
    (hcounted : Counted h) (hreads : h.sf.mode.canRead = true) (type : SampleType) {n : Nat}
    (hbytes : h.bytes n type.size < 2^64) (ambidata otherdata : Nat → K) : ∃ split h',
      h.readf P type ambidata otherdata n =
        .ok (.ok ((h.remaining.take n).length, split), h') := by
  obtain ⟨split, h', hr⟩ := readf_answers hgrants hcounted hbytes ambidata otherdata
  rw [sfReadf_reads hreads] at hr
  exact ⟨split, h', hr⟩

/-- An answered request delivers the next frames and moves on behind them. -/
theorem readf_presents {P : Platform K} {V : FrameView K} {h h' : Handle K} (hp : Presents h V)
    {type : SampleType} {ambidata otherdata : Nat → K} {n got : Nat} {split : Split K}
    (hr : h.readf P type ambidata otherdata n = .ok (.ok (got, split), h')) :
    split.frames V.ambi V.extra got = (h.remaining.take n).map V.decode ∧
      Presents h' V ∧ h'.info = h.info ∧ h'.remaining = h.remaining.drop n := by
  obtain ⟨size, -, hgot, hsplit, rfl⟩ := readf_ok hr
  have hw : ∀ fr ∈ h.remaining.take n, fr.length = V.channels :=
    fun fr hfr => (remaining_width (List.mem_of_mem_take hfr)).trans hp.channels
  rw [sfReadf_reads hp.reads] at hgot hsplit ⊢
  dsimp only at hgot hsplit ⊢
  have hframes := framesOf_written hw
    (Cursor.start_putAll_items h.adaptorbuffer (h.remaining.take n).flatten)
  rw [hsplit, hp.split, hgot, hframes]
  refine ⟨V.split_frames _ _ hw, ⟨hp.reads, hp.channels, hp.split⟩, rfl, ?_⟩
  change h.sf.file.frames.drop (h.sf.position+(h.remaining.take n).length) = _
  rw [← List.drop_drop]
  change h.remaining.drop _ = _
  rw [List.length_take]
  cases Nat.le_total n h.remaining.length with
  | inl hle => rw [Nat.min_eq_left hle]
  | inr hle => rw [Nat.min_eq_right hle, List.drop_length, List.drop_eq_nil_of_le hle]

/-! The views of the two splits. -/

/-- The matrix that `use_matrix` selects. -/
def Layout.inUse (l : Layout K) : Option (AmbixMatrix K) :=
  match l.useMatrix with
  | .none => none
  | .matrix => some l.matrix
  | .matrix2 => some l.matrix2

theorem inUse_none {l : Layout K} : l.inUse = none ↔ l.useMatrix = .none := by
  rw [Layout.inUse]
  cases l.useMatrix <;> simp

theorem presents_raw {h : Handle K} (hreads : h.sf.mode.canRead = true) (hnone : h.inUse = none)
    (hsource : h.realinfo.ambichannels+h.realinfo.extrachannels = h.sf.file.channels)
    (hle : h.realinfo.ambichannels ≤ h.sf.file.channels) :
    Presents h (rawView K (UInt32.le_iff_toNat_le.mp hle)) where
  reads := hreads
  channels := rfl
  split adaptorbuffer ambidata otherdata n := by
    rw [Layout.split, inUse_none.mp hnone, hsource]
    exact splitAdaptor_eq _ _ _ _ _ _ hle

theorem presents_decoded {h : Handle K} {A : AmbixMatrix K} (hreads : h.sf.mode.canRead = true)
    (hA : h.inUse = some A)
    (hsource : h.realinfo.ambichannels+h.realinfo.extrachannels = h.sf.file.channels)
    (hle : A.cols ≤ h.sf.file.channels) :
    Presents h (decodedView A (UInt32.le_iff_toNat_le.mp hle)) where
  reads := hreads
  channels := rfl
  split adaptorbuffer ambidata otherdata n := by
    rw [Layout.inUse] at hA
    rw [Layout.split, hsource]
    cases hmatrix : h.useMatrix with
    | none =>
      rw [hmatrix] at hA
      cases hA
    | matrix =>
      rw [hmatrix] at hA
      obtain rfl : h.matrix = A := Option.some.inj hA
      exact splitAdaptormatrix_eq id id _ _ _ _ _ _ hle
    | matrix2 =>
      rw [hmatrix] at hA
      obtain rfl : h.matrix2 = A := Option.some.inj hA
      exact splitAdaptormatrix_eq id id _ _ _ _ _ _ hle

theorem shows_raw {h : Handle K} (hreads : h.sf.mode.canRead = true) (hnone : h.useMatrix = .none)
    (hsource : h.realinfo.ambichannels+h.realinfo.extrachannels = h.sf.file.channels)
    (hle : h.realinfo.ambichannels ≤ h.sf.file.channels)
    (hambi : h.info.ambichannels = h.realinfo.ambichannels)
    (hextra : h.info.extrachannels.toNat = h.sf.file.channels.toNat-h.realinfo.ambichannels.toNat) :
    Shows h (rawView K (UInt32.le_iff_toNat_le.mp hle)) where
  reads := hreads
  channels := rfl
  ambi := by rw [hambi]; rfl
  extra := hextra
  split := (presents_raw hreads (inUse_none.mpr hnone) hsource hle).split

theorem shows_decoded {h : Handle K} (hreads : h.sf.mode.canRead = true)
    (hmatrix : h.useMatrix = .matrix)
    (hsource : h.realinfo.ambichannels+h.realinfo.extrachannels = h.sf.file.channels)
    (hle : h.matrix.cols ≤ h.sf.file.channels) (hambi : h.info.ambichannels = h.matrix.rows)
    (hextra : h.info.extrachannels.toNat = h.sf.file.channels.toNat-h.matrix.cols.toNat) :
    Shows h (decodedView h.matrix (UInt32.le_iff_toNat_le.mp hle)) where
  reads := hreads
  channels := rfl
  ambi := by rw [hambi]; rfl
  extra := hextra
  split := (presents_decoded hreads (by rw [Layout.inUse, hmatrix]) hsource hle).split

/-! All requests. -/

theorem readAll_eq {P : Platform K} {ts : List (Transfer K)} {h : Handle K} : h.readAll P ts =
    h.readAllIn P h.info.ambichannels.toNat h.info.extrachannels.toNat ts := by
  induction ts generalizing h with
  | nil => rfl
  | cons t ts ih =>
    unfold Handle.readAll Handle.readAllIn
    split
    · rename_i got split h' hr
      obtain ⟨size, -, -, -, rfl⟩ := readf_ok hr
      rw [ih]
      rfl
    · rfl
    · rfl

theorem readAllIn_presents {P : Platform K} {V : FrameView K} {ts : List (Transfer K)}
    {h : Handle K} {fs : List (Frame K)} (hp : Presents h V)
    (hall : h.readAllIn P V.ambi V.extra ts = some fs) :
    fs = (h.remaining.take (total ts)).map V.decode := by
  induction ts generalizing h fs with
  | nil =>
    rw [← Option.some.inj hall]
    rfl
  | cons t ts ih =>
    unfold Handle.readAllIn at hall
    split at hall
    · rename_i got split h' hr
      obtain ⟨rest, hrest, rfl⟩ := Option.map_eq_some_iff.mp hall
      obtain ⟨hdel, hp', -, hdrop⟩ := readf_presents hp hr
      rw [hdel, ih hp' hrest, hdrop, total_cons, List.take_add, List.map_append]
    · cases hall
    · cases hall

/-- Answered requests deliver a stretch of the file frame by frame. -/
theorem readAll_shows {P : Platform K} {V : FrameView K} {ts : List (Transfer K)} {h : Handle K}
    {fs : List (Frame K)} (hs : Shows h V) (hall : h.readAll P ts = some fs) :
    fs = ((h.sf.file.frames.drop h.sf.position).take (total ts)).map V.decode := by
  rw [readAll_eq, hs.ambi, hs.extra] at hall
  exact readAllIn_presents hs.presents hall

theorem readAll_length {P : Platform K} {V : FrameView K} {ts : List (Transfer K)} {h : Handle K}
    {fs : List (Frame K)} (hs : Shows h V) (hpos : h.sf.position = 0)
    (hall : h.readAll P ts = some fs) : fs.length = min (total ts) h.sf.file.frames.length := by
  rw [readAll_shows hs hall, hpos, List.length_map, List.length_take, List.drop_zero]

theorem readAllIn_frame {P : Platform K} {V : FrameView K} {ts : List (Transfer K)} {h : Handle K}
    {fs : List (Frame K)} (hp : Presents h V) (hall : h.readAllIn P V.ambi V.extra ts = some fs)
    {i : Nat} {f : Frame K} (hf : fs[i]? = some f) :
    ∃ fr, h.remaining[i]? = some fr ∧ fr.length = V.channels ∧ f = V.decode fr := by
  rw [readAllIn_presents hp hall, List.getElem?_map, Option.map_eq_some_iff] at hf
  obtain ⟨fr, hfr, rfl⟩ := hf
  rw [List.getElem?_take] at hfr
  split at hfr
  · exact ⟨fr, hfr, (remaining_width (List.mem_of_getElem? hfr)).trans hp.channels, rfl⟩
  · cases hfr

theorem readAll_frame {P : Platform K} {V : FrameView K} {ts : List (Transfer K)} {h : Handle K}
    {fs : List (Frame K)} (hs : Shows h V) (hall : h.readAll P ts = some fs) {i : Nat} {f : Frame K}
    (hf : fs[i]? = some f) :
    ∃ fr, (h.sf.file.frames.drop h.sf.position)[i]? = some fr ∧ fr.length = V.channels ∧
      f = V.decode fr := by
  rw [readAll_eq, hs.ambi, hs.extra] at hall
  exact readAllIn_frame hs.presents hall hf

theorem readAll_related {P : Platform K} {V W : FrameView K} {h g : Handle K} (hV : Shows h V)
    (hW : Shows g W) (hsf : h.sf = g.sf) {R : Frame K → Frame K → Prop}
    (hR : ∀ fr, fr.length = V.channels → R (V.decode fr) (W.decode fr)) {ts us : List (Transfer K)}
    {fs gs : List (Frame K)} (hfs : h.readAll P ts = some fs) (hgs : g.readAll P us = some gs)
    {i : Nat} {f k : Frame K} (hf : fs[i]? = some f) (hk : gs[i]? = some k) : R f k := by
  obtain ⟨fr, hfr, hlen, rfl⟩ := readAll_frame hV hfs hf
  obtain ⟨fr', hfr', -, rfl⟩ := readAll_frame hW hgs hk
  rw [hsf, hfr'] at hfr
  rw [Option.some.inj hfr]
  exact hR fr hlen

theorem readAllIn_answered {P : Platform K} (hg : ∀ size, P.grants size = true) {ambi extra : Nat}
    (ts : List (Transfer K)) (h : Handle K) (hcounted : Counted h)
    (hts : ∀ t ∈ ts, h.bytes t.frames t.type.size < 2^64) :
    ∃ fs, h.readAllIn P ambi extra ts = some fs := by
  induction ts generalizing h with
  | nil => exact ⟨[], rfl⟩
  | cons t ts ih =>
    obtain ⟨split, h', hr⟩ := readf_answers hg hcounted (hts t List.mem_cons_self) t.ambidata
      t.otherdata
    have hlayout := readf_layout hr
    obtain ⟨fs, hfs⟩ := ih h' (hcounted.of_same hlayout (readf_sameFile hr))
      fun t' ht' => by rw [hlayout]; exact hts t' (List.mem_cons_of_mem t ht')
    refine ⟨split.frames ambi extra (sfReadf h.sf h.adaptorbuffer t.frames).1 ++ fs, ?_⟩
    rw [Handle.readAllIn, hr]
    dsimp only
    rw [hfs]
    rfl

theorem readAll_answered {P : Platform K} (hg : ∀ size, P.grants size = true)
    (ts : List (Transfer K)) (h : Handle K) (hcounted : Counted h)
    (hts : ∀ t ∈ ts, t.frames < 2^29) : ∃ fs, h.readAll P ts = some fs := by
  rw [readAll_eq]
  exact readAllIn_answered hg ts h hcounted fun t ht =>
    bytes_lt hcounted.unwrapped (hts t ht) t.type

end Ambix
