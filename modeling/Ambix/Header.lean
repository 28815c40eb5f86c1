import Ambix.Libambix
import Ambix.UuidCodec
import Ambix.Machine.Run

/-! `_ambix_write_header`: the chunks it hands to the backend, and what becomes of them. -/
namespace Ambix
open Machine

/-! Chunk writes. -/

section chunks
variable {K : Type}

def SndFile.setChunks (sf : SndFile K) (chunks : List Chunk) : SndFile K :=
  chunks.foldl (fun sf c => (sfSetChunk sf c.id c.data).2) sf

/-- Those of some chunks that are stored, the first one being write number `n`. -/
def storedChunks (ok : Nat → Bool) : Nat → List Chunk → List Chunk
  | _, [] => []
  | n, c :: cs => if ok n then c :: storedChunks ok (n+1) cs else storedChunks ok (n+1) cs

def SndFile.withChunks (sf : SndFile K) (chunks : List Chunk) (asked : Nat) : SndFile K :=
  { sf with file := { sf.file with chunks := chunks }, asked := asked }

theorem sfSetChunk_fst (sf : SndFile K) (id : ChunkId) (data : List UInt8) :
    (sfSetChunk sf id data).1 = if sf.chunkOk sf.asked = true then .success else .unknown := by
  unfold sfSetChunk
  split <;> rfl

theorem sfSetChunk_frame (sf : SndFile K) (id : ChunkId) (data : List UInt8) :
    ∃ chunks asked, (sfSetChunk sf id data).2 = sf.withChunks chunks asked := by
  unfold sfSetChunk
  split
  · exact ⟨_, _, rfl⟩
  · exact ⟨_, _, rfl⟩

theorem setChunks_eq (sf : SndFile K) (chunks : List Chunk) : sf.setChunks chunks =
    sf.withChunks (sf.file.chunks ++ storedChunks sf.chunkOk sf.asked chunks)
      (sf.asked+chunks.length) := by
  induction chunks generalizing sf with
  | nil =>
    rw [storedChunks, List.append_nil]
    rfl
  | cons c cs ih =>
    change ((sfSetChunk sf c.id c.data).2).setChunks cs = _
    rw [ih, storedChunks, List.length_cons, sfSetChunk]
    by_cases hok : sf.chunkOk sf.asked = true
    · rw [if_pos hok, if_pos hok]
      simp only [SndFile.withChunks, List.append_assoc, List.singleton_append]
      rw [Nat.add_assoc, Nat.add_comm 1]
    · rw [if_neg hok, if_neg hok]
      simp only [SndFile.withChunks]
      rw [Nat.add_assoc, Nat.add_comm 1]

theorem setChunks_append (sf : SndFile K) (cs ds : List Chunk) :
    sf.setChunks (cs ++ ds) = (sf.setChunks cs).setChunks ds := List.foldl_append

theorem storedChunks_all {ok : Nat → Bool} {n : Nat} {chunks : List Chunk}
    (h : ∀ k < chunks.length, ok (n+k) = true) : storedChunks ok n chunks = chunks := by
  induction chunks generalizing n with
  | nil => rfl
  | cons c cs ih =>
    have hn : ok n = true := h 0 (by simp)
    rw [storedChunks, if_pos hn, ih fun k hk => ?_]
    have := h (k+1) (by simpa using hk)
    rwa [Nat.add_assoc, Nat.add_comm 1]

theorem storedChunks_none {ok : Nat → Bool} {n : Nat} {chunks : List Chunk}
    (h : ∀ k < chunks.length, ok (n+k) = false) : storedChunks ok n chunks = [] := by
  induction chunks generalizing n with
  | nil => rfl
  | cons c cs ih =>
    have hn : ok n = false := h 0 (by simp)
    rw [storedChunks, if_neg (by rw [hn]; decide), ih fun k hk => ?_]
    have := h (k+1) (by simpa using hk)
    rwa [Nat.add_assoc, Nat.add_comm 1]

def ChunkWrite.chunk (w : ChunkWrite) : Chunk := ⟨w.id, w.data.take w.datasize.toNat⟩

def ChunkWrite.Inside (w : ChunkWrite) : Prop := w.datasize.toNat ≤ w.data.length

theorem writeChunk_eq {sf : SndFile K} {w : ChunkWrite} (hin : w.Inside) :
    writeChunk sf w.id w.data w.datasize.toNat = .ok (sfSetChunk sf w.id w.chunk.data) := by
  rw [writeChunk, load_eq_ok _ _ _ (by rw [Nat.zero_add]; exact hin), ok_bind]
  rfl

theorem writeChunk_inside {sf : SndFile K} {w : ChunkWrite} {r : Err × SndFile K}
    (h : writeChunk sf w.id w.data w.datasize.toNat = .ok r) : w.Inside := by
  obtain ⟨data, hload, -⟩ := bind_eq_ok.mp h
  unfold load at hload
  split at hload
  · rename_i hle
    rwa [Nat.zero_add] at hle
  · cases hload

theorem writeChunks_ok {sf sf' : SndFile K} {writes : List ChunkWrite} :
    writes.foldlM (fun sf w => do
      let (_, sf) ← writeChunk sf w.id w.data w.datasize.toNat
      .ok sf) sf = .ok sf' ↔
    (∀ w ∈ writes, w.Inside) ∧ sf' = sf.setChunks (writes.map ChunkWrite.chunk) := by
  induction writes generalizing sf with
  | nil =>
    rw [List.foldlM_nil, pure_eq_ok, Except.ok.injEq]
    exact ⟨fun h => ⟨by simp, h.symm⟩, fun h => h.2.symm⟩
  | cons w ws ih =>
    rw [List.foldlM_cons]
    constructor
    · intro h
      obtain ⟨sf₁, hw, hws⟩ := bind_eq_ok.mp h
      obtain ⟨r, hr, hsf⟩ := bind_eq_ok.mp hw
      have hin := writeChunk_inside hr
      rw [writeChunk_eq hin] at hr
      obtain rfl := Except.ok.inj hr
      obtain rfl : (sfSetChunk sf w.id w.chunk.data).2 = sf₁ := Except.ok.inj hsf
      obtain ⟨hall, rfl⟩ := ih.mp hws
      exact ⟨List.forall_mem_cons.mpr ⟨hin, hall⟩, rfl⟩
    · rintro ⟨hall, rfl⟩
      obtain ⟨hin, hall⟩ := List.forall_mem_cons.mp hall
      rw [writeChunk_eq hin, ok_bind]
      exact ih.mpr ⟨hall, rfl⟩

theorem writeMarkersregions_ok {host : ByteOrder} {swap : Bool} {markers : List Marker}
    {regions : List Region} {sf sf' : SndFile K} {res : Err} :
    writeMarkersregions host swap markers regions sf = .ok (res, sf') ↔ ∃ writes,
      markersregionsChunks host swap markers regions = .ok writes ∧ (∀ w ∈ writes, w.Inside) ∧
        res = .success ∧ sf' = sf.setChunks (writes.map ChunkWrite.chunk) := by
  constructor
  · intro h
    obtain ⟨writes, hwrites, h⟩ := bind_eq_ok.mp h
    obtain ⟨sf₁, hloop, h⟩ := bind_eq_ok.mp h
    obtain ⟨rfl, rfl⟩ := Prod.mk.inj (Except.ok.inj h)
    obtain ⟨hin, rfl⟩ := writeChunks_ok.mp hloop
    exact ⟨writes, hwrites, hin, rfl, rfl⟩
  · rintro ⟨writes, hwrites, hin, rfl, rfl⟩
    rw [writeMarkersregions, hwrites, ok_bind, writeChunks_ok.mpr ⟨hin, rfl⟩]
    rfl

end chunks

/-! The header. -/

section header
variable {K : Type} [Field K] {P : Platform K} {h h' : Handle K} {writes : List ChunkWrite}

/-- What a header comes to: the marker chunks and, in an EXTENDED file, the matrix. -/
def Handle.headerChunks (P : Platform K) (h : Handle K) (writes : List ChunkWrite) : List Chunk :=
  writes.map ChunkWrite.chunk ++
    if h.realinfo.fileformat = .extended then [⟨.uuid, uuid1Bytes h.sf.file.order P.word h.matrix⟩]
    else []

/-- The only chunk write whose result is looked at is that of the matrix. -/
def Handle.headerOk (h : Handle K) (writes : List ChunkWrite) : Bool :=
  decide (h.realinfo.fileformat = .extended → h.sf.chunkOk (h.sf.asked+writes.length) = true)

theorem uuid1Size_pos (hsize : 24+4*(h.matrix.rows.toNat*h.matrix.cols.toNat) < 2^64) :
    ¬ uuid1Size h.matrix < 1 := by
  have h1 : UInt64.toNat 1 = 1 := rfl
  rw [UInt64.lt_iff_toNat_lt, uuid1Size_toNat h.matrix hsize, h1]
  omega

theorem uuid1Size_used (hsize : 24+4*(h.matrix.rows.toNat*h.matrix.cols.toNat) < 2^64) :
    (1+uuid1Size h.matrix/4).toNat*4 = 24+4*(h.matrix.rows.toNat*h.matrix.cols.toNat)+4 := by
  have h1 : UInt64.toNat 1 = 1 := rfl
  have h4 : UInt64.toNat 4 = 4 := rfl
  rw [UInt64.toNat_add, UInt64.toNat_div, uuid1Size_toNat h.matrix hsize, h1, h4]
  omega

theorem writeHeader_columned {r : Err × Handle K} (hw : h.writeHeader P = .ok r)
    (hmode : h.filemode.canWrite = true) (hreal : h.realinfo.fileformat = .extended)
    (hsize : 24+4*(h.matrix.rows.toNat*h.matrix.cols.toNat) < 2^64) : h.matrix.Columned := by
  by_contra hcols
  rw [Handle.writeHeader, if_pos hmode] at hw
  obtain ⟨⟨mres, sf⟩, -, hw⟩ := bind_eq_ok.mp hw
  dsimp only at hw
  rw [if_pos hreal, matrixToUuid1_null, ok_bind] at hw
  dsimp only at hw
  rw [if_neg (uuid1Size_pos hsize)] at hw
  obtain ⟨fault, hfault⟩ := matrixToUuid1_null_rows P.host P.word h.matrix h.byteswap
    (zeros ((1+uuid1Size h.matrix/4).toNat*4)) hcols
    (by rw [zeros_length, uuid1Size_used hsize]; omega)
  rw [hfault] at hw
  cases hw

theorem writeHeader_uuid (hmode : h.filemode.canWrite = true)
    (hreal : h.realinfo.fileformat = .extended)
    (hwrites : markersregionsChunks P.host h.byteswap h.markers h.regions = .ok writes)
    (hin : ∀ w ∈ writes, w.Inside) (hcols : h.matrix.Columned)
    (hsize : 24+4*(h.matrix.rows.toNat*h.matrix.cols.toNat) < 2^64)
    (hswap : h.byteswap = decide (P.host ≠ h.sf.file.order)) :
    h.writeHeader P =
      let sf := h.sf.setChunks (writes.map ChunkWrite.chunk)
      let r := sfSetChunk sf .uuid (uuid1Bytes h.sf.file.order P.word h.matrix)
      .ok (r.1, { h with
        sf := r.2
        pendingHeaders := if r.1 = .success then false else h.pendingHeaders }) := by
  have hmr := writeMarkersregions_ok.mpr
    ⟨writes, hwrites, hin, rfl, show h.sf.setChunks (writes.map ChunkWrite.chunk) = _ from rfl⟩
  have hlen := uuid1Bytes_length h.sf.file.order P.word h.matrix
  have hdl := uuid1Size_toNat h.matrix hsize
  have hused := uuid1Size_used hsize
  have hpos := uuid1Size_pos hsize
  have hbuf := matrixToUuid1_buffer P.host P.word h.matrix h.byteswap
    (zeros ((1+uuid1Size h.matrix/4).toNat*4)) hcols hsize (by rw [zeros_length, hused]; omega)
  have hload := load_middle [] (uuid1Bytes h.sf.file.order P.word h.matrix)
    ((zeros ((1+uuid1Size h.matrix/4).toNat*4)).drop
      (24+4*(h.matrix.rows.toNat*h.matrix.cols.toNat)))
  rw [hlen] at hload
  simp only [List.nil_append, List.length_nil] at hload
  rw [hswap, ByteOrder.swapIf_ne] at hbuf
  rw [Handle.writeHeader, if_pos hmode, hmr, ok_bind]
  dsimp only
  rw [if_pos hreal, matrixToUuid1_null, ok_bind]
  dsimp only
  rw [if_neg hpos, hswap, hbuf, ok_bind]
  dsimp only
  rw [if_neg (not_not_intro rfl), writeChunk, hdl]
  dsimp only [Option.getD]
  rw [hload]
  rfl

theorem writeHeader_plain (hmode : h.filemode.canWrite = true)
    (hreal : h.realinfo.fileformat ≠ .extended)
    (hwrites : markersregionsChunks P.host h.byteswap h.markers h.regions = .ok writes)
    (hin : ∀ w ∈ writes, w.Inside) :
    h.writeHeader P = .ok (.success, { h with
      sf := h.sf.setChunks (writes.map ChunkWrite.chunk)
      pendingHeaders := false }) := by
  have hmr := writeMarkersregions_ok.mpr
    ⟨writes, hwrites, hin, rfl, show h.sf.setChunks (writes.map ChunkWrite.chunk) = _ from rfl⟩
  rw [Handle.writeHeader, if_pos hmode, hmr, ok_bind]
  dsimp only
  rw [if_neg hreal]
  rfl

/-- The header in closed form. -/
theorem writeHeader_eq (hmode : h.filemode.canWrite = true)
    (hwrites : markersregionsChunks P.host h.byteswap h.markers h.regions = .ok writes)
    (hin : ∀ w ∈ writes, w.Inside)
    (hcols : h.realinfo.fileformat = .extended → h.matrix.Columned)
    (hsize : 24+4*(h.matrix.rows.toNat*h.matrix.cols.toNat) < 2^64)
    (hswap : h.byteswap = decide (P.host ≠ h.sf.file.order)) :
    h.writeHeader P = .ok (if h.headerOk writes then .success else .unknown, { h with
      sf := h.sf.setChunks (h.headerChunks P writes)
      pendingHeaders := if h.headerOk writes then false else h.pendingHeaders }) := by
  by_cases hreal : h.realinfo.fileformat = .extended
  · have hchunks : h.headerChunks P writes = writes.map ChunkWrite.chunk ++
        [⟨.uuid, uuid1Bytes h.sf.file.order P.word h.matrix⟩] := by
      rw [Handle.headerChunks, if_pos hreal]
    have hok : h.headerOk writes = h.sf.chunkOk (h.sf.asked+writes.length) := by
      rw [Handle.headerOk]
      simp [hreal]
    rw [writeHeader_uuid hmode hreal hwrites hin (hcols hreal) hsize hswap, hchunks,
      setChunks_append, hok]
    dsimp only
    have hres : (sfSetChunk (h.sf.setChunks (writes.map ChunkWrite.chunk)) .uuid
        (uuid1Bytes h.sf.file.order P.word h.matrix)).1 =
        if h.sf.chunkOk (h.sf.asked+writes.length) = true then .success else .unknown := by
      rw [sfSetChunk_fst, setChunks_eq, List.length_map]
      rfl
    rw [hres]
    cases h.sf.chunkOk (h.sf.asked+writes.length) <;> rfl
  · have hchunks : h.headerChunks P writes = writes.map ChunkWrite.chunk := by
      rw [Handle.headerChunks, if_neg hreal, List.append_nil]
    have hok : h.headerOk writes = true := decide_eq_true fun he => absurd he hreal
    rw [writeHeader_plain hmode hreal hwrites hin, hchunks, hok]
    rfl

theorem writeHeader_frame {res : Err} (hw : h.writeHeader P = .ok (res, h')) :
    ∃ chunks asked pending,
      h' = { h with sf := h.sf.withChunks chunks asked, pendingHeaders := pending } := by
  unfold Handle.writeHeader at hw
  split at hw
  · obtain ⟨⟨mres, sf⟩, hmr, hw⟩ := bind_eq_ok.mp hw
    obtain ⟨writes, -, -, -, hsf⟩ := writeMarkersregions_ok.mp hmr
    rw [setChunks_eq] at hsf
    dsimp only at hw hsf
    subst hsf
    split at hw
    · obtain ⟨⟨datalen, d⟩, -, hw⟩ := bind_eq_ok.mp hw
      dsimp only at hw
      split at hw
      · exact ⟨_, _, h.pendingHeaders, (answered_state hw).symm⟩
      · obtain ⟨⟨len, data⟩, -, hw⟩ := bind_eq_ok.mp hw
        dsimp only at hw
        split at hw
        · exact ⟨_, _, h.pendingHeaders, (answered_state hw).symm⟩
        · obtain ⟨⟨cres, sf'⟩, hchunk, hw⟩ := bind_eq_ok.mp hw
          obtain ⟨payload, -, hset⟩ := bind_eq_ok.mp hchunk
          obtain ⟨chunks, asked, hsf⟩ := sfSetChunk_frame
            (h.sf.withChunks (h.sf.file.chunks ++ storedChunks h.sf.chunkOk h.sf.asked
              (writes.map ChunkWrite.chunk)) (h.sf.asked+(writes.map ChunkWrite.chunk).length))
            .uuid payload
          rw [Except.ok.inj hset] at hsf
          dsimp only at hsf
          subst hsf
          exact ⟨chunks, asked, _, (answered_state hw).symm⟩
    · exact ⟨_, _, _, (answered_state hw).symm⟩
  · exact ⟨h.sf.file.chunks, h.sf.asked, h.pendingHeaders, (answered_state hw).symm⟩

end header
end Ambix
