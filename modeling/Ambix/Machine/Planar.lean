import Ambix.Machine.Block
import Ambix.Machine.Stream

/-! Planar buffers beside interleaved ones, and passes that can give up: a stream copied
block by block and a loop that stops at a failure. -/
namespace Machine
variable {α σ : Type*}

/-! Planar buffers. -/

/-- The `n` frames of `w` channels in a planar buffer: channel `c` is the stretch of `n` items
from `c*n` on. -/
def planesOf (p : Nat → α) (w n : Nat) : List (List α) :=
  (List.range n).map fun f => (List.range w).map fun c => p (c*n+f)

def channelOf (c : Nat) (frames : List (List α)) : List (List α) :=
  frames.map fun fr => fr[c]?.toList

/-- Streams of `n` frames each, joined frame by frame. -/
def sideBySide (n : Nat) : List (List (List α)) → List (List α)
  | [] => List.replicate n []
  | frames :: rest => List.zipWith (· ++ ·) frames (sideBySide n rest)

@[simp] theorem planesOf_length (p : Nat → α) (w n : Nat) : (planesOf p w n).length = n := by
  simp [planesOf]

theorem planesOf_width {p : Nat → α} {w n : Nat} : ∀ fr ∈ planesOf p w n, fr.length = w := by
  intro fr hfr
  obtain ⟨f, -, rfl⟩ := List.mem_map.mp hfr
  rw [List.length_map, List.length_range]

theorem plane_index {w n c f : Nat} (hc : c < w) (hf : f < n) : c*n+f < w*n := by
  calc
    c*n+f < c*n+n := by omega
    _ = (c+1)*n := (Nat.succ_mul c n).symm
    _ ≤ w*n := Nat.mul_le_mul_right n hc

theorem plane_injective {n c c' f f' : Nat} (hf : f < n) (hf' : f' < n)
    (h : c*n+f = c'*n+f') : c = c' ∧ f = f' := by
  have hc : c = c' := by
    have hdiv := congrArg (· / n) h
    have hpos : 0 < n := by omega
    simpa [Nat.add_comm, Nat.add_mul_div_right _ _ hpos, Nat.div_eq_of_lt hf,
      Nat.div_eq_of_lt hf'] using hdiv
  subst hc
  exact ⟨rfl, Nat.add_left_cancel h⟩

/-- Stores in two nested loops: an item keeps what is stored there, as long as no other pass
stores to its place. -/
theorem loop_places (place : Nat → Nat → Nat) (g : Nat → Nat → α) (dest : Nat → α)
    {n w f c : Nat} (hf : f < n) (hc : c < w)
    (hplace : ∀ f' c', f' < n → c' < w → place f c = place f' c' → f = f' ∧ c = c') :
    loop (fun f d => loop (fun c d => Function.update d (place f c) (g f c)) w d) n dest
      (place f c) = g f c := by
  -- after `m` passes of the outer loop and `k` of the inner one
  let Done (m k : Nat) (d : Nat → α) : Prop := f < m ∨ f = m ∧ c < k → d (place f c) = g f c
  have hrow : ∀ m d, m < n → Done m 0 d → Done m w
      (loop (fun c d => Function.update d (place m c) (g m c)) w d) := by
    intro m d hm hd
    refine loop_invariant (fun k d => Done m k d) hd fun k d hk hd hdone => ?_
    by_cases hat : place f c = place m k
    · obtain ⟨rfl, rfl⟩ := hplace m k hm hk hat
      exact Function.update_self ..
    · refine (Function.update_of_ne hat _ _).trans (hd (hdone.imp_right fun h => ⟨h.1, ?_⟩))
      have hne : c ≠ k := fun he => hat (by rw [he, h.1])
      omega
  have hall : Done n 0 (loop
      (fun f d => loop (fun c d => Function.update d (place f c) (g f c)) w d) n dest) := by
    refine loop_invariant (fun m d => Done m 0 d) (fun h => by omega) fun m d hm hd hdone => ?_
    exact hrow m d hm hd (by omega)
  exact hall (Or.inl hf)

theorem planesOf_congr {p q : Nat → α} {w n : Nat} (h : ∀ i < w*n, p i = q i) :
    planesOf p w n = planesOf q w n := by
  refine List.map_congr_left fun f hf => List.map_congr_left fun c hc => h (c*n+f) ?_
  exact plane_index (List.mem_range.mp hc) (List.mem_range.mp hf)

theorem planesOf_zero (p : Nat → α) (n : Nat) : planesOf p 0 n = List.replicate n [] := by
  change (List.range n).map (Function.const Nat []) = _
  rw [List.map_const, List.length_range]

theorem planeFrame_add (p : Nat → α) (v w n f : Nat) :
    (List.range (v+w)).map (fun c => p (c*n+f)) =
      (List.range v).map (fun c => p (c*n+f)) ++
        (List.range w).map fun c => p (v*n+(c*n+f)) := by
  rw [List.range_add, List.map_append, List.map_map]
  refine congrArg (_ ++ ·) (List.map_congr_left fun c _ => ?_)
  change p ((v+c)*n+f) = p (v*n+(c*n+f))
  rw [Nat.add_mul, Nat.add_assoc]

theorem planesOf_add (p : Nat → α) (v w n : Nat) :
    planesOf p (v+w) n =
      List.zipWith (· ++ ·) (planesOf p v n) (planesOf (fun i => p (v*n+i)) w n) := by
  rw [planesOf, planesOf, planesOf, List.zipWith_map, List.zipWith_self]
  exact List.map_congr_left fun f _ => planeFrame_add p v w n f

theorem planesOf_one (p : Nat → α) (n : Nat) : planesOf p 1 n = framesOf p 1 n := by
  refine List.map_congr_left fun f _ => ?_
  change [p (0*n+f)] = [p (1*f+0)]
  rw [Nat.zero_mul, Nat.zero_add, Nat.one_mul, Nat.add_zero]

theorem planesOf_take (p : Nat → α) (v w n : Nat) :
    (planesOf p (v+w) n).map (List.take v) = planesOf p v n := by
  rw [planesOf, planesOf, List.map_map]
  refine List.map_congr_left fun f _ => ?_
  change ((List.range (v+w)).map fun c => p (c*n+f)).take v = _
  rw [planeFrame_add, List.take_left' (by simp)]

theorem planesOf_drop (p : Nat → α) (v w n : Nat) :
    (planesOf p (v+w) n).map (List.drop v) = planesOf (fun i => p (v*n+i)) w n := by
  rw [planesOf, planesOf, List.map_map]
  refine List.map_congr_left fun f _ => ?_
  change ((List.range (v+w)).map fun c => p (c*n+f)).drop v = _
  rw [planeFrame_add, List.drop_left' (by simp)]

theorem channelOf_planesOf (p : Nat → α) {c w : Nat} (n : Nat) (hc : c < w) :
    channelOf c (planesOf p w n) = framesOf (fun i => p (c*n+i)) 1 n := by
  rw [channelOf, planesOf, framesOf, List.map_map]
  refine List.map_congr_left fun f _ => ?_
  change ((List.range w).map fun c => p (c*n+f))[c]?.toList = [p (c*n+(1*f+0))]
  rw [List.getElem?_map, List.getElem?_range hc, Nat.one_mul]
  rfl

theorem planesOf_written (d : Cursor α) (g : Nat → Nat → α) (w n : Nat) :
    planesOf (fun i => (d.putAll ((List.range w).flatMap fun c => (List.range n).map (g c))).data
      (d.count+i)) w n = (List.range n).map fun f => (List.range w).map fun c => g c f := by
  refine List.map_congr_left fun f hf => List.map_congr_left fun c hc => ?_
  have hf := List.mem_range.mp hf
  have hitem := Cursor.putAll_flatMap_at d (fun c => (List.range n).map (g c))
    (fun c _ => by simp) (List.mem_range.mp hc) hf
  rw [List.getElem?_map, List.getElem?_range hf] at hitem
  exact Option.some.inj hitem

/-! Streams side by side. -/

theorem sideBySide_length {n : Nat} {streams : List (List (List α))}
    (h : ∀ frames ∈ streams, frames.length = n) : (sideBySide n streams).length = n := by
  induction streams with
  | nil => exact List.length_replicate
  | cons frames rest ih =>
    rw [sideBySide, List.length_zipWith, h frames List.mem_cons_self,
      ih fun frames' h' => h frames' (List.mem_cons_of_mem _ h'), Nat.min_self]

theorem sideBySide_block {total : Nat} (pos n : Nat) (hle : pos+n ≤ total)
    (streams : List (List (List α))) :
    sideBySide n (streams.map fun frames => (frames.drop pos).take n) =
      ((sideBySide total streams).drop pos).take n := by
  induction streams with
  | nil =>
    rw [List.map_nil, sideBySide, sideBySide, List.drop_replicate, List.take_replicate,
      Nat.min_eq_left (by omega)]
  | cons frames rest ih =>
    rw [List.map_cons, sideBySide, sideBySide, ih, List.drop_zipWith, List.take_zipWith]

/-! Loops that can fail. -/

/-- `for(i=0; i<n; i++) if(!(s = body i s)) return NULL;` -/
def tryLoop (body : Nat → σ → Option σ) : Nat → σ → Option σ
  | 0, s => some s
  | n+1, s => tryLoop body n s >>= body n

/-- What holds at entry and survives each pass holds at exit, and no pass fails. -/
theorem tryLoop_rule (I : Nat → σ → Prop) {body : Nat → σ → Option σ} {n : Nat} {s : σ}
    (h0 : I 0 s) (hstep : ∀ i t, i < n → I i t → ∃ t', body i t = some t' ∧ I (i+1) t') :
    ∃ s', tryLoop body n s = some s' ∧ I n s' := by
  induction n with
  | zero => exact ⟨s, rfl, h0⟩
  | succ n ih =>
    obtain ⟨t, hrun, hI⟩ := ih fun i t hi => hstep i t (Nat.lt_succ_of_lt hi)
    obtain ⟨t', hbody, hI'⟩ := hstep n t (Nat.lt_succ_self n) hI
    refine ⟨t', ?_, hI'⟩
    rw [tryLoop, hrun]
    exact hbody

/-- The passes of `while(frames>blocksize) { block blocksize; frames-=blocksize; } block frames;`
as long as a block succeeds. No more than `passes` full blocks are taken. -/
def blockPasses {τ : Type} (block : Nat → τ → Checked (Option τ)) (blocksize : Nat) :
    Nat → Nat → τ → Checked (Option τ)
  | 0, frames, s => block frames s
  | passes+1, frames, s =>
    if blocksize < frames then do
      match ← block blocksize s with
      | none => .ok none
      | some s => blockPasses block blocksize passes (frames-blocksize) s
    else block frames s

/-- A stream of `frames` frames copied in blocks; every full block takes a frame at least. -/
def inBlocks {τ : Type} (block : Nat → τ → Checked (Option τ)) (blocksize : {n : Nat // 0 < n})
    (frames : Nat) (s : τ) : Checked (Option τ) :=
  blockPasses block blocksize frames frames s

/-- What holds before the first block and survives every block holds at the end, and no block
fails. -/
theorem inBlocks_rule {τ : Type} (I : Nat → τ → Prop) (blocksize : {n : Nat // 0 < n})
    {block : Nat → τ → Checked (Option τ)} {total : Nat} {s : τ} (h0 : I 0 s)
    (hblock : ∀ (done n : Nat) (t : τ), n ≤ blocksize.val → done+n ≤ total → I done t →
      ∃ t', block n t = .ok (some t') ∧ I (done+n) t') :
    ∃ s', inBlocks block blocksize total s = .ok (some s') ∧ I total s' := by
  have hpasses (passes : Nat) : ∀ done frames t, frames ≤ passes → done+frames = total →
      I done t → ∃ s', blockPasses block blocksize passes frames t = .ok (some s') ∧
        I total s' := by
    induction passes with
    | zero =>
      intro done frames t hle htotal hI
      obtain ⟨t', hrun, hI'⟩ := hblock done frames t (by omega) (by omega) hI
      exact ⟨t', hrun, htotal ▸ hI'⟩
    | succ passes ih =>
      intro done frames t hle htotal hI
      have hpos := blocksize.property
      by_cases hmore : blocksize < frames
      · obtain ⟨t', hrun, hI'⟩ := hblock done blocksize t (Nat.le_refl _) (by omega) hI
        obtain ⟨s', hrest, hI''⟩ := ih (done+blocksize) (frames-blocksize) t' (by omega)
          (by omega) hI'
        refine ⟨s', ?_, hI''⟩
        rw [blockPasses, if_pos hmore, hrun, ok_bind]
        exact hrest
      · obtain ⟨t', hrun, hI'⟩ := hblock done frames t (by omega) (by omega) hI
        refine ⟨t', ?_, htotal ▸ hI'⟩
        rw [blockPasses, if_neg hmore, hrun]
  exact hpasses total 0 total s (Nat.le_refl _) (Nat.zero_add _) h0

end Machine
