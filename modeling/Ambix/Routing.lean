import Ambix.MatrixFill
import Mathlib.Data.Rat.Defs

/-! The two routing functions of matrix.c on any platform: the cast of a route outside
`uint32_t` is not defined, and `convert` is what the platform makes of it. Both functions check
all routes before they store any. -/
namespace Ambix
open Machine

section routing
variable {K : Type} [Field K]

/-- Two loops over a vector of routes. The first looks for a route that it `rejects`; the
second stores to those that are not `skipped`. -/
def routed (convert : Int → UInt32) (rejects skipped : Int → Prop) [DecidablePred rejects]
    [DecidablePred skipped] (route : List Int) (count : UInt32) (swap : Bool)
    (matrix : AmbixMatrix K) : Checked (Option (AmbixMatrix K)) := do
  let bad ← loopM (fun i bad => do
    let r ← item route i
    .ok (bad || decide (rejects r))) count.toNat false
  if bad then .ok none
  else some <$> loopM (fun i matrix => do
    let r ← item route i
    if skipped r then .ok matrix else routeEntry swap i (convert r) matrix) count.toNat matrix

/-- A cast is exact on the numbers of the type. -/
def ExactCast (convert : Int → UInt32) : Prop := ∀ r : Nat, r < 2^32 → (convert r).toNat = r

/-- `_matrix_router`. -/
def routerOn (convert : Int → UInt32) (route : List Int) (count : UInt32) (swap : Bool) :
    Checked (Option (AmbixMatrix K)) :=
  routed convert (fun r => r < 0 ∨ convert r > count) (fun _ => False) route count swap
    (matrixInit count count)

/-- `_matrix_permutate`. -/
def permutateOn (convert : Int → UInt32) (matrix : AmbixMatrix K) (route : List Int)
    (swap : Bool) : Checked (Option (AmbixMatrix K)) :=
  let count := if swap then matrix.cols else matrix.rows
  let maxroute := if swap then matrix.rows else matrix.cols
  routed convert (fun r => convert r > maxroute) (fun r => r < 0) route count swap matrix

/-! A cast that wraps. -/

theorem routeIndex_nat {route : Nat} (h : route < 2^32) :
    (routeIndex (route : Int)).toNat = route := by
  rw [routeIndex, UInt32.ofInt, UInt32.toNat_ofNat']
  omega

theorem routeIndex_exact : ExactCast routeIndex := fun _ h => routeIndex_nat h

theorem routerOn_routeIndex (route : List Int) (count : UInt32) (swap : Bool) :
    routerOn routeIndex route count swap =
      (matrixRouter route count swap : Checked (Option (AmbixMatrix K))) := rfl

theorem permutateOn_routeIndex (matrix : AmbixMatrix K) (route : List Int) (swap : Bool) :
    permutateOn routeIndex matrix route swap = matrixPermutate matrix route swap := by
  simp only [permutateOn, routed, matrixPermutate, ← not_le, ite_not]

/-! The check. -/

theorem item_get {α : Type} {l : List α} {i : Nat} (h : i < l.length) :
    item l i = .ok l[i] := by
  rw [item, List.getElem?_eq_getElem h]

theorem checkRoutes_eq (rejects : Int → Prop) [DecidablePred rejects] {route : List Int} {n : Nat}
    (h : route.length = n) :
    loopM (fun i bad => do
      let r ← item route i
      .ok (bad || decide (rejects r))) n false = .ok (route.any rejects) := by
  subst h
  refine (loopM_eq (fun i => (route.take i).any rejects) rfl fun i hi => ?_).trans ?_
  · rw [item_get hi, ok_bind, List.take_succ_eq_append_getElem hi, List.any_append]
    simp
  · rw [List.take_length]

/-! The stores. -/

theorem store_ofFn (rows cols : UInt32) (f : Nat → Nat → K) {r c : Nat} (hr : r < rows.toNat)
    (hc : c < cols.toNat) (v : K) : (AmbixMatrix.ofFn rows cols f).store r c v =
      .ok (.ofFn rows cols fun i j => if i = r ∧ j = c then v else f i j) := by
  rw [AmbixMatrix.store, AmbixMatrix.ofFn_rows, AmbixMatrix.ofFn_cols,
    if_neg (Nat.not_le.mpr hr), if_neg (Nat.not_le.mpr hc), AmbixMatrix.set_ofFn]

/-- The pass that may store to an entry. -/
def passOf (swap : Bool) (r c : Nat) : Nat := if swap then c else r

/-- The route by which it does. -/
def placeOf (swap : Bool) (r c : Nat) : Nat := if swap then r else c

theorem routeEntry_ofFn (rows cols : UInt32) (f : Nat → Nat → K) (swap : Bool) {i : Nat}
    {o : UInt32} (hi : i < passOf swap rows.toNat cols.toNat)
    (ho : o.toNat < placeOf swap rows.toNat cols.toNat) :
    routeEntry swap i o (AmbixMatrix.ofFn rows cols f) = .ok (.ofFn rows cols fun r c =>
      if passOf swap r c = i ∧ placeOf swap r c = o.toNat then 1 else f r c) := by
  cases swap with
  | false => exact store_ofFn rows cols f hi ho 1
  | true =>
    refine (store_ofFn rows cols f ho hi 1).trans ?_
    simp only [passOf, placeOf, if_true, and_comm]

def routedMatrix (route : List Int) (swap : Bool) (matrix : AmbixMatrix K) : AmbixMatrix K :=
  .ofFn matrix.rows matrix.cols fun r c =>
    if route[passOf swap r c]? = some (placeOf swap r c : Int) then 1 else matrix.data r c

def routedPasses (route : List Int) (swap : Bool) (matrix : AmbixMatrix K) (n : Nat) :
    AmbixMatrix K :=
  .ofFn matrix.rows matrix.cols fun r c =>
    if passOf swap r c < n ∧ route[passOf swap r c]? = some (placeOf swap r c : Int) then 1
    else matrix.data r c

theorem routedPasses_zero (route : List Int) (swap : Bool) (matrix : AmbixMatrix K) :
    routedPasses route swap matrix 0 = matrix := by
  refine Eq.trans (AmbixMatrix.ofFn_congr fun r c _ _ => ?_) matrix.ofFn_self
  exact if_neg fun h => Nat.not_lt_zero _ h.1

theorem routedPasses_all (route : List Int) (swap : Bool) (matrix : AmbixMatrix K) :
    routedPasses route swap matrix (passOf swap matrix.rows.toNat matrix.cols.toNat) =
      routedMatrix route swap matrix := by
  refine AmbixMatrix.ofFn_congr fun r c hr hc => if_congr ?_ rfl rfl
  apply and_iff_right
  cases swap with
  | false => exact hr
  | true => exact hc

theorem routedPasses_skip {route : List Int} {i : Nat} (hi : i < route.length)
    (hneg : route[i] < 0) (swap : Bool) (matrix : AmbixMatrix K) :
    routedPasses route swap matrix (i+1) = routedPasses route swap matrix i := by
  refine AmbixMatrix.ofFn_congr fun r c _ _ => if_congr ?_ rfl rfl
  by_cases hpass : passOf swap r c = i
  · rw [hpass, List.getElem?_eq_getElem hi, Option.some.injEq]
    omega
  · have hiff : passOf swap r c < i+1 ↔ passOf swap r c < i := by omega
    rw [hiff]

theorem routedPasses_store {route : List Int} {i : Nat} (hi : i < route.length) {o : UInt32}
    (ho : (o.toNat : Int) = route[i]) {swap : Bool} {matrix : AmbixMatrix K}
    (hpass : i < passOf swap matrix.rows.toNat matrix.cols.toNat)
    (hplace : o.toNat < placeOf swap matrix.rows.toNat matrix.cols.toNat) :
    routeEntry swap i o (routedPasses route swap matrix i) =
      .ok (routedPasses route swap matrix (i+1)) := by
  rw [routedPasses, routeEntry_ofFn _ _ _ _ hpass hplace]
  refine congrArg Except.ok (AmbixMatrix.ofFn_congr fun r c _ _ => ?_)
  by_cases hthis : passOf swap r c = i
  · have hiff : placeOf swap r c = o.toNat ↔ route[i] = (placeOf swap r c : Int) := by omega
    simp [hthis, List.getElem?_eq_getElem hi, hiff]
  · have hiff : passOf swap r c < i+1 ↔ passOf swap r c < i := by omega
    simp [hthis, hiff]

def Leads (convert : Int → UInt32) (skipped : Int → Prop) (size : Nat) (r : Int) : Prop :=
  skipped r ∧ r < 0 ∨ ¬ skipped r ∧ ((convert r).toNat : Int) = r ∧ r < size

theorem fillRoutes_eq {convert : Int → UInt32} {skipped : Int → Prop} [DecidablePred skipped]
    {route : List Int} {swap : Bool} {matrix : AmbixMatrix K}
    (hlen : route.length = passOf swap matrix.rows.toNat matrix.cols.toNat)
    (hleads : ∀ r ∈ route,
      Leads convert skipped (placeOf swap matrix.rows.toNat matrix.cols.toNat) r) :
    loopM (fun i matrix => do
      let r ← item route i
      if skipped r then .ok matrix else routeEntry swap i (convert r) matrix)
      (passOf swap matrix.rows.toNat matrix.cols.toNat) matrix =
      .ok (routedMatrix route swap matrix) := by
  rw [← routedPasses_all]
  apply loopM_eq (routedPasses route swap matrix)
  · exact routedPasses_zero route swap matrix
  · intro i hi
    have hi' : i < route.length := hlen ▸ hi
    rw [item_get hi', ok_bind]
    cases hleads route[i] (List.getElem_mem hi') with
    | inl hskip => rw [if_pos hskip.1, routedPasses_skip hi' hskip.2]
    | inr hkeep =>
      obtain ⟨hkeep, hexact, hlt⟩ := hkeep
      rw [if_neg hkeep]
      exact routedPasses_store hi' hexact hi (by omega)

/-! Both loops. -/

variable {convert : Int → UInt32} {rejects skipped : Int → Prop} [DecidablePred rejects]
  [DecidablePred skipped] {route : List Int} {count : UInt32} {swap : Bool}
  {matrix : AmbixMatrix K}

theorem routed_none (hlen : route.length = count.toNat) :
    routed convert rejects skipped route count swap matrix = .ok none ↔ ∃ r ∈ route, rejects r := by
  rw [routed, checkRoutes_eq rejects hlen, ok_bind]
  by_cases hbad : route.any rejects = true
  · rw [if_pos hbad]
    simpa using hbad
  · rw [if_neg hbad]
    refine iff_of_false (fun h => ?_) (by simpa using hbad)
    obtain ⟨m, -, hm⟩ := map_eq_ok.mp h
    cases hm

theorem routed_some (hlen : route.length = count.toNat)
    (hcount : count.toNat = passOf swap matrix.rows.toNat matrix.cols.toNat)
    (hpasses : ∀ r ∈ route, ¬ rejects r)
    (hleads : ∀ r ∈ route,
      Leads convert skipped (placeOf swap matrix.rows.toNat matrix.cols.toNat) r) :
    routed convert rejects skipped route count swap matrix =
      .ok (some (routedMatrix route swap matrix)) := by
  have hgood : ¬ route.any rejects = true := by simpa using hpasses
  rw [routed, checkRoutes_eq rejects hlen, ok_bind, if_neg hgood, hcount,
    fillRoutes_eq (hlen.trans hcount) hleads]
  rfl

/-- What private.h says about a vector of routes, `bad` meaning that one of them is outside
its range. -/
structure RangeChecked (run : Checked (Option (AmbixMatrix K))) (bad : Prop)
    (result : AmbixMatrix K) : Prop where
  refuses : bad → run = .ok none
  routes : ¬ bad → run = .ok (some result)

theorem rangeChecked_of_check {run : Checked (Option (AmbixMatrix K))} {bad rejected : Prop}
    {result : AmbixMatrix K} (hnone : run = .ok none ↔ rejected)
    (hsome : ¬ bad → ¬ rejected → run = .ok (some result)) :
    RangeChecked run bad result ↔ (bad ↔ rejected) := by
  constructor
  · intro hrun
    constructor
    · intro hbad
      exact hnone.mp (hrun.refuses hbad)
    · intro hrejected
      by_contra hgood
      cases (hnone.mpr hrejected).symm.trans (hrun.routes hgood)
  · intro hiff
    constructor
    · intro hbad
      exact hnone.mpr (hiff.mp hbad)
    · intro hgood
      exact hsome hgood (hgood ∘ hiff.mpr)

theorem router_refuses (hexact : ExactCast convert) {r : Int} (hr : r < 0 ∨ convert r > count) :
    r < 0 ∨ (count.toNat : Int) ≤ r := by
  by_contra hrange
  have hr' := hexact r.toNat (by have hbound := count.toNat_lt; omega)
  rw [Int.toNat_of_nonneg (by omega)] at hr'
  rw [gt_iff_lt, UInt32.lt_iff_toNat_lt] at hr
  omega

theorem router_checked (hexact : ExactCast convert) (hlen : route.length = count.toNat) :
    RangeChecked (routerOn convert route count swap)
        (∃ r ∈ route, r < 0 ∨ (count.toNat : Int) ≤ r)
        (routedMatrix route swap (matrixInit count count : AmbixMatrix K)) ↔
      ((∃ r ∈ route, (count.toNat : Int) ≤ r) → ∃ r ∈ route, r < 0 ∨ convert r > count) := by
  have hbound := count.toNat_lt
  refine (rangeChecked_of_check (routed_none hlen) fun hgood hpasses => ?_).trans ?_
  · refine routed_some hlen ?_ (fun r hmem hr => hpasses ⟨r, hmem, hr⟩) fun r hmem => ?_
    · cases swap <;> rfl
    · have hrange : ¬ (r < 0 ∨ (count.toNat : Int) ≤ r) := fun h => hgood ⟨r, hmem, h⟩
      have hr' := hexact r.toNat (by omega)
      rw [Int.toNat_of_nonneg (by omega)] at hr'
      refine Or.inr ⟨id, by omega, ?_⟩
      cases swap <;> exact not_le.mp fun h => hrange (Or.inr h)
  · constructor
    · rintro hiff ⟨r, hmem, hr⟩
      exact hiff.mp ⟨r, hmem, Or.inr hr⟩
    · intro hcond
      constructor
      · rintro ⟨r, hmem, hneg | hlarge⟩
        · exact ⟨r, hmem, Or.inl hneg⟩
        · exact hcond ⟨r, hmem, hlarge⟩
      · rintro ⟨r, hmem, hr⟩
        exact ⟨r, hmem, router_refuses hexact hr⟩

theorem permutate_checked (hexact : ExactCast convert)
    (hlen : route.length = passOf swap matrix.rows.toNat matrix.cols.toNat) :
    RangeChecked (permutateOn convert matrix route swap)
        (∃ r ∈ route, (placeOf swap matrix.rows.toNat matrix.cols.toNat : Int) ≤ r)
        (routedMatrix route swap matrix) ↔
      ((∃ r ∈ route, (placeOf swap matrix.rows.toNat matrix.cols.toNat : Int) ≤ r) ↔
        ∃ r ∈ route, placeOf swap matrix.rows.toNat matrix.cols.toNat < (convert r).toNat) := by
  have hcount : (if swap then matrix.cols else matrix.rows).toNat =
      passOf swap matrix.rows.toNat matrix.cols.toNat := by cases swap <;> rfl
  have hmax : (if swap then matrix.rows else matrix.cols).toNat =
      placeOf swap matrix.rows.toNat matrix.cols.toNat := by cases swap <;> rfl
  have hbound := (if swap then matrix.rows else matrix.cols).toNat_lt
  rw [hmax] at hbound
  have hnone : permutateOn convert matrix route swap = .ok none ↔
      ∃ r ∈ route, convert r > if swap then matrix.rows else matrix.cols :=
    routed_none (hlen.trans hcount.symm)
  simp only [gt_iff_lt, UInt32.lt_iff_toNat_lt, hmax] at hnone
  apply rangeChecked_of_check hnone
  intro hgood hpasses
  refine routed_some (hlen.trans hcount.symm) hcount (fun r hmem hr => ?_) fun r hmem => ?_
  · rw [gt_iff_lt, UInt32.lt_iff_toNat_lt, hmax] at hr
    exact hpasses ⟨r, hmem, hr⟩
  · have hlt : r < placeOf swap matrix.rows.toNat matrix.cols.toNat :=
      not_le.mp fun h => hgood ⟨r, hmem, h⟩
    by_cases hneg : r < 0
    · exact Or.inl ⟨hneg, hneg⟩
    · have hr' := hexact r.toNat (by omega)
      rw [Int.toNat_of_nonneg (by omega)] at hr'
      exact Or.inr ⟨hneg, by omega, hlt⟩

/-- Both functions let the size of the dimension pass, and `_matrix_permutate` refuses a
negative route that the cast makes too large. -/
theorem routes_checked_iff (hexact : ExactCast convert) :
    (∀ (route : List Int) (count : UInt32) (swap : Bool), route.length = count.toNat →
      (RangeChecked (routerOn convert route count swap)
          (∃ r ∈ route, r < 0 ∨ (count.toNat : Int) ≤ r)
          (routedMatrix route swap (matrixInit count count : AmbixMatrix K)) ↔
        ((∃ r ∈ route, (count.toNat : Int) ≤ r) → ∃ r ∈ route, r < 0 ∨ convert r > count))) ∧
    (∀ (matrix : AmbixMatrix K) (route : List Int) (swap : Bool),
      route.length = passOf swap matrix.rows.toNat matrix.cols.toNat →
      (RangeChecked (permutateOn convert matrix route swap)
          (∃ r ∈ route, (placeOf swap matrix.rows.toNat matrix.cols.toNat : Int) ≤ r)
          (routedMatrix route swap matrix) ↔
        ((∃ r ∈ route, (placeOf swap matrix.rows.toNat matrix.cols.toNat : Int) ≤ r) ↔
          ∃ r ∈ route, placeOf swap matrix.rows.toNat matrix.cols.toNat < (convert r).toNat))) :=
  ⟨fun _ _ _ hlen => router_checked hexact hlen,
    fun _ _ _ hlen => permutate_checked hexact hlen⟩

end routing

/-- Two rows that change places. -/
theorem routes_checked_pair :
    RangeChecked (routerOn routeIndex [1, 0] 2 false) (∃ r ∈ [1, 0], r < 0 ∨ (2 : Int) ≤ r)
        (routedMatrix [1, 0] false (matrixInit 2 2 : AmbixMatrix ℚ)) ∧
      RangeChecked (permutateOn routeIndex (matrixInit 2 2) [1, 0] true)
        (∃ r ∈ [1, 0], (2 : Int) ≤ r)
        (routedMatrix [1, 0] true (matrixInit 2 2 : AmbixMatrix ℚ)) := by
  obtain ⟨hrouter, hpermutate⟩ := routes_checked_iff (K := ℚ) routeIndex_exact
  exact ⟨(hrouter [1, 0] 2 false rfl).mpr (by decide),
    (hpermutate (matrixInit 2 2) [1, 0] true rfl).mpr (by decide)⟩

/-- One row that is routed behind the only column, and one that is to be left out. -/
theorem routes_checked_fails :
    ¬ RangeChecked (matrixRouter [1] 1 false) (∃ r ∈ [1], r < 0 ∨ (1 : Int) ≤ r)
        (routedMatrix [1] false (matrixInit 1 1 : AmbixMatrix ℚ)) ∧
      (matrixRouter [1] 1 false : Checked (Option (AmbixMatrix ℚ))) = .error (.outside 1 1) ∧
      ¬ RangeChecked (matrixPermutate (matrixInit 1 1) [1] false) (∃ r ∈ [1], (1 : Int) ≤ r)
        (routedMatrix [1] false (matrixInit 1 1 : AmbixMatrix ℚ)) ∧
      matrixPermutate (matrixInit 1 1 : AmbixMatrix ℚ) [1] false = .error (.outside 1 1) ∧
      ¬ RangeChecked (matrixPermutate (matrixInit 1 1) [-1] false) (∃ r ∈ [-1], (1 : Int) ≤ r)
        (routedMatrix [-1] false (matrixInit 1 1 : AmbixMatrix ℚ)) ∧
      matrixPermutate (matrixInit 1 1 : AmbixMatrix ℚ) [-1] false = .ok none := by
  have hrouter : (matrixRouter [1] 1 false : Checked (Option (AmbixMatrix ℚ))) =
      .error (.outside 1 1) := rfl
  have hpermutate : matrixPermutate (matrixInit 1 1 : AmbixMatrix ℚ) [1] false =
      .error (.outside 1 1) := rfl
  have hskip : matrixPermutate (matrixInit 1 1 : AmbixMatrix ℚ) [-1] false = .ok none := rfl
  refine ⟨fun h => ?_, hrouter, fun h => ?_, hpermutate, fun h => ?_, hskip⟩
  · cases hrouter.symm.trans (h.refuses (by decide))
  · cases hpermutate.symm.trans (h.refuses (by decide))
  · cases hskip.symm.trans (h.routes (by decide))

end Ambix
