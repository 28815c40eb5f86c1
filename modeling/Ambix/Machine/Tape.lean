import Mathlib.Data.List.Basic

/-! Items with a place among them, at which the next ones are read or written. -/
namespace Machine

structure Tape (F : Type) where
  items : List F
  position : Nat

namespace Tape
variable {F : Type}

inductive Op (F : Type) where
  | seek (position : Nat)
  | read (count : Nat)
  | write (items : List F)
  | rest

/-- One operation with what it reads. -/
def step (t : Tape F) : Op F → List F × Tape F
  | .seek position => ([], { t with position := position })
  | .read count =>
    let got := (t.items.drop t.position).take count
    (got, { t with position := t.position+got.length })
  | .write items => ([], {
      items := t.items.take t.position ++ items ++ t.items.drop (t.position+items.length)
      position := t.position+items.length })
  | .rest => ([], t)

def run : List (Op F) → Tape F → Tape F
  | [], t => t
  | op :: ops, t => run ops (t.step op).2

/-- What an operation stores at `i`, if it does. -/
def stores (t : Tape F) (i : Nat) : Op F → Option F
  | .write items => if t.position ≤ i then items[i-t.position]? else none
  | .seek _ | .read _ | .rest => none

/-- What the last operation that stores something at `i` does. -/
def lastStored (i : Nat) : List (Op F) → Tape F → Option F
  | [], _ => none
  | op :: ops, t => (lastStored i ops (t.step op).2).or (t.stores i op)

/-- No operation leads behind the end. -/
def Inside : List (Op F) → Tape F → Prop
  | [], _ => True
  | op :: ops, t => (∀ position, op = .seek position → position ≤ t.items.length) ∧
      Inside ops (t.step op).2

theorem run_append (ops ops' : List (Op F)) (t : Tape F) :
    run (ops ++ ops') t = run ops' (run ops t) := by
  induction ops generalizing t with
  | nil => rfl
  | cons op ops ih => exact ih (t.step op).2

theorem inside_of_start {ops : List (Op F)} (h : ∀ position, .seek position ∈ ops → position = 0)
    (t : Tape F) : Inside ops t := by
  induction ops generalizing t with
  | nil => trivial
  | cons op ops ih =>
    refine ⟨fun position hop => ?_, ih (fun position hmem => h position ?_) _⟩
    · rw [h position (hop ▸ List.mem_cons_self)]
      exact Nat.zero_le _
    · exact List.mem_cons_of_mem op hmem

theorem step_inside {t : Tape F} {op : Op F} (h : t.position ≤ t.items.length)
    (hop : ∀ position, op = .seek position → position ≤ t.items.length) :
    (t.step op).2.position ≤ (t.step op).2.items.length := by
  cases op with
  | seek position => exact hop position rfl
  | read count =>
    simp only [step, List.length_take, List.length_drop]
    omega
  | write items =>
    simp only [step, List.length_append, List.length_take, List.length_drop]
    omega
  | rest => exact h

theorem step_item {t : Tape F} (h : t.position ≤ t.items.length) (op : Op F) (i : Nat) :
    (t.step op).2.items[i]? = (t.stores i op).or t.items[i]? := by
  cases op with
  | seek position => rfl
  | read count => rfl
  | rest => rfl
  | write items =>
    have hlength : (t.items.take t.position).length = t.position := List.length_take_of_le h
    simp only [step, stores, List.append_assoc]
    by_cases hbefore : i < t.position
    · rw [List.getElem?_append_left (by omega), List.getElem?_take_of_lt hbefore,
        if_neg (by omega), Option.none_or]
    · rw [List.getElem?_append_right (by omega), hlength, if_pos (by omega)]
      by_cases hat : i-t.position < items.length
      · rw [List.getElem?_append_left hat, List.getElem?_eq_getElem hat, Option.some_or]
      · rw [List.getElem?_append_right (by omega), List.getElem?_drop,
          List.getElem?_eq_none (l := items) (by omega), Option.none_or]
        congr 1
        omega

/-- Each place holds what has last been stored there. -/
theorem run_item {ops : List (Op F)} {t : Tape F} (h : t.position ≤ t.items.length)
    (hops : Inside ops t) (i : Nat) :
    (run ops t).items[i]? = (lastStored i ops t).or t.items[i]? := by
  induction ops generalizing t with
  | nil => rfl
  | cons op ops ih =>
    rw [run, ih (step_inside h hops.1) hops.2, step_item h, lastStored, Option.or_assoc]

theorem lastStored_mem {ops : List (Op F)} {t : Tape F} {i : Nat} {x : F}
    (h : lastStored i ops t = some x) : ∃ items, .write items ∈ ops ∧ x ∈ items := by
  induction ops generalizing t with
  | nil => cases h
  | cons op ops ih =>
    rw [lastStored, Option.or_eq_some_iff] at h
    cases h with
    | inl hlater =>
      obtain ⟨items, hmem, hx⟩ := ih hlater
      exact ⟨items, List.mem_cons_of_mem op hmem, hx⟩
    | inr hhere =>
      cases op with
      | write items =>
        have hstored : (if t.position ≤ i then items[i-t.position]? else none) = some x := hhere.2
        split at hstored
        · exact ⟨items, List.mem_cons_self, List.mem_of_getElem? hstored⟩
        · cases hstored
      | seek position => cases hhere.2
      | read count => cases hhere.2
      | rest => cases hhere.2

/-! Tapes that hold the images of other items. -/

section map
variable {G : Type} (f : F → G)

def map (t : Tape F) : Tape G := ⟨t.items.map f, t.position⟩

def Op.map : Op F → Op G
  | .seek position => .seek position
  | .read count => .read count
  | .write items => .write (items.map f)
  | .rest => .rest

theorem step_map (t : Tape F) (op : Op F) :
    ((t.map f).step (op.map f)).2 = (t.step op).2.map f := by
  cases op with
  | seek position => rfl
  | read count => simp [step, map, Op.map]
  | write items => simp [step, map, Op.map]
  | rest => rfl

theorem stores_map (t : Tape F) (op : Op F) (i : Nat) :
    (t.map f).stores i (op.map f) = (t.stores i op).map f := by
  cases op with
  | write items =>
    by_cases hat : t.position ≤ i
    · have hat' : (t.map f).position ≤ i := hat
      rw [Op.map, stores, stores, if_pos hat, if_pos hat']
      exact List.getElem?_map
    · have hat' : ¬ (t.map f).position ≤ i := hat
      rw [Op.map, stores, stores, if_neg hat, if_neg hat', Option.map_none]
  | seek position => rfl
  | read count => rfl
  | rest => rfl

theorem lastStored_map (i : Nat) (ops : List (Op F)) (t : Tape F) :
    lastStored i (ops.map (Op.map f)) (t.map f) = (lastStored i ops t).map f := by
  induction ops generalizing t with
  | nil => rfl
  | cons op ops ih =>
    rw [List.map_cons, lastStored, lastStored, step_map, ih, stores_map, Option.map_or]

end map

end Tape
end Machine
