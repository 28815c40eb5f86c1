import Ambix.Machine.Block

/-! Runs of a machine that answers calls. A run keeps its events, each with the state
the call was made in. -/
namespace Machine
variable {S C A : Type}

theorem answered_state {r : A × S} {a : A} {s : S} (h : (.ok r : Checked (A × S)) = .ok (a, s)) :
    r.2 = s := congrArg Prod.snd (Except.ok.inj h)

theorem answered_answer {r : A × S} {a : A} {s : S}
    (h : (.ok r : Checked (A × S)) = .ok (a, s)) : r.1 = a := congrArg Prod.fst (Except.ok.inj h)

/-- A call, the state it was made in and its answer. -/
structure Event (S C A : Type) where
  state : S
  call : C
  answer : A

/-- Calls made one after the other, none of which stops. -/
inductive Run (step : S → C → Checked (A × S)) (s : S) : List (Event S C A) → S → Prop where
  | start : Run step s [] s
  | call {events : List (Event S C A)} {t u : S} {c : C} {a : A} :
      Run step s events t → step t c = .ok (a, u) → Run step s (events ++ [⟨t, c, a⟩]) u

variable {step : S → C → Checked (A × S)}

/-- Invariant rule, with the events so far at hand. -/
theorem Run.invariant (P : List (Event S C A) → S → Prop) {s t : S} {events : List (Event S C A)}
    (hrun : Run step s events t) (h0 : P [] s)
    (hstep : ∀ events t c a u, step t c = .ok (a, u) → P events t →
      P (events ++ [⟨t, c, a⟩]) u) : P events t := by
  induction hrun with
  | start => exact h0
  | call _ hcall ih => exact hstep _ _ _ _ _ hcall ih

/-- What one call preserves, a run preserves. -/
theorem Run.preserves (P : S → Prop) {s t : S} {events : List (Event S C A)}
    (hrun : Run step s events t) (h0 : P s)
    (hstep : ∀ t c a u, step t c = .ok (a, u) → P t → P u) : P t :=
  hrun.invariant (fun _ => P) h0 fun _ t c a u => hstep t c a u

/-- Invariant rule for runs whose events all meet a condition. -/
theorem Run.invariant_of (Q : Event S C A → Prop) (P : List (Event S C A) → S → Prop) {s t : S}
    {events : List (Event S C A)} (hrun : Run step s events t) (hQ : ∀ e ∈ events, Q e)
    (h0 : P [] s)
    (hstep : ∀ events t c a u, step t c = .ok (a, u) → Q ⟨t, c, a⟩ → P events t →
      P (events ++ [⟨t, c, a⟩]) u) : P events t := by
  induction hrun with
  | start => exact h0
  | call hprev hcall ih =>
    obtain ⟨hevents, hlast⟩ := List.forall_mem_append.mp hQ
    exact hstep _ _ _ _ _ hcall (hlast _ List.mem_cons_self) (ih hevents)

def Avoids (Bad : S → Prop) (events : List (Event S C A)) (t : S) : Prop :=
  (∀ e ∈ events, ¬ Bad e.state) ∧ ¬ Bad t

/-- The events of a run meet a condition exactly where no state of it is bad, if that is so
for every step that does not start in a bad state. -/
theorem Run.avoids_iff (Q : Event S C A → Prop) (Bad : S → Prop) {s t : S}
    {events : List (Event S C A)} (hrun : Run step s events t) (h0 : ¬ Bad s)
    (hstep : ∀ t c a u, step t c = .ok (a, u) → ¬ Bad t → (Q ⟨t, c, a⟩ ↔ ¬ Bad u)) :
    (∀ e ∈ events, Q e) ↔ Avoids Bad events t := by
  induction hrun with
  | start => exact ⟨fun _ => ⟨fun e he => (List.not_mem_nil he).elim, h0⟩,
      fun _ e he => (List.not_mem_nil he).elim⟩
  | @call events t u c a hprev hcall ih =>
    rw [Avoids, List.forall_mem_append, List.forall_mem_append, List.forall_mem_singleton,
      List.forall_mem_singleton, ih, Avoids, and_assoc, and_assoc]
    constructor
    · rintro ⟨hstates, hgood, hlast⟩
      exact ⟨hstates, hgood, (hstep t c a u hcall hgood).mp hlast⟩
    · rintro ⟨hstates, hgood, hnext⟩
      exact ⟨hstates, hgood, (hstep t c a u hcall hgood).mpr hnext⟩

theorem Run.event {s t : S} {events : List (Event S C A)} {e : Event S C A}
    (hrun : Run step s events t) (he : e ∈ events) :
    ∃ u, step e.state e.call = .ok (e.answer, u) := by
  induction hrun with
  | start => cases he
  | call hprev hcall ih =>
    cases List.mem_append.mp he with
    | inl hold => exact ih hold
    | inr hnew =>
      rw [List.mem_singleton.mp hnew]
      exact ⟨_, hcall⟩

theorem Run.last {s t : S} {events : List (Event S C A)} {e : Event S C A}
    (hrun : Run step s (events ++ [e]) t) : step e.state e.call = .ok (e.answer, t) := by
  generalize hall : events ++ [e] = all at hrun
  cases hrun with
  | start => simp at hall
  | call hprev hcall =>
    rw [List.singleton_inj.mp (List.append_inj' hall rfl).2]
    exact hcall

theorem Run.before {s t : S} {before after : List (Event S C A)} {e : Event S C A}
    (hrun : Run step s (before ++ e :: after) t) : Run step s before e.state := by
  generalize hevents : before ++ e :: after = events at hrun
  induction hrun generalizing after with
  | start => simp at hevents
  | @call events t u c a hprev hcall ih =>
    rcases List.eq_nil_or_concat after with rfl | ⟨init, last, rfl⟩
    · obtain ⟨rfl, hlast⟩ := List.append_inj' hevents rfl
      rw [List.cons.inj hlast |>.1]
      exact hprev
    · have happ : (before ++ e :: init) ++ [last] = events ++ [⟨t, c, a⟩] := by
        rw [← hevents, List.concat_eq_append, List.append_assoc, List.cons_append]
      exact ih (List.append_inj' happ rfl).1

/-! A machine that answers every call. -/

section total
variable (f : S → C → A × S)

def trace : S → List C → List (Event S C A)
  | _, [] => []
  | s, c :: cs => ⟨s, c, (f s c).1⟩ :: trace (f s c).2 cs

def leadsTo : S → List C → S
  | s, [] => s
  | s, c :: cs => leadsTo (f s c).2 cs

theorem leadsTo_append (s : S) (cs ds : List C) :
    leadsTo f s (cs ++ ds) = leadsTo f (leadsTo f s cs) ds := by
  induction cs generalizing s with
  | nil => rfl
  | cons c cs ih => exact ih (f s c).2

theorem leadsTo_replicate (s : S) (c : C) (n : Nat) :
    leadsTo f s (List.replicate n c) = (fun s => (f s c).2)^[n] s := by
  induction n generalizing s with
  | zero => rfl
  | succ n ih => exact ih (f s c).2

theorem trace_append (s : S) (cs ds : List C) :
    trace f s (cs ++ ds) = trace f s cs ++ trace f (leadsTo f s cs) ds := by
  induction cs generalizing s with
  | nil => rfl
  | cons c cs ih => exact congrArg _ (ih (f s c).2)

theorem mem_of_mem_trace {s : S} {cs : List C} {e : Event S C A} (he : e ∈ trace f s cs) :
    e.call ∈ cs ∧ e.answer = (f e.state e.call).1 := by
  induction cs generalizing s with
  | nil => cases he
  | cons c cs ih =>
    rw [trace, List.mem_cons] at he
    cases he with
    | inl hfirst => exact ⟨hfirst ▸ List.mem_cons_self, hfirst ▸ rfl⟩
    | inr hlater => exact (ih hlater).imp_left (List.mem_cons_of_mem c)

theorem Run.of_calls (s : S) (cs : List C) :
    Run (fun s c => .ok (f s c)) s (trace f s cs) (leadsTo f s cs) := by
  have hfrom (t : S) (events : List (Event S C A))
      (h : Run (fun s c => .ok (f s c)) s events t) (cs : List C) :
      Run (fun s c => .ok (f s c)) s (events ++ trace f t cs) (leadsTo f t cs) := by
    induction cs generalizing t events with
    | nil => rwa [trace, List.append_nil]
    | cons c cs ih =>
      have hnext := ih (f t c).2 (events ++ [⟨t, c, (f t c).1⟩]) (.call h rfl)
      rwa [List.append_assoc] at hnext
  exact hfrom s [] .start cs

end total

end Machine
