import Ambix.Interleave

/-! The names of predefined matrices that ambix-interleave takes. The argument is compared as far
as it goes, so whatever a name starts with stands for the first such name. -/
namespace Ambix.Interleave
open Machine

/-- The names `ai_matrix_predefined` compares with, in this order, and what they select. -/
def predefinedNames : List (List Char × MatrixType × MatrixType) := [
  ("fuma".toList, .fuma, .fuma),
  ("n3d|sid".toList, .n3d, .sid), ("sid|n3d".toList, .n3d, .sid),
  ("sid".toList, .identity, .sid),
  ("sn3d|sid".toList, .identity, .sid), ("sid|sn3d".toList, .identity, .sid),
  ("n3d".toList, .n3d, .identity),
  ("sn3d|acn".toList, .n3d, .identity), ("acn|sn3d".toList, .n3d, .identity)]

/-- What the first name that passes the test selects. -/
def selected (test : List Char → Bool) : Option (MatrixType × MatrixType) :=
  predefinedNames.foldr (fun entry rest => if test entry.1 then some entry.2 else rest) none

def lowercase (format : List Char) : List Char := format.map Char.toLower

/-- The names are read exactly, ignoring case. -/
def ParsedExactly (format : List Char) : Prop :=
  aiMatrixPredefined format = selected fun name => lowercase format == name

def IsShortened (format : List Char) : Prop :=
  ∃ entry ∈ predefinedNames, lowercase format <+: entry.1 ∧ lowercase format ≠ entry.1

theorem take_isPrefix {fmt name : List Char} (hname : name.length < 10) :
    (fmt.take 10).isPrefixOf name = fmt.isPrefixOf name := by
  rw [Bool.eq_iff_iff, List.isPrefixOf_iff_prefix, List.isPrefixOf_iff_prefix]
  constructor
  · intro h
    have hlen := h.length_le
    rw [List.length_take] at hlen
    rwa [List.take_of_length_le (by omega)] at h
  · exact (List.take_prefix 10 fmt).trans

theorem predefinedNames_length : ∀ entry ∈ predefinedNames, entry.1.length < 10 := by decide

theorem selected_congr {test test' : List Char → Bool}
    (h : ∀ entry ∈ predefinedNames, test entry.1 = test' entry.1) :
    selected test = selected test' := by
  unfold selected
  revert h
  generalize predefinedNames = names
  intro h
  induction names with
  | nil => rfl
  | cons entry rest ih =>
    rw [List.foldr_cons, List.foldr_cons, ih fun e he => h e (List.mem_cons_of_mem _ he),
      h entry List.mem_cons_self]

theorem selected_none {test : List Char → Bool}
    (h : ∀ entry ∈ predefinedNames, test entry.1 = false) : selected test = none := by
  have hcongr : selected test = selected fun _ => false := selected_congr h
  exact hcongr

theorem aiMatrixPredefined_eq (format : List Char) :
    aiMatrixPredefined format = selected fun name => (lowercase format).isPrefixOf name := by
  have hscan : aiMatrixPredefined format =
      selected fun name => (lowercase (format.take 10)).isPrefixOf name := by
    unfold aiMatrixPredefined isAbbreviation
    simp only [Bool.or_eq_true, ite_or]
    rfl
  rw [hscan]
  refine selected_congr fun entry hentry => ?_
  rw [lowercase, List.map_take, ← lowercase]
  exact take_isPrefix (predefinedNames_length entry hentry)

theorem selected_inits : ∀ entry ∈ predefinedNames, ∀ fmt ∈ entry.1.inits,
    (selected (fun name => fmt.isPrefixOf name) = selected (fun name => fmt == name) ↔
      ¬ ∃ entry ∈ predefinedNames, fmt <+: entry.1 ∧ fmt ≠ entry.1) := by
  decide +kernel

/-- An argument is parsed exactly if and only if it is not the beginning of a longer name. -/
theorem parsedExactly_iff (format : List Char) : ParsedExactly format ↔ ¬ IsShortened format := by
  rw [ParsedExactly, aiMatrixPredefined_eq, IsShortened]
  generalize lowercase format = fmt
  by_cases hstarts : ∃ entry ∈ predefinedNames, fmt <+: entry.1
  · obtain ⟨entry, hentry, hprefix⟩ := hstarts
    exact selected_inits entry hentry fmt ((List.mem_inits fmt entry.1).mpr hprefix)
  · -- no name starts like this, and none is equal to it
    have hno : ∀ entry ∈ predefinedNames, ¬ fmt <+: entry.1 := fun entry hentry hprefix =>
      hstarts ⟨entry, hentry, hprefix⟩
    refine iff_of_true ?_ fun ⟨entry, hentry, hprefix, _⟩ => hno entry hentry hprefix
    rw [selected_none fun entry hentry => ?_, selected_none fun entry hentry => ?_]
    · exact beq_eq_false_iff_ne.mpr fun heq => hno entry hentry (heq ▸ List.prefix_refl _)
    · rw [Bool.eq_false_iff, ne_eq, List.isPrefixOf_iff_prefix]
      exact hno entry hentry

/-- The empty argument is read as the first name, and two names of their own as others. -/
theorem parsedExactly_fails :
    aiMatrixPredefined [] = some (.fuma, .fuma) ∧ ¬ ParsedExactly [] ∧
    aiMatrixPredefined "sid".toList = some (.n3d, .sid) ∧ ¬ ParsedExactly "sid".toList ∧
    aiMatrixPredefined "n3d".toList = some (.n3d, .sid) ∧ ¬ ParsedExactly "n3d".toList := by
  unfold ParsedExactly
  decide +kernel

end Ambix.Interleave
