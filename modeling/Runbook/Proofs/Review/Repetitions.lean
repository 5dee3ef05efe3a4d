import Mathlib.Data.List.Nodup
import Runbook.Proofs.Review.Messages

/-!
# Names that come a second time

Each later step with a name that came before is reported once, with the position of the first step
of the name and its own:

* `Repetition`, `Repetition.issue`: a later position of a name, and its finding;
* `Repeats`: the name stands at both positions, and nowhere before the first;
* `repetitions`, **`mem_repetitions_iff`**: the repetitions of a list of names;
* **`duplicateIssues_eq`**: the findings are those of the repetitions, in order;
* **`repetitions_eq_nil_iff`**: there are none if and only if all names differ.
-/

namespace Runbook.Review

/-- A later position of a name, with the position of its first one. Positions count from zero. -/
structure Repetition where
  name : String
  first : Nat
  own : Nat

/-- The finding of a repetition, which counts positions from one. -/
def Repetition.issue (x : Repetition) : Issue :=
  ⟨.error, "Duplicate step name '" ++ x.name ++ "' found at positions " ++
    toString (x.first + 1) ++ " and " ++ toString (x.own + 1), some x.name,
    some "Use unique names for all steps"⟩

/-- **The name stands at both positions**, and nowhere before the first of them. -/
structure Repeats (names : List String) (x : Repetition) : Prop where
  atOwn : names[x.own]? = some x.name
  atFirst : names[x.first]? = some x.name
  earlier : x.first < x.own
  least : ∀ i < x.first, names[i]? ≠ some x.name

/-- The repetition at a position, if the name there came before. -/
def repetitionAt (names : List String) (entry : String × Nat) : Option Repetition :=
  (names.findIdx? (· = entry.1)).bind fun first =>
    if first < entry.2 then some ⟨entry.1, first, entry.2⟩ else none

/-- The repetitions of a list of names, in order. -/
def repetitions (names : List String) : List Repetition :=
  names.zipIdx.filterMap (repetitionAt names)

/-- The first position of a name. -/
theorem findIdx?_eq_some_iff {names : List String} {name : String} {i : Nat} :
    names.findIdx? (· = name) = some i ↔
      names[i]? = some name ∧ ∀ j < i, names[j]? ≠ some name := by
  rw [List.findIdx?_eq_some_iff_getElem]
  constructor
  · rintro ⟨hi, hname, hleast⟩
    refine ⟨?_, fun j hj he => ?_⟩
    · rw [List.getElem?_eq_getElem hi]
      exact congrArg some (of_decide_eq_true hname)
    · obtain ⟨hlt, he⟩ := List.getElem?_eq_some_iff.mp he
      exact hleast j hj (decide_eq_true he)
  · rintro ⟨hname, hleast⟩
    obtain ⟨hi, he⟩ := List.getElem?_eq_some_iff.mp hname
    refine ⟨hi, decide_eq_true he, fun j hj hd => hleast j hj ?_⟩
    rw [List.getElem?_eq_getElem (Nat.lt_trans hj hi)]
    exact congrArg some (of_decide_eq_true hd)

/-- **The repetitions are the later positions of names**, each with the first one. -/
theorem mem_repetitions_iff {names : List String} {x : Repetition} :
    x ∈ repetitions names ↔ Repeats names x := by
  simp only [repetitions, List.mem_filterMap, Prod.exists, List.mem_zipIdx_iff_getElem?,
    repetitionAt, Option.bind_eq_some_iff, findIdx?_eq_some_iff]
  constructor
  · rintro ⟨name, own, hown, first, ⟨hfirst, hleast⟩, h⟩
    split at h
    · cases h
      exact ⟨hown, hfirst, ‹_›, hleast⟩
    · cases h
  · rintro ⟨hown, hfirst, hlt, hleast⟩
    exact ⟨x.name, x.own, hown, x.first, ⟨hfirst, hleast⟩, by rw [if_pos hlt]⟩

/-- A name that came before has a repetition at its position. -/
theorem exists_repeats {names : List String} {name : String} {i j : Nat} (hj : j < i)
    (hi : names[i]? = some name) (h : names[j]? = some name) :
    ∃ first, Repeats names ⟨name, first, i⟩ := by
  obtain ⟨first, hfirst⟩ : ∃ first, names.findIdx? (· = name) = some first := by
    rw [← Option.isSome_iff_exists, List.findIdx?_isSome, List.any_eq_true]
    exact ⟨name, List.mem_of_getElem? h, decide_eq_true rfl⟩
  obtain ⟨hat, hleast⟩ := findIdx?_eq_some_iff.mp hfirst
  have hle : first ≤ j := Nat.le_of_not_lt fun hlt => hleast j hlt h
  exact ⟨first, hi, hat, Nat.lt_of_le_of_lt hle hj, hleast⟩

/-- The repetitions come in the order of their positions, no position twice. -/
theorem repetitions_ascending (names : List String) :
    (repetitions names).Pairwise fun x y => x.own < y.own := by
  have hpositions : names.zipIdx.Pairwise fun a b => a.2 < b.2 := by
    rw [← List.pairwise_map, List.zipIdx_map_snd]
    exact List.pairwise_lt_range'
  refine hpositions.filterMap _ fun a b hab x hx y hy => ?_
  have own_eq : ∀ {entry : String × Nat} {z : Repetition},
      repetitionAt names entry = some z → z.own = entry.2 := by
    intro entry z hz
    obtain ⟨first, -, h⟩ := Option.bind_eq_some_iff.mp hz
    split at h <;> cases h
    rfl
  rw [own_eq hx, own_eq hy]
  exact hab

/-- **The findings on names are those of the repetitions.** -/
theorem duplicateIssues_eq (w : Workflow) :
    duplicateIssues w = (repetitions (w.steps.map (·.name))).map Repetition.issue := by
  rw [duplicateIssues, repetitions, List.zipIdx_map]
  induction w.steps.zipIdx with
  | nil => rfl
  | cons entry rest ih =>
    obtain ⟨s, i⟩ := entry
    have hfind : (w.steps.map (·.name)).findIdx? (· = s.name) =
        w.steps.findIdx? fun t => t.name = s.name := by
      rw [List.findIdx?_map]
      rfl
    rw [List.flatMap_cons, ih, List.map_cons, List.filterMap_cons]
    simp only [Prod.map_apply, id_eq, repetitionAt, hfind]
    cases w.steps.findIdx? fun t => t.name = s.name with
    | none => rfl
    | some first => by_cases h : first < i <;> simp [h, issueIf, Repetition.issue]

/-- **There is no repetition if and only if all names differ.** -/
theorem repetitions_eq_nil_iff {names : List String} : repetitions names = [] ↔ names.Nodup := by
  rw [List.eq_nil_iff_forall_not_mem, List.nodup_iff_getElem?_ne_getElem?]
  constructor
  · intro h i j hij hj he
    rw [List.getElem?_eq_getElem hj] at he
    obtain ⟨first, hrep⟩ := exists_repeats hij (List.getElem?_eq_getElem hj) he
    exact h _ (mem_repetitions_iff.mpr hrep)
  · intro h x hx
    obtain ⟨hown, hfirst, hlt, -⟩ := mem_repetitions_iff.mp hx
    obtain ⟨hlength, -⟩ := List.getElem?_eq_some_iff.mp hown
    exact h x.first x.own hlt hlength (hfirst.trans hown.symm)

theorem beginsWith_repetition (x : Repetition) : x.issue.beginsWith "Duplicate step name '" = true := by
  have hmessage : x.issue.message = "Duplicate step name '" ++ (x.name ++ "' found at positions " ++
      toString (x.first + 1) ++ " and " ++ toString (x.own + 1)) := by
    simp only [Repetition.issue, String.append_assoc]
  exact Issue.beginsWith_of_append hmessage

end Runbook.Review
