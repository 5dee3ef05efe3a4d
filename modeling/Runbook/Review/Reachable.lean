import Runbook.Review.Issue
import Runbook.Workflow

/-!
# Steps that can be reached

A search over the positions of the top level, breadth first from the first step: from a step it goes
on to the next one and, by name, to the top-level steps that have the name of a step held by a
conditional or a branch.

* `positionOf?`: the first position with a name;
* `successors`: where the search goes on from a position;
* `outstanding`: what the search can still put in its queue, which bounds it;
* `reach`: the positions found;
* `unreachableIssues`: the steps that were not.
-/

namespace Runbook.Review

/-- The first position of a step with the name. -/
def positionOf? (steps : List Step) (name : String) : Option Nat :=
  steps.findIdx? fun s => s.name = name

/-- The positions that the search goes on to from the step at a position. -/
def successors (steps : List Step) (index : Nat) (s : Step) : List Nat :=
  (if index + 1 < steps.length then [index + 1] else []) ++
    match s.kind with
    | .conditional => s.children.filterMap fun c => positionOf? steps c.name
    | .branch => s.children.filterMap fun c => positionOf? steps c.name
    | .command => []
    | .auth => []
    | .loop => []

/-- How many positions the search goes on to from a position. -/
def fanOut (steps : List Step) (index : Nat) : Nat :=
  match steps[index]? with
  | some s => (successors steps index s).length
  | none => 0

/-- How many positions the search will still put in its queue, for the positions not yet found. -/
def outstanding (steps : List Step) (seen : List Nat) : List Nat → Nat
  | [] => 0
  | i :: rest => (if i ∈ seen then 0 else fanOut steps i) + outstanding steps seen rest

theorem outstanding_cons_le (steps : List Step) (i : Nat) (seen candidates : List Nat) :
    outstanding steps (i :: seen) candidates ≤ outstanding steps seen candidates := by
  induction candidates with
  | nil => exact Nat.le_refl _
  | cons j rest ih =>
    simp only [outstanding, List.mem_cons]
    by_cases hj : j = i <;> by_cases hm : j ∈ seen <;> simp [hj, hm] <;> omega

/-- **What a position owes is paid when it is found.** -/
theorem outstanding_cons_add_fanOut_le (steps : List Step) {i : Nat}
    {seen candidates : List Nat} (hi : i ∈ candidates) (hs : i ∉ seen) :
    outstanding steps (i :: seen) candidates + fanOut steps i ≤
      outstanding steps seen candidates := by
  induction candidates with
  | nil => simp at hi
  | cons j rest ih =>
    have hle := outstanding_cons_le steps i seen rest
    simp only [outstanding, List.mem_cons]
    by_cases hj : j = i
    · subst hj
      simp [hs]
      omega
    · have hm : i ∈ rest := by
        rcases List.mem_cons.1 hi with h | h
        · exact absurd h.symm hj
        · exact h
      have := ih hm
      by_cases hm : j ∈ seen <;> simp [hj, hm] <;> omega

/-- The search: takes the next position from the queue until it is empty. -/
def reach (steps : List Step) (seen queue : List Nat) : List Nat :=
  match queue with
  | [] => seen
  | i :: rest =>
    if _hs : i ∈ seen then reach steps seen rest
    else
      if hi : i < steps.length then
        reach steps (i :: seen) (rest ++ successors steps i steps[i])
      else reach steps seen rest
termination_by outstanding steps seen (List.range steps.length) + queue.length
decreasing_by
  · simp only [List.length_cons]; omega
  · have := outstanding_cons_add_fanOut_le steps (List.mem_range.2 hi) _hs
    simp only [fanOut, List.getElem?_eq_getElem hi] at this
    simp only [List.length_append, List.length_cons]
    omega
  · simp only [List.length_cons]; omega

/-- The positions that can be reached from the first step. -/
def reachable (steps : List Step) : List Nat :=
  reach steps [] (if steps.isEmpty then [] else [0])

/-- The steps that no search finds. -/
def unreachableIssues (w : Workflow) : List Issue :=
  let found := reachable w.steps
  w.steps.zipIdx.flatMap fun (s, i) =>
    issueIf (!found.contains i)
      ⟨.warning, "Step '" ++ s.name ++ "' may be unreachable", some s.name,
        some "Check if this step can be reached through normal execution flow"⟩

end Runbook.Review
