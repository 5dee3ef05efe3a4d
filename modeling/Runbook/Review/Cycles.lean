import Runbook.Calls
import Runbook.Review.Issue

/-!
# Workflows that call each other in a circle

* `unentered`: the known workflows that a search has not entered yet, whose number bounds it;
* `findChain`: a chain of calls through known workflows that leads to a target;
* `cycleIssues`: the workflow calls itself, or a workflow that it calls leads back to it.
-/

namespace Runbook.Review

/-- The names of known workflows that are not among those that a search has entered. -/
def unentered (known : Assoc String Workflow) (visited : List String) : List String :=
  (known.map fun entry => entry.2.name).filter (· ∉ visited)

theorem unentered_cons (known : Assoc String Workflow) (visited : List String) (name : String) :
    unentered known (name :: visited) = (unentered known visited).filter (· ≠ name) := by
  unfold unentered
  rw [List.filter_filter]
  congr 1
  funext entered
  simp only [List.mem_cons, not_or, Bool.decide_and]

/-- **Entering a known workflow leaves fewer to enter.** -/
theorem unentered_cons_lt {known : Assoc String Workflow} {visited : List String} {name : String}
    {w : Workflow} (hk : known.get? name = some w) (hv : w.name ∉ visited) :
    (unentered known (w.name :: visited)).length < (unentered known visited).length := by
  rw [unentered_cons, List.length_filter_lt_length_iff_exists]
  refine ⟨w.name, List.mem_filter.mpr ⟨?_, decide_eq_true hv⟩, by simp⟩
  exact List.mem_map.mpr ⟨(name, w), Assoc.mem_of_get? hk, rfl⟩

/-- The first chain of calls from the workflow of a name to the target, depth first: the names from
the workflow to the target. `visited` are the names already on the chain; a workflow that is not
known leads nowhere. -/
def findChain (calls : Workflow → List String) (known : Assoc String Workflow) (target : String)
    (visited : List String) (name : String) : Option (List String) :=
  match _hk : known.get? name with
  | none => none
  | some w =>
    if _hv : w.name ∈ visited then none
    else if target ∈ calls w then some [w.name, target]
    else
      ((calls w).findSome? fun next => findChain calls known target (w.name :: visited) next).map
        (w.name :: ·)
termination_by (unentered known visited).length
decreasing_by exact unentered_cons_lt _hk _hv

/-- The finding of a circle. -/
def circle (chain : List String) : Issue :=
  ⟨.error, "Circular dependency detected: " ++ " -> ".intercalate chain, none,
    some "Restructure workflows to eliminate circular calls"⟩

/-- The finding of a workflow that calls itself. -/
def selfCall (name : String) : Issue :=
  ⟨.error, "Workflow '" ++ name ++ "' calls itself directly", none,
    some ("Remove the self-referencing call or add a condition to prevent " ++
      "infinite recursion")⟩

/-- The findings about circles: a direct call, and one for each called workflow that leads back. -/
def cycleIssues (calls : Workflow → List String) (known : Assoc String Workflow) (w : Workflow) :
    List Issue :=
  issueIf ((calls w).contains w.name) (selfCall w.name) ++
    (calls w).flatMap fun name =>
      if name = w.name then []
      else
        match findChain calls known w.name [] name with
        | some chain => [circle (w.name :: chain)]
        | none => []

end Runbook.Review
