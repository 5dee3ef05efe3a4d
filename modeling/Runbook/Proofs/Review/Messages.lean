import Runbook.Review.Workflow

/-!
# How the messages of a review begin

The checks of a review word their findings differently from the first character on, so the findings
of one check can be told by the beginning of their messages:

* `Issue.beginsWith`: the message of a finding begins so;
* `initial_of_mem_variableIssues` and its like: the first character of every message of a check;
* `filter_beginsWith_eq_nil`: findings of which none begins so.
-/

namespace Runbook

namespace Review

/-- Whether the message of a finding begins so. -/
def Issue.beginsWith (start : String) (i : Issue) : Bool :=
  Text.startsWith start.toList i.message.toList

/-- The first character of the message of a finding. -/
def Issue.initial? (i : Issue) : Option Char :=
  i.message.toList.head?

theorem Issue.beginsWith_of_append {start rest : String} {i : Issue} (h : i.message = start ++ rest) :
    i.beginsWith start = true := by
  rw [Issue.beginsWith, h, String.toList_append, Text.startsWith, Text.dropStart?_append]
  rfl

/-- A message that begins so begins with the same character. -/
theorem Issue.initial?_of_beginsWith {start : String} {i : Issue} {c : Char}
    (hc : start.toList.head? = some c) (h : i.beginsWith start = true) : i.initial? = some c := by
  obtain ⟨rest, hrest⟩ := Option.isSome_iff_exists.mp h
  rw [Issue.initial?, Text.dropStart?_eq_some_iff.mp hrest, List.head?_append, hc, Option.some_or]

theorem filter_beginsWith_eq_nil {start : String} {issues : List Issue} {c : Char}
    (hc : start.toList.head? = some c) (h : ∀ i ∈ issues, i.initial? ≠ some c) :
    issues.filter (Issue.beginsWith start) = [] :=
  List.filter_eq_nil_iff.mpr fun i hi hbegins => h i hi (Issue.initial?_of_beginsWith hc hbegins)

/-- Findings whose messages all begin with one character, and not with that of the beginning. -/
theorem filter_beginsWith_of_initial {start : String} {issues : List Issue} {c d : Char}
    (hc : start.toList.head? = some c) (h : ∀ i ∈ issues, i.initial? = some d) (hd : d ≠ c) :
    issues.filter (Issue.beginsWith start) = [] := by
  refine filter_beginsWith_eq_nil hc fun i hi => ?_
  rw [h i hi, ne_eq, Option.some.injEq]
  exact hd

theorem mem_issueIf {condition : Bool} {issue i : Issue} :
    i ∈ issueIf condition issue ↔ condition = true ∧ i = issue := by
  cases condition <;> simp [issueIf]

theorem initial_of_mem_unreachableIssues {w : Workflow} {i : Issue} (h : i ∈ unreachableIssues w) :
    i.initial? = some 'S' := by
  obtain ⟨entry, -, h⟩ := List.mem_flatMap.mp h
  obtain ⟨-, rfl⟩ := mem_issueIf.mp h
  simp [Issue.initial?]

theorem initial_of_mem_variableIssues {builtins : List String} {w : Workflow} {i : Issue}
    (h : i ∈ variableIssues builtins w) : i.initial? = some 'V' := by
  rcases List.mem_append.mp h with h | h
  · obtain ⟨name, -, rfl⟩ := List.mem_map.mp h
    simp [Issue.initial?, undeclared]
  · obtain ⟨name, -, rfl⟩ := List.mem_map.mp h
    simp [Issue.initial?, unused]

theorem initial_of_mem_metadataIssues {w : Workflow} {i : Issue} (h : i ∈ metadataIssues w) :
    i.initial? = some 'S' := by
  obtain ⟨s, -, h⟩ := List.mem_flatMap.mp h
  simp only [metadataOf, List.mem_append, mem_issueIf] at h
  rcases h with (⟨-, rfl⟩ | ⟨-, rfl⟩) | ⟨-, rfl⟩ <;> simp [Issue.initial?]

theorem initial_of_mem_loopIssues {w : Workflow} {i : Issue} (h : i ∈ loopIssues w) :
    i.initial? = some 'S' ∨ i.initial? = some 'L' := by
  obtain ⟨s, -, h⟩ := List.mem_flatMap.mp h
  cases s with
  | loop head condition body =>
    rw [loopOf, List.mem_append, mem_issueIf] at h
    rcases h with ⟨-, rfl⟩ | h
    · exact Or.inl (by simp [Issue.initial?])
    · split at h
      · cases h
      · obtain ⟨-, rfl⟩ := mem_issueIf.mp h
        exact Or.inr (by simp [Issue.initial?])
  | command | auth | conditional | branch => cases h

theorem initial_of_mem_duplicateIssues {w : Workflow} {i : Issue} (h : i ∈ duplicateIssues w) :
    i.initial? = some 'D' := by
  obtain ⟨⟨s, n⟩, -, h⟩ := List.mem_flatMap.mp h
  simp only at h
  split at h
  · obtain ⟨-, rfl⟩ := mem_issueIf.mp h
    simp [Issue.initial?]
  · cases h

theorem initial_of_mem_commandOf {head : StepHead} {i : Issue} (h : i ∈ commandOf head) :
    i.initial? = some 'S' := by
  rw [commandOf] at h
  split at h
  · cases h
  · rw [List.mem_append, mem_issueIf, mem_issueIf] at h
    rcases h with ⟨-, rfl⟩ | ⟨-, rfl⟩ <;> simp [Issue.initial?]

theorem initial_of_mem_commandIssues {w : Workflow} {i : Issue} (h : i ∈ commandIssues w) :
    i.initial? = some 'S' := by
  obtain ⟨s, -, h⟩ := List.mem_flatMap.mp h
  cases s with
  | command head => exact initial_of_mem_commandOf h
  | auth head => exact initial_of_mem_commandOf h
  | conditional | branch | loop => cases h

end Review

open Review

/-- **Only circles and repeated names are reported with other beginnings** than those of the checks
on steps, variables and loops. -/
theorem Reviewer.filter_review {r : Reviewer} {w : Workflow} {start : String} {c : Char}
    (hc : start.toList.head? = some c) (hother : c ∉ ['S', 'V', 'L']) :
    (r.review w).issues.filter (Issue.beginsWith start) =
      (cycleIssues r.callsOf r.known w).filter (Issue.beginsWith start) ++
        (duplicateIssues w).filter (Issue.beginsWith start) := by
  have silent : ∀ {issues : List Issue} {d : Char}, d ∈ ['S', 'V', 'L'] →
      (∀ i ∈ issues, i.initial? = some d) → issues.filter (Issue.beginsWith start) = [] :=
    fun hd h => filter_beginsWith_of_initial hc h fun hdc => hother (hdc ▸ hd)
  have loops : (loopIssues w).filter (Issue.beginsWith start) = [] := by
    refine filter_beginsWith_eq_nil hc fun i hi he => hother ?_
    rcases initial_of_mem_loopIssues hi with h | h <;> cases h.symm.trans he <;> decide
  show (r.issues w).filter (Issue.beginsWith start) = _
  rw [issues]
  simp only [List.filter_append, loops, List.append_nil,
    silent (by decide) fun i => @initial_of_mem_unreachableIssues w i,
    silent (by decide) fun i => @initial_of_mem_variableIssues r.builtins w i,
    silent (by decide) fun i => @initial_of_mem_metadataIssues w i,
    silent (by decide) fun i => @initial_of_mem_commandIssues w i]

end Runbook
