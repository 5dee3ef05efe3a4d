import Runbook.Proofs.Quotes
import Runbook.Proofs.Review.Circles
import Runbook.Proofs.Review.Repetitions

/-!
# What makes a workflow invalid

A workflow is valid if a review reports no error. Each check reports errors under a condition of its
own, so the workflow is valid if and only if none of the conditions holds:

* `ErrorFree`: findings of which none is an error, and for every check when its findings are so;
* `Reviewer.Faultless`: what a valid workflow has;
* `Reviewer.RepetitionsReported`: the findings on names are exactly the repetitions;
* **`Reviewer.isValid_iff_faultless`**: a workflow is valid if and only if it has all of it;
* **`Reviewer.review_exact`**: both together.
-/

namespace Runbook

namespace Review

/-! ## 1. Findings without an error -/

/-- None of the findings is an error. -/
def ErrorFree (issues : List Issue) : Prop :=
  ∀ i ∈ issues, i.severity ≠ .error

theorem Report.isValid_iff {report : Report} : report.isValid = true ↔ ErrorFree report.issues := by
  simp [Report.isValid, ErrorFree]

theorem errorFree_nil : ErrorFree [] :=
  List.forall_mem_nil _

theorem errorFree_append {a b : List Issue} : ErrorFree (a ++ b) ↔ ErrorFree a ∧ ErrorFree b :=
  List.forall_mem_append

theorem errorFree_flatMap {α : Type} {xs : List α} {f : α → List Issue} :
    ErrorFree (xs.flatMap f) ↔ ∀ x ∈ xs, ErrorFree (f x) := by
  simp only [ErrorFree, List.mem_flatMap, forall_exists_index, and_imp]
  exact ⟨fun h x hx i hi => h i x hx hi, fun h i x hx hi => h x hx i hi⟩

theorem errorFree_issueIf {condition : Bool} {issue : Issue} :
    ErrorFree (issueIf condition issue) ↔ condition = false ∨ issue.severity ≠ .error := by
  cases condition <;> simp [issueIf, ErrorFree]

/-! ## 2. The checks -/

theorem errorFree_cycleIssues {calls : Workflow → List String} {known : Assoc String Workflow}
    (hown : NamedByKey known) {w : Workflow} : ErrorFree (cycleIssues calls known w) ↔
      w.name ∉ calls w ∧ ∀ c ∈ calls w, c ≠ w.name → ¬ LeadsTo calls known c w.name := by
  have hcircles : ErrorFree ((turning calls known w).map fun c => circle (chainOver calls known w c)) ↔
      ∀ c, c ∉ turning calls known w := by
    simp [ErrorFree, circle]
  rw [cycleIssues_eq, errorFree_append, errorFree_issueIf, hcircles]
  simp only [mem_turning_iff hown, not_and]
  simp [selfCall]

theorem errorFree_unreachableIssues (w : Workflow) : ErrorFree (unreachableIssues w) := by
  rw [unreachableIssues, errorFree_flatMap]
  exact fun _ _ => errorFree_issueIf.mpr (Or.inr (by simp))

theorem errorFree_variableIssues (builtins : List String) (w : Workflow) :
    ErrorFree (variableIssues builtins w) := by
  rw [variableIssues, errorFree_append]
  constructor
  · intro i hi
    obtain ⟨name, -, rfl⟩ := List.mem_map.mp hi
    simp [undeclared]
  · intro i hi
    obtain ⟨name, -, rfl⟩ := List.mem_map.mp hi
    simp [unused]

theorem errorFree_metadataIssues {w : Workflow} :
    ErrorFree (metadataIssues w) ↔ ∀ s ∈ w.steps, isBlankText s.name = false := by
  simp [metadataIssues, errorFree_flatMap, metadataOf, errorFree_append, errorFree_issueIf]

theorem errorFree_loopOf {s : Step} : ErrorFree (loopOf s) ↔
    ∀ head condition body, s = .loop head condition body →
      Text.trim condition.expression.toList ≠ "true".toList ∧
        Text.trim condition.expression.toList ≠ "1".toList := by
  cases s with
  | command | auth | conditional | branch => simp [loopOf, errorFree_nil]
  | loop head condition body =>
    cases hc : condition.capture <;>
      simp [loopOf, hc, errorFree_append, errorFree_issueIf]

theorem errorFree_duplicateIssues {w : Workflow} :
    ErrorFree (duplicateIssues w) ↔ (w.steps.map (·.name)).Nodup := by
  rw [duplicateIssues_eq, ← repetitions_eq_nil_iff, List.eq_nil_iff_forall_not_mem]
  simp [ErrorFree, Repetition.issue]

theorem errorFree_commandOf {head : StepHead} : ErrorFree (commandOf head) ↔
    (isBlankText head.command = false → quoteCount '\'' head.command.toList % 2 = 0 ∧
      quoteCount '"' head.command.toList % 2 = 0) := by
  rw [← hasUnmatchedQuotes_eq_false_iff, commandOf]
  cases isBlankText head.command <;>
    simp [errorFree_nil, errorFree_append, errorFree_issueIf]

/-- The findings on commands are free of errors if those on each command text are. -/
theorem errorFree_commandIssues {w : Workflow} : ErrorFree (commandIssues w) ↔
    ∀ s ∈ w.allSteps, s.kind = .command ∨ s.kind = .auth → ErrorFree (commandOf s.head) := by
  rw [commandIssues, errorFree_flatMap]
  refine forall₂_congr fun s _ => ?_
  cases s <;> simp [Step.kind, Step.head, errorFree_nil]

end Review

open Review

namespace Reviewer

/-! ## 3. Valid workflows -/

/-- **What a valid workflow has.** -/
structure Faultless (r : Reviewer) (w : Workflow) : Prop where
  /-- It does not call itself. -/
  apart : w.name ∉ r.callsOf w
  /-- No other workflow that it calls leads back to it. -/
  straight : ∀ c ∈ r.callsOf w, c ≠ w.name → ¬ LeadsTo r.callsOf r.known c w.name
  /-- Every step of the top level has a name. -/
  named : ∀ s ∈ w.steps, isBlankText s.name = false
  /-- No two steps of the top level have the same name. -/
  distinct : (w.steps.map (·.name)).Nodup
  /-- No loop at any depth goes by a condition that always holds. -/
  finite : ∀ s ∈ w.allSteps, ∀ head condition body, s = .loop head condition body →
    Text.trim condition.expression.toList ≠ "true".toList ∧
      Text.trim condition.expression.toList ≠ "1".toList
  /-- In every command text at any depth each quote counts an even number of times. -/
  quoted : ∀ s ∈ w.allSteps, s.kind = .command ∨ s.kind = .auth →
    isBlankText s.commandText = false →
      quoteCount '\'' s.commandText.toList % 2 = 0 ∧ quoteCount '"' s.commandText.toList % 2 = 0

/-- **A workflow is valid if and only if it is faultless.** -/
theorem isValid_iff_faultless (r : Reviewer) (hown : NamedByKey r.known) (w : Workflow) :
    (r.review w).isValid = true ↔ r.Faultless w := by
  have hissues : ErrorFree (r.review w).issues ↔ ErrorFree (cycleIssues r.callsOf r.known w) ∧
      ErrorFree (metadataIssues w) ∧ ErrorFree (loopIssues w) ∧ ErrorFree (duplicateIssues w) ∧
        ErrorFree (Review.commandIssues w) := by
    show ErrorFree (r.issues w) ↔ _
    simp only [issues, errorFree_append, errorFree_unreachableIssues, errorFree_variableIssues,
      and_true, and_assoc]
  rw [Report.isValid_iff, hissues, errorFree_cycleIssues hown, errorFree_metadataIssues, loopIssues,
    errorFree_flatMap, errorFree_duplicateIssues, errorFree_commandIssues]
  simp only [errorFree_loopOf, errorFree_commandOf]
  constructor
  · rintro ⟨⟨hself, hcircle⟩, hnames, hloops, hnodup, hquotes⟩
    exact ⟨hself, hcircle, hnames, hnodup, hloops, hquotes⟩
  · rintro ⟨hself, hcircle, hnames, hnodup, hloops, hquotes⟩
    exact ⟨⟨hself, hcircle⟩, hnames, hloops, hnodup, hquotes⟩

/-! ## 4. Names that come a second time -/

/-- **The findings on names that come a second time**: one for each later position of a name, in
order, with the position of the first step of that name. -/
structure RepetitionsReported (r : Reviewer) (w : Workflow) (found : List Repetition) : Prop where
  reported : (r.review w).issues.filter (Issue.beginsWith "Duplicate step name '") =
    found.map Repetition.issue
  mem_iff : ∀ x, x ∈ found ↔ Repeats (w.steps.map (·.name)) x
  ascending : found.Pairwise fun x y => x.own < y.own
  /-- Every later position of a name is among them. -/
  complete : ∀ (name : String) (i j : Nat), j < i → (w.steps.map (·.name))[j]? = some name →
    (w.steps.map (·.name))[i]? = some name → ∃ first, ⟨name, first, i⟩ ∈ found

theorem repetitionsReported (r : Reviewer) (w : Workflow) :
    r.RepetitionsReported w (repetitions (w.steps.map (·.name))) := by
  refine ⟨?_, fun x => mem_repetitions_iff, repetitions_ascending _, ?_⟩
  · have hcycle : ∀ i ∈ cycleIssues r.callsOf r.known w, i.initial? ≠ some 'D' := by
      intro i hi
      rcases initial_of_mem_cycleIssues hi with h | h <;> rw [h] <;> decide
    rw [filter_review rfl (by decide), filter_beginsWith_eq_nil rfl hcycle, List.nil_append,
      duplicateIssues_eq, List.filter_eq_self]
    intro i hi
    obtain ⟨x, -, rfl⟩ := List.mem_map.mp hi
    exact beginsWith_repetition x
  · intro name i j hj h hi
    obtain ⟨first, hrep⟩ := exists_repeats hj hi h
    exact ⟨first, mem_repetitions_iff.mpr hrep⟩

/-- **A review is exact**: a workflow is valid if and only if it is faultless, and every repeated name
is reported once with its two positions. -/
theorem review_exact (r : Reviewer) (hown : NamedByKey r.known) (w : Workflow) :
    ((r.review w).isValid = true ↔ r.Faultless w) ∧ ∃ found, r.RepetitionsReported w found :=
  ⟨isValid_iff_faultless r hown w, _, repetitionsReported r w⟩

/-- A workflow with an escaped quote of one kind and two quotes of the other is valid. -/
theorem escaped_quote_valid : NamedByKey ring.known ∧
    (ring.review (commanding "q" ["echo \\' \"a b\""])).isValid = true := by
  have hown : NamedByKey ring.known := namedByKey_of_forall (by decide)
  have hcalls : ∀ c, c ∉ ring.callsOf (commanding "q" ["echo \\' \"a b\""]) := by
    have hnone : ∀ s ∈ (commanding "q" ["echo \\' \"a b\""]).allSteps,
        Calls.inText ring.callWords s.commandText = [] := by decide +kernel
    intro c hc
    obtain ⟨s, hs, hc⟩ := mem_callsOf.mp hc
    rw [hnone s hs] at hc
    cases hc
  have hkinds : ∀ s ∈ (commanding "q" ["echo \\' \"a b\""]).allSteps, s.kind = .command := by
    decide +kernel
  refine ⟨hown, (review_exact ring hown _).1.mpr
    { apart := hcalls _
      straight := fun c hc => absurd hc (hcalls c)
      named := by decide +kernel
      distinct := by decide
      finite := ?_
      quoted := by decide +kernel }⟩
  rintro s hs head condition body rfl
  cases hkinds _ hs

end Reviewer

end Runbook
