import Mathlib.Data.List.Forall2
import Runbook.Proofs.Security.Screening
import Runbook.Proofs.StepTree.Places

/-!
# Reports sum up the whole tree

The report on a workflow is made by going down the step tree. What it says is what the reports on the
single commands say, taken over the walk:

* `Screen.issuesOver`, `Screen.ApprovalOver`: what a list of steps comes to, step after step;
* `StepReport.SumsUp`, `WorkflowReport.SumsUp`: a report that says this of a tree, every place of the
  tree being counted once;
* **`Screen.workflow_sumsUp`**: the report on a workflow and its parts are such reports.
-/

namespace Runbook.Security

namespace Screen

/-! ## 1. Steps one after the other -/

/-- The issues of the commands of steps, one step after the other; an empty command has none. -/
def issuesOver (screen : Screen) (steps : List Step) : List String :=
  (steps.filter fun s => s.commandText ≠ "").flatMap fun s => (screen.command s.commandText).issues

/-- One of the steps calls for approval: it is flagged, or its command is not empty and calls for it. -/
def ApprovalOver (screen : Screen) (steps : List Step) : Prop :=
  ∃ s ∈ steps, s.head.requireApproval = true ∨
    s.commandText ≠ "" ∧ (screen.command s.commandText).requiresApproval = true

theorem flatMap_ownIssues (screen : Screen) (steps : List Step) :
    (steps.flatMap fun s => screen.ownIssues s.head) = screen.issuesOver steps := by
  unfold issuesOver
  induction steps with
  | nil => rfl
  | cons s rest ih =>
    have hown : screen.ownIssues s.head =
        if s.commandText = "" then [] else (screen.command s.commandText).issues := rfl
    rw [List.flatMap_cons, ih, hown, List.filter_cons]
    by_cases h : s.commandText = ""
    · rw [if_pos h, if_neg (by simpa using h), List.nil_append]
    · rw [if_neg h, if_pos (by simpa using h), List.flatMap_cons]

theorem exists_ownApproval_iff {screen : Screen} {steps : List Step} :
    (∃ s ∈ steps, screen.ownApproval s.head = true) ↔ screen.ApprovalOver steps := by
  have hown : ∀ s : Step, screen.ownApproval s.head = true ↔ s.head.requireApproval = true ∨
      s.commandText ≠ "" ∧ (screen.command s.commandText).requiresApproval = true := by
    intro s
    unfold ownApproval
    rw [Bool.or_eq_true, Bool.and_eq_true, decide_eq_true_eq]
    rfl
  simp only [hown]
  rfl

end Screen

/-! ## 2. Reports -/

/-- A name with two dots in a row or with a slash. -/
def LooksLikePath (name : String) : Prop :=
  ['.', '.'] <:+: name.toList ∨ '/' ∈ name.toList

instance (name : String) : Decidable (LooksLikePath name) :=
  inferInstanceAs (Decidable (_ ∨ _))

theorem nameLooksLikePath_iff {name : String} :
    Screen.nameLooksLikePath name = true ↔ LooksLikePath name := by
  unfold Screen.nameLooksLikePath
  rw [Bool.or_eq_true]
  exact or_congr Text.occursIn_iff Text.occursIn_singleton_iff

/-- **A report on a step sums up** the step and everything below it: the issues of the commands in the
order of the walk, and approval if one of the steps calls for it. The walk goes to every place once. -/
structure StepReport.SumsUp (screen : Screen) (r : StepReport) (s : Step) : Prop where
  name : r.stepName = s.name
  issues : r.issues = screen.issuesOver s.walk
  isSafe : r.isSafe = true ↔ r.issues = []
  approval : r.requiresApproval = true ↔ screen.ApprovalOver s.walk
  once : Step.Visits s.below? s.walk

/-- **A report on a workflow sums up** its name, its step tree and its calls: the issue of the name, the
issues of the commands in the order of the walk, and the issue of a call to itself. The walk goes to
every place once, and each part sums up one step of the top level. -/
structure WorkflowReport.SumsUp (screen : Screen) (r : WorkflowReport) (w : Workflow) : Prop where
  name : r.workflowName = w.name
  issues : r.issues =
    issueIf (LooksLikePath w.name) "Workflow name contains suspicious path elements" ++
      screen.issuesOver w.allSteps ++
      issueIf (w.name ∈ Calls.ofSteps screen.callWords w.steps)
        "Potential circular dependency detected in workflow calls"
  isSafe : r.isSafe = true ↔ r.issues = []
  approval : r.requiresApproval = true ↔ screen.ApprovalOver w.allSteps
  once : Step.Visits (Step.at? w.steps) w.allSteps
  parts : List.Forall₂ (StepReport.SumsUp screen) r.steps w.steps

namespace Screen

theorem step_sumsUp (screen : Screen) (s : Step) : (screen.step s).SumsUp screen s where
  name := rfl
  issues := (stepIssues_eq screen s).trans (flatMap_ownIssues screen s.walk)
  isSafe := List.isEmpty_iff
  approval := (stepNeedsApproval_iff screen s).trans exists_ownApproval_iff
  once := Step.visits_walk s

theorem workflowIssues_eq (screen : Screen) (w : Workflow) : screen.workflowIssues w =
    issueIf (LooksLikePath w.name) "Workflow name contains suspicious path elements" ++
      screen.issuesOver w.allSteps ++
      issueIf (w.name ∈ Calls.ofSteps screen.callWords w.steps)
        "Potential circular dependency detected in workflow calls" := by
  have hname : nameLooksLikePath w.name = decide (LooksLikePath w.name) := by
    rw [Bool.eq_iff_iff, decide_eq_true_eq]
    exact nameLooksLikePath_iff
  have hsteps : w.steps.flatMap (screen.stepIssues ·) = screen.issuesOver w.allSteps := by
    rw [← flatMap_ownIssues, Workflow.allSteps, Step.walkBlock_eq, List.flatMap_assoc]
    exact List.flatMap_congr fun s _ => stepIssues_eq screen s
  unfold workflowIssues
  rw [hname, hsteps, List.contains_eq_mem]

/-- **Reports sum up the whole tree.** The report on a workflow says of it what the reports on its
commands say, in the order of the walk, none left out and none said twice; so does the part for each of
its steps. -/
theorem workflow_sumsUp (screen : Screen) (w : Workflow) : (screen.workflow w).SumsUp screen w where
  name := rfl
  issues := workflowIssues_eq screen w
  isSafe := List.isEmpty_iff
  approval := (workflow_requiresApproval_iff screen w).trans exists_ownApproval_iff
  once := Step.visits_walkBlock w.steps
  parts := by
    show List.Forall₂ _ (w.steps.map screen.step) w.steps
    rw [List.forall₂_map_left_iff, List.forall₂_same]
    exact fun s _ => step_sumsUp screen s

end Screen

end Runbook.Security
