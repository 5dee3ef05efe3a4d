import Runbook.Security.Command

/-!
# Screening of workflows

* `Screen.stepIssues`, `Screen.stepNeedsApproval`: a step with everything below it, in the order of
  the walk;
* `StepReport`, `WorkflowReport`, `Screen.workflow`: the report on a workflow, with one part for
  each of its top-level steps.
-/

namespace Runbook.Security

/-- The report on a top-level step, everything below it included. -/
structure StepReport where
  stepName : String
  isSafe : Bool
  requiresApproval : Bool
  issues : List String
deriving DecidableEq, Repr

/-- The report on a workflow. -/
structure WorkflowReport where
  workflowName : String
  isSafe : Bool
  requiresApproval : Bool
  issues : List String
  steps : List StepReport
deriving DecidableEq, Repr

namespace Screen

/-- The issues of a step's own command; an empty one has none. -/
def ownIssues (screen : Screen) (h : StepHead) : List String :=
  if h.command = "" then [] else screen.commandIssues h.command

/-- Whether a step itself needs approval: it says so, or its command does. -/
def ownApproval (screen : Screen) (h : StepHead) : Bool :=
  h.requireApproval || (h.command ≠ "" && screen.needsApproval h.command)

mutual

/-- The issues of a step and of everything below it. -/
def stepIssues (screen : Screen) : Step → List String
  | .command h => screen.ownIssues h
  | .auth h => screen.ownIssues h
  | .conditional h _ t none _ => screen.ownIssues h ++ blockIssues screen t
  | .conditional h _ t (some e) _ =>
    screen.ownIssues h ++ (blockIssues screen t ++ blockIssues screen e)
  | .branch h _ cases none => screen.ownIssues h ++ caseIssues screen cases
  | .branch h _ cases (some d) =>
    screen.ownIssues h ++ (caseIssues screen cases ++ blockIssues screen d)
  | .loop h _ b => screen.ownIssues h ++ blockIssues screen b

/-- The issues of the steps of a block. -/
def blockIssues (screen : Screen) : List Step → List String
  | [] => []
  | s :: rest => stepIssues screen s ++ blockIssues screen rest

/-- The issues of the blocks of cases. -/
def caseIssues (screen : Screen) : List (String × List Step) → List String
  | [] => []
  | (_, block) :: rest => blockIssues screen block ++ caseIssues screen rest

end

mutual

/-- Whether a step or anything below it needs approval. -/
def stepNeedsApproval (screen : Screen) : Step → Bool
  | .command h => screen.ownApproval h
  | .auth h => screen.ownApproval h
  | .conditional h _ t none _ => screen.ownApproval h || blockNeedsApproval screen t
  | .conditional h _ t (some e) _ =>
    screen.ownApproval h || (blockNeedsApproval screen t || blockNeedsApproval screen e)
  | .branch h _ cases none => screen.ownApproval h || casesNeedApproval screen cases
  | .branch h _ cases (some d) =>
    screen.ownApproval h || (casesNeedApproval screen cases || blockNeedsApproval screen d)
  | .loop h _ b => screen.ownApproval h || blockNeedsApproval screen b

/-- Whether any step of a block needs approval. -/
def blockNeedsApproval (screen : Screen) : List Step → Bool
  | [] => false
  | s :: rest => stepNeedsApproval screen s || blockNeedsApproval screen rest

/-- Whether any step in the blocks of cases needs approval. -/
def casesNeedApproval (screen : Screen) : List (String × List Step) → Bool
  | [] => false
  | (_, block) :: rest => blockNeedsApproval screen block || casesNeedApproval screen rest

end

/-- The report on a step with everything below it. -/
def step (screen : Screen) (s : Step) : StepReport :=
  let issues := screen.stepIssues s
  ⟨s.name, issues.isEmpty, screen.stepNeedsApproval s, issues⟩

/-- Whether a name looks like a path. -/
def nameLooksLikePath (name : String) : Bool :=
  Text.occursIn "..".toList name.toList || Text.occursIn "/".toList name.toList

/-- The issues of a workflow: of its name, of its steps, of its calls. -/
def workflowIssues (screen : Screen) (w : Workflow) : List String :=
  issueIf (nameLooksLikePath w.name) "Workflow name contains suspicious path elements" ++
    w.steps.flatMap (screen.stepIssues ·) ++
    issueIf ((Calls.ofSteps screen.callWords w.steps).contains w.name)
      "Potential circular dependency detected in workflow calls"

/-- The report on a workflow. -/
def workflow (screen : Screen) (w : Workflow) : WorkflowReport :=
  let issues := screen.workflowIssues w
  ⟨w.name, issues.isEmpty, w.steps.any (screen.stepNeedsApproval ·), issues,
    w.steps.map screen.step⟩

end Screen

/-- The warning about a workflow with issues. -/
def WorkflowReport.warning? (r : WorkflowReport) : Option String :=
  if r.issues.isEmpty then none
  else some ("Workflow '" ++ r.workflowName ++ "' has " ++ toString r.issues.length ++
    " security issue(s)")

end Runbook.Security
