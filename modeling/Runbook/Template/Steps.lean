import Runbook.Template
import Runbook.Workflow

/-!
# Templates of a workflow

* `Step.resolveSelf`: a step with its own texts resolved, what it holds left as written;
* `Step.resolve`, `resolveBlock`: the same at every depth;
* `Workflow.resolve`: a workflow for one set of values;
* `Step.templates`, `Workflow.placeholderNames`: the names that a workflow depends on;
* `Workflow.buildContext`: the values that a profile and explicit overrides give.

Names of steps and the selector of a branch are identifiers and stay as written.
-/

namespace Runbook

open Template

/-! ## 1. Steps for one set of values -/

/-- The head with its command and description resolved. -/
def StepHead.resolve (context : Context) (h : StepHead) : StepHead :=
  { h with command := Template.resolve context h.command,
           description := Template.resolve context h.description }

/-- The condition with its expression resolved. -/
def Condition.resolve (context : Context) (c : Condition) : Condition :=
  { c with expression := Template.resolve context c.expression }

namespace Step

/-- The step with its own texts resolved; the blocks below it stay as written. -/
def resolveSelf (context : Context) : Step → Step
  | .command h => .command (h.resolve context)
  | .auth h => .auth (h.resolve context)
  | .conditional h c t e a => .conditional (h.resolve context) (c.resolve context) t e a
  | .branch h v cases d =>
    .branch (h.resolve context) v
      (cases.map fun entry => (Template.resolve context entry.1, entry.2)) d
  | .loop h c b => .loop (h.resolve context) (c.resolve context) b

mutual

/-- The step with the texts at every depth resolved. -/
def resolve (context : Context) : Step → Step
  | .command h => .command (h.resolve context)
  | .auth h => .auth (h.resolve context)
  | .conditional h c t none a =>
    .conditional (h.resolve context) (c.resolve context) (resolveBlock context t) none a
  | .conditional h c t (some e) a =>
    .conditional (h.resolve context) (c.resolve context) (resolveBlock context t)
      (some (resolveBlock context e)) a
  | .branch h v cases none =>
    .branch (h.resolve context) v (resolveCases context cases) none
  | .branch h v cases (some d) =>
    .branch (h.resolve context) v (resolveCases context cases) (some (resolveBlock context d))
  | .loop h c b => .loop (h.resolve context) (c.resolve context) (resolveBlock context b)

/-- The steps of a block, each resolved. -/
def resolveBlock (context : Context) : List Step → List Step
  | [] => []
  | s :: rest => resolve context s :: resolveBlock context rest

/-- The cases of a branch, values and blocks resolved. -/
def resolveCases (context : Context) : List (String × List Step) → List (String × List Step)
  | [] => []
  | (v, block) :: rest =>
    (Template.resolve context v, resolveBlock context block) :: resolveCases context rest

end

end Step

namespace Workflow

/-- The workflow with every text of its steps resolved. -/
def resolve (context : Context) (w : Workflow) : Workflow :=
  { w with steps := Step.resolveBlock context w.steps }

/-! ## 2. The names a workflow depends on -/

end Workflow

/-- The texts of a step whose placeholders matter to a run: its command, its condition and the
values of its cases. -/
def Step.templates (s : Step) : List String :=
  s.texts ++ s.caseValues

namespace Workflow

/-- Every placeholder name of the step tree, once, in the order of the walk. -/
def placeholderNames (w : Workflow) : List String :=
  distinct ((w.allSteps.flatMap Step.templates).flatMap fun text =>
    Text.tokens (Template.placeholders text))

/-! ## 3. Values for a run -/

/-- A profile that was asked for and is not there. -/
def missingProfile? (w : Workflow) (profile : Option String) : Option String :=
  profile.bind fun name =>
    if name ≠ "" ∧ w.getProfile? name = none then some name else none

/-- The values of a profile, if it is there, with explicit values put over them. An empty name asks
for no profile. -/
def buildContext (w : Workflow) (profile : Option String) (overrides : Assoc String String) :
    Context :=
  let base : Context :=
    match profile.bind w.getProfile? with
    | some p => if profile = some "" then [] else Assoc.overlay [] p.values
    | none => []
  base.overlay overrides

end Workflow

end Runbook
