import Runbook.Config.Use
import Runbook.Review.Cycles
import Runbook.Review.Reachable
import Runbook.Review.Steps
import Runbook.Review.Variables

/-!
# The review of a workflow

`Reviewer` holds what a review goes by -- the other workflows that are known, the words of a call,
the variables that always exist -- and `Reviewer.review` makes every check, in a fixed order.
-/

namespace Runbook

open Review

/-- What a review goes by. -/
structure Reviewer where
  known : Assoc String Workflow
  callWords : List (List Char)
  builtins : List String

namespace Reviewer

/-- The reviewer that a configuration asks for. -/
def ofConfig (known : Assoc String Workflow) (config : Config) : Except Misuse Reviewer := do
  let words ← config.callWords
  let builtins ← Config.textSet config.builtinVariables
  return ⟨known, words, builtins⟩

/-- The workflows that a workflow calls. -/
def callsOf (r : Reviewer) (w : Workflow) : List String :=
  Calls.ofSteps r.callWords w.steps

/-- Every finding, in the order of the checks. -/
def issues (r : Reviewer) (w : Workflow) : List Issue :=
  cycleIssues r.callsOf r.known w ++ unreachableIssues w ++ variableIssues r.builtins w ++
    metadataIssues w ++ loopIssues w ++ duplicateIssues w ++ Review.commandIssues w

/-- The report on a workflow. -/
def review (r : Reviewer) (w : Workflow) : Report :=
  ⟨w.name, r.issues w, r.callsOf w⟩

end Reviewer

end Runbook
