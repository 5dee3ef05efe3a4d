/-!
# Findings of a review

* `Severity`, `Issue`: one finding;
* `Report`: the findings on one workflow, which is valid if none of them is an error.
-/

namespace Runbook.Review

/-- How much a finding matters. -/
inductive Severity where
  | error
  | warning
  | info
deriving DecidableEq, Repr

/-- The word for a severity. -/
def Severity.name : Severity → String
  | .error => "error"
  | .warning => "warning"
  | .info => "info"

/-- A finding: what was found, at which step, and what to do about it. -/
structure Issue where
  severity : Severity
  message : String
  step : Option String
  suggestion : Option String
deriving DecidableEq, Repr

/-- The findings on one workflow, with the calls that were followed. -/
structure Report where
  workflow : String
  issues : List Issue
  calls : List String
deriving DecidableEq, Repr

/-- The findings of one severity. -/
def Report.withSeverity (r : Report) (severity : Severity) : List Issue :=
  r.issues.filter fun issue => issue.severity = severity

/-- A workflow is valid if no finding is an error. -/
def Report.isValid (r : Report) : Bool :=
  r.issues.all fun issue => issue.severity ≠ .error

/-- A finding, if a condition holds. -/
def issueIf (condition : Bool) (issue : Issue) : List Issue :=
  if condition then [issue] else []

end Runbook.Review
