import Runbook.Text.Basic

/-!
# What a run leaves behind

* `ProcessResult`: the outcome of one process;
* `StepError`: what stands in its place when there was none;
* `StepResult`: either of them under the name of a step;
* `RunStatus`, `RunReport`: how a run ended, and what was executed in it;
* `RunReport.find?`: the entry of the trace that is meant by a name.
-/

namespace Runbook

/-- The outcome of one process: its exit code and what it wrote. -/
structure ProcessResult where
  returnCode : Int
  stdout : String
  stderr : String
deriving DecidableEq, Repr

/-- A process succeeds with exit code zero. -/
def ProcessResult.success (r : ProcessResult) : Bool :=
  r.returnCode == 0

/-- What can be turned down. -/
inductive Approvable where
  | workflow
  | step
  | command
deriving DecidableEq, Repr

/-- The word for what can be turned down. -/
def Approvable.word : Approvable → String
  | .workflow => "Workflow"
  | .step => "Step"
  | .command => "Command"

/-- Why there is no process result: the process could not be started, it was not approved, or a loop
ran past its cap. -/
inductive StepError where
  | notStarted (reason : String)
  | notApproved (what : Approvable) (name : String)
  | loopLimit (name : String) (cap : Int)
deriving DecidableEq, Repr

/-- The wording of an error. -/
def StepError.message : StepError → String
  | .notStarted reason => reason
  | .notApproved what name => what.word ++ " '" ++ name ++ "' was not approved"
  | .loopLimit name cap => "Loop '" ++ name ++ "' exceeded " ++ toString cap ++ " iterations"

/-- The outcome of one executed step: a process result or the error in its place. -/
structure StepResult where
  name : String
  outcome : Except StepError ProcessResult
deriving Repr

/-- Whether the step had a process that succeeded. -/
def StepResult.ok (r : StepResult) : Bool :=
  match r.outcome with
  | .ok result => result.success
  | .error _ => false

/-- The process result, if there is one. -/
def StepResult.result? (r : StepResult) : Option ProcessResult :=
  match r.outcome with
  | .ok result => some result
  | .error _ => none

/-- The exit code, if there was a process. -/
def StepResult.returnCode? (r : StepResult) : Option Int :=
  r.result?.map (·.returnCode)

/-- How a run ended: with its last step, at a step that stopped it, by an action that leaves it, or
by an action that leaves a loop where there was none. -/
inductive RunStatus where
  | completed
  | halted
  | returned
  | broken
deriving DecidableEq, Repr

/-- The word for a status. -/
def RunStatus.name : RunStatus → String
  | .completed => "completed"
  | .halted => "halted"
  | .returned => "returned"
  | .broken => "broken"

/-- The report on a run. `results` are the outcomes of the top level, `trace` has every executed
step under its path. -/
structure RunReport where
  workflow : String
  results : List StepResult
  trace : List StepResult
  status : RunStatus
  exitCode : Option Int
  failedStep : Option String
deriving Repr

/-- The last part of a path. -/
def lastPart (path : String) : String :=
  String.ofList (path.toList.reverse.takeWhile (· != '/')).reverse

/-- The first entry of the trace under the path, or under a path that ends in the name. -/
def RunReport.find? (r : RunReport) (name : String) : Option StepResult :=
  r.trace.find? fun entry => entry.name = name || lastPart entry.name = name

end Runbook
