import Runbook.Run.Workflow

/-!
# Running a saved command

A saved command is screened each time it is run: one that is unsafe or needs approval is run only
after a yes. It counts as used when its process has ended, with whatever exit code.

* `Executor.commandAllowed`: the screening;
* `Executor.executeCommand`: one run, answering the outcome and the command as it is afterwards.
-/

namespace Runbook.Executor

variable {σ : Type}

/-- Screens a command and asks about it if the screen calls for it. -/
def commandAllowed (x : Executor σ) (c : SavedCommand) : Run σ Bool := do
  let report := x.screen.command c.command
  warnIssues report.issues
  if report.isSafe && !report.requiresApproval then return true
  else Run.approve x.world ("Command '" ++ c.name ++ "' requires approval: " ++ c.command)

/-- Runs a saved command at the given time. -/
def executeCommand (x : Executor σ) (now : Int) (c : SavedCommand) :
    Run σ (StepResult × SavedCommand) := do
  if ← x.commandAllowed c then
    match ← Run.spawn x.world c.command with
    | .finished result => return (⟨c.name, .ok result⟩, c.markUsed now)
    | .refused reason => return (⟨c.name, .error (.notStarted reason)⟩, c)
    | .raised fault => Run.stop (.raised fault)
  else return (⟨c.name, .error (.notApproved .command c.name)⟩, c)

end Runbook.Executor
