import Runbook.Run.Prompting
import Runbook.Run.Steps
import Runbook.Security.Workflow

/-!
# Running a workflow

* `Executor`: the world, the screen that commands pass, the cap on loops and whether workflows are
  screened before they run;
* `RunRequest`: which values a run starts from and whether missing ones are asked for;
* `RunOutcome`: a report, or what kept the run from giving one;
* `Executor.approveWorkflow`: the screening before a run;
* `Executor.runWorkflow`: a whole run, from a state of the world.
-/

namespace Runbook

/-- What runs of workflows and commands share. -/
structure Executor (σ : Type) where
  world : World σ
  screen : Security.Screen
  cap : Option Int
  fuel : Nat
  securityCheck : Bool

/-- The values a run starts from: a profile and values over it, unless a context is given. -/
structure RunRequest where
  profile : Option String
  overrides : Assoc String String
  context : Option Context
  interactive : Bool

/-- How a run of a workflow came out: with a report, with a condition that had no outcome and the
report so far, without a value for a required variable, with a fault, or out of fuel. -/
inductive RunOutcome where
  | reported (report : RunReport)
  | undecided (error : ExpressionError) (report : RunReport)
  | missingVariable (name : String)
  | raised (fault : Fault)
  | unfinished
deriving Repr

/-- The wording of a failure without outcome of a condition. -/
def undecidedMessage (workflow : String) (e : ExpressionError) : String :=
  "Workflow '" ++ workflow ++ "' failed: " ++ e.message

/-- The wording of a missing variable. -/
def missingVariableMessage (name : String) : String :=
  "Variable '" ++ name ++ "' is required"

namespace Executor

variable {σ : Type}

/-! ## 1. Screening before a run -/

/-- Notes every issue of a report. -/
def warnIssues : List String → Run σ Unit
  | [] => pure ()
  | issue :: rest => do
    Run.warn ("Security: " ++ issue)
    warnIssues rest

/-- Notes that a workflow has issues, if it has any. -/
def warnCount (r : Security.WorkflowReport) : Run σ Unit :=
  match r.warning? with
  | some text => Run.warn text
  | none => pure ()

/-- Screens a workflow; one that is unsafe or needs approval is asked about. The answer says whether
to run it and whether it was asked about. -/
def approveWorkflow (x : Executor σ) (w : Workflow) : Run σ (Bool × Bool) := do
  let report := x.screen.workflow w
  warnCount report
  warnIssues report.issues
  if report.isSafe && !report.requiresApproval then return (true, false)
  else
    let yes ← Run.approve x.world ("Workflow '" ++ w.name ++ "' requires approval to run")
    return (yes, true)

/-! ## 2. Reports -/

/-- The report on the state of a run. -/
def reportOf (w : Workflow) (s : RunState σ) (status : RunStatus) (exitCode : Option Int)
    (failedStep : Option String) : RunReport :=
  ⟨w.name, s.results, s.trace, status, exitCode, failedStep⟩

/-- The state of a run before its first step. -/
def initialState (context : Context) (world : σ) : RunState σ :=
  ⟨context, [], [], none, [], world⟩

/-- What a signal makes of a run whose steps it ended. -/
def outcomeOf (w : Workflow) (s : RunState σ) : Except Signal Unit → RunOutcome
  | .ok () => .reported (reportOf w s .completed (some 0) none)
  | .error (.halted path code) => .reported (reportOf w s .halted (some code) (some path))
  | .error (.returned code) => .reported (reportOf w s .returned code none)
  | .error .broken => .reported (reportOf w s .broken (some 0) none)
  | .error (.undecided e) => .undecided e (reportOf w s .halted (some 1) none)
  | .error (.missingVariable name) => .missingVariable name
  | .error (.raised fault) => .raised fault
  | .error .unfinished => .unfinished

/-! ## 3. Runs -/

/-- The steps of a workflow; a step that stops them is noted. -/
def runSteps (x : Executor σ) (w : Workflow) (approved : Bool) (s : RunState σ) :
    RunOutcome × RunState σ :=
  let engine : Engine σ := ⟨x.world, x.cap, x.fuel, approved⟩
  match engine.runBlock "" true w.steps s with
  | (.error (.halted path code), s) =>
    let s := { s with events := s.events ++
      [.warning ("Workflow '" ++ w.name ++ "' halted at step '" ++ path ++ "'")] }
    (outcomeOf w s (.error (.halted path code)), s)
  | (r, s) => (outcomeOf w s r, s)

/-- The report on a run that was turned down as a whole: its only entry is that. -/
def declined (w : Workflow) (s : RunState σ) : RunOutcome × RunState σ :=
  let s := { s with trace := [⟨w.name, .error (.notApproved .workflow w.name)⟩] }
  (.reported (reportOf w s .halted (some 1) (some w.name)), s)

/-- The steps of a workflow, screened first if that is asked for. -/
def screenAndRun (x : Executor σ) (w : Workflow) (s : RunState σ) : RunOutcome × RunState σ :=
  if x.securityCheck then
    match x.approveWorkflow w s with
    | (.ok (true, asked), s) => x.runSteps w asked s
    | (.ok (false, _), s) => declined w s
    | (.error e, s) => (outcomeOf w s (.error e), s)
  else x.runSteps w false s

/-- The state before anything of a run has happened: the values it starts from, and a warning if its
profile is not there. -/
def startState (w : Workflow) (r : RunRequest) (world : σ) : RunState σ :=
  match r.context with
  | some context => initialState context world
  | none =>
    let s := initialState (w.buildContext r.profile r.overrides) world
    match w.missingProfile? r.profile with
    | some profile =>
      { s with events := [.warning
        ("Profile '" ++ profile ++ "' not found in workflow '" ++ w.name ++ "'")] }
    | none => s

/-- A whole run: missing variables first, then the screening, then the steps. -/
def runWorkflow (x : Executor σ) (w : Workflow) (r : RunRequest) (world : σ) :
    RunOutcome × RunState σ :=
  match Run.fillMissing x.world w r.interactive (startState w r world) with
  | (.ok (), s) => x.screenAndRun w s
  | (.error e, s) => (outcomeOf w s (.error e), s)

end Executor

end Runbook
