import Runbook.Run.State
import Runbook.Template.Steps

/-!
# Running steps

A block of steps runs in order. Texts are resolved when their step is reached, and a condition each
time it is evaluated, so that values captured earlier are seen by every later step:

* `Engine`: the world, the cap on loop iterations, and whether the whole run is approved already;
* `Engine.evaluate`: a condition, its outcome captured if it names a variable;
* `Engine.gate`: the approval of a step that asks for it;
* `Engine.runLeaf`: a command or an authentication;
* `Engine.loop`: a loop over any condition and body;
* `Engine.runStep`, `Engine.runBlock`: the steps of a tree.

A loop with a cap needs no fuel; one without a cap has `fuel` rounds and is left `unfinished` when
they are spent.
-/

namespace Runbook

/-- What the steps of a run share. -/
structure Engine (σ : Type) where
  world : World σ
  cap : Option Int
  fuel : Nat
  approved : Bool

/-- The path of a step below the path of its block; the top level has no path. -/
def stepPath (above name : String) : String :=
  if above = "" then name else above ++ "/" ++ name

/-- The path of a block below the path of its step. -/
def blockPath (path label : String) : String :=
  path ++ "/" ++ label

/-- The label of an iteration of a loop, counted from 1. -/
def iterationLabel (n : Nat) : String :=
  "loop[" ++ toString n ++ "]"

namespace Engine

variable {σ : Type}

/-! ## 1. Conditions -/

/-- The outcome of a text whose variables have been substituted: comparisons with the last exit code
are made here, for which the number must be read, and all else is tested by the world. -/
def decide (e : Engine σ) (text : String) : Run σ Bool :=
  match Expression.exitCodeCheck? text with
  | some (comparison, expected) => do
    match (← Run.state).last with
    | none => Run.stop (.undecided .missingResult)
    | some result =>
      if Expression.isOversized text then Run.stop (.raised .oversizedNumber)
      else return comparison.holds result.returnCode expected
  | none => Run.test e.world text

/-- Captures the outcome of a condition into its variable, if it names one. -/
def capture (c : Condition) (holds : Bool) : Run σ Unit :=
  match c.capture with
  | some name =>
    if name = "" then pure () else Run.setVariable name (if holds then "true" else "false")
  | none => pure ()

/-- The outcome of a condition. -/
def evaluate (e : Engine σ) (c : Condition) : Run σ Bool := do
  let context := (← Run.state).context
  let holds ← e.decide
    (Expression.substituteVariables context (Template.resolve context c.expression))
  capture c holds
  return holds

/-! ## 2. Approval -/

/-- What the question about a step shows: its command, or its kind if it has none. -/
def summary (kind : StepKind) (h : StepHead) : String :=
  if h.command = "" then kind.name ++ " step" else h.command

/-- Asks about a step that requires it, unless the whole run is approved; a no stops the run. -/
def gate (e : Engine σ) (kind : StepKind) (h : StepHead) (path : String) (top : Bool) :
    Run σ Unit :=
  if h.requireApproval && !e.approved then do
    let yes ← Run.approve e.world
      ("Step '" ++ h.name ++ "' requires approval: " ++ summary kind h)
    if yes then return ()
    else
      Run.record top ⟨path, .error (.notApproved .step h.name)⟩
      Run.stop (.halted path 1)
  else pure ()

/-! ## 3. Commands and authentications -/

/-- Why a step did not succeed. -/
def failureReason (entry : StepResult) : String :=
  match entry.outcome with
  | .ok result => "exit code " ++ toString result.returnCode
  | .error error => error.message

/-- The exit code that a failing step gives the run: that of its process if it has one. -/
def failureCode (entry : StepResult) : Int :=
  match entry.returnCode? with
  | some code => if code = 0 then 1 else code
  | none => 1

/-- Starts the command of a step and records the outcome. -/
def execute (e : Engine σ) (h : StepHead) (path : String) (top : Bool) : Run σ StepResult := do
  match ← Run.spawn e.world h.command with
  | .finished result =>
    let entry : StepResult := ⟨path, .ok result⟩
    Run.update fun s => { s with last := some result }
    Run.record top entry
    return entry
  | .refused reason =>
    let entry : StepResult := ⟨path, .error (.notStarted reason)⟩
    Run.record top entry
    return entry
  | .raised fault => Run.stop (.raised fault)

/-- Runs the command of a step. A failure stops the run, unless the step is a command that lets the
run go on. -/
def runLeaf (e : Engine σ) (isAuth : Bool) (h : StepHead) (path : String) (top : Bool) :
    Run σ Unit := do
  let entry ← e.execute h path top
  if entry.ok then
    if isAuth then Run.confirm e.world h.name h.command else return ()
  else
    let warning := "Step " ++ path ++ " failed (" ++ failureReason entry ++ ")"
    if !isAuth && h.continueOnError then Run.warn (warning ++ ", continuing")
    else
      Run.warn warning
      Run.stop (.halted path (failureCode entry))

/-! ## 4. Loops and actions -/

/-- How often a loop's condition can be evaluated before the loop is over. -/
def rounds (e : Engine σ) : Nat :=
  match e.cap with
  | some n => n.toNat + 1
  | none => e.fuel

/-- Whether an iteration is past the cap. -/
def pastCap (e : Engine σ) (iteration : Nat) : Option Int :=
  e.cap.filter fun n => n < (iteration : Int)

/-- Evaluates the condition before each iteration and runs the body while it holds; `done` counts
the iterations so far. Going past the cap stops the run. -/
def loop (e : Engine σ) (name path : String) (condition : Run σ Bool) (body : Nat → Run σ Unit) :
    (rounds done : Nat) → Run σ Unit
  | 0, _ => Run.stop .unfinished
  | rounds + 1, done => do
    if ← condition then
      match e.pastCap (done + 1) with
      | some cap =>
        Run.record false ⟨path, .error (.loopLimit name cap)⟩
        Run.stop (.halted path 1)
      | none =>
        if ← Run.leftLoop (body (done + 1)) then return ()
        else loop e name path condition body rounds (done + 1)
    else return ()

/-- What a conditional does once its block has run. -/
def act : Option Action → Run σ Unit
  | some ⟨.leaveLoop, _⟩ => Run.stop .broken
  | some ⟨.leaveRun, code⟩ => Run.stop (.returned code)
  | some ⟨.runThen, _⟩ => pure ()
  | some ⟨.runElse, _⟩ => pure ()
  | some ⟨.proceed, _⟩ => pure ()
  | none => pure ()

/-! ## 5. Steps and blocks -/

mutual

/-- A step, below the path of its block. -/
def runStep (e : Engine σ) (above : String) (top : Bool) : Step → Run σ Unit
  | .command h => do
    let h := h.resolve (← Run.state).context
    let path := stepPath above h.name
    e.gate .command h path top
    e.runLeaf false h path top
  | .auth h => do
    let h := h.resolve (← Run.state).context
    let path := stepPath above h.name
    e.gate .auth h path top
    e.runLeaf true h path top
  | .conditional h c thenBlock none action => do
    let path := stepPath above h.name
    e.gate .conditional (h.resolve (← Run.state).context) path top
    if ← e.evaluate c then runBlock e (blockPath path "then") false thenBlock
    act action
  | .conditional h c thenBlock (some elseBlock) action => do
    let path := stepPath above h.name
    e.gate .conditional (h.resolve (← Run.state).context) path top
    if ← e.evaluate c then runBlock e (blockPath path "then") false thenBlock
    else runBlock e (blockPath path "else") false elseBlock
    act action
  | .branch h selector cases none => do
    let path := stepPath above h.name
    let context := (← Run.state).context
    e.gate .branch (h.resolve context) path top
    let _ ← runCases e path context ((context.get? selector).getD "") cases
    return ()
  | .branch h selector cases (some fallback) => do
    let path := stepPath above h.name
    let context := (← Run.state).context
    e.gate .branch (h.resolve context) path top
    if ← runCases e path context ((context.get? selector).getD "") cases then return ()
    else runBlock e (blockPath path "default") false fallback
  | .loop h c body => do
    let path := stepPath above h.name
    e.gate .loop (h.resolve (← Run.state).context) path top
    e.loop h.name path (e.evaluate c)
      (fun n => runBlock e (blockPath path (iterationLabel n)) false body) e.rounds 0

/-- The steps of a block, in order. -/
def runBlock (e : Engine σ) (above : String) (top : Bool) : List Step → Run σ Unit
  | [] => pure ()
  | s :: rest => do
    runStep e above top s
    runBlock e above top rest

/-- The block of the first case whose resolved value is the selected one; whether there was one. -/
def runCases (e : Engine σ) (path : String) (context : Context) (value : String) :
    List (String × List Step) → Run σ Bool
  | [] => pure false
  | (v, block) :: rest =>
    if Template.resolve context v = value then do
      runBlock e (blockPath path (Step.caseLabel value)) false block
      return true
    else runCases e path context value rest

end

end Engine

end Runbook
