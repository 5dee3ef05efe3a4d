import Runbook.Run.World

/-!
# A run as a state with early ends

* `RunState`: the values of variables, the trace so far, the last process result, the events, and
  the state of the world;
* `Signal`: what ends a block of steps before its last step;
* `Run`: an action on a run's state that ends with a value or a signal;
* the single actions: reading and writing the state, and turning to the world.
-/

namespace Runbook

/-- The state of a run. -/
structure RunState (σ : Type) where
  context : Context
  trace : List StepResult
  results : List StepResult
  last : Option ProcessResult
  events : List Event
  world : σ

/-- What ends a block early: a step that stops the run, an action that leaves the run or the loop, a
condition without outcome, a required variable without value, a fault, or a loop without cap for
which there was not enough fuel. -/
inductive Signal where
  | halted (path : String) (exitCode : Int)
  | returned (exitCode : Option Int)
  | broken
  | undecided (error : ExpressionError)
  | missingVariable (name : String)
  | raised (fault : Fault)
  | unfinished
deriving DecidableEq, Repr

/-- An action on the state of a run. -/
def Run (σ α : Type) : Type := RunState σ → Except Signal α × RunState σ

namespace Run

variable {σ α β : Type}

/-- Changes nothing and ends with a value. -/
def pure (a : α) : Run σ α := fun s => (.ok a, s)

/-- One action after another; a signal skips the second. -/
def bind (m : Run σ α) (f : α → Run σ β) : Run σ β := fun s =>
  match m s with
  | (.ok a, s') => f a s'
  | (.error e, s') => (.error e, s')

instance : Monad (Run σ) where
  pure := Run.pure
  bind := Run.bind

theorem pure_apply (a : α) (s : RunState σ) : (Pure.pure a : Run σ α) s = (.ok a, s) := rfl

theorem bind_apply (m : Run σ α) (f : α → Run σ β) (s : RunState σ) :
    (m >>= f) s = match m s with
      | (.ok a, s') => f a s'
      | (.error e, s') => (.error e, s') := rfl

/-- Ends with a signal. -/
def stop (signal : Signal) : Run σ α := fun s => (.error signal, s)

/-- The state. -/
def state : Run σ (RunState σ) := fun s => (.ok s, s)

/-- Changes the state. -/
def update (f : RunState σ → RunState σ) : Run σ Unit := fun s => (.ok (), f s)

/-! ## Single actions -/

/-- Notes an event. -/
def log (e : Event) : Run σ Unit :=
  update fun s => { s with events := s.events ++ [e] }

/-- Notes a warning. -/
def warn (text : String) : Run σ Unit := log (.warning text)

/-- Adds an entry to the trace, and to the results if it is one of the top level. -/
def record (top : Bool) (entry : StepResult) : Run σ Unit :=
  update fun s =>
    { s with trace := s.trace ++ [entry],
             results := if top then s.results ++ [entry] else s.results }

/-- Binds a variable. -/
def setVariable (name value : String) : Run σ Unit :=
  update fun s => { s with context := s.context.put name value }

/-- Puts a question to the world and keeps the world's new state. -/
def turnTo (question : σ → α × σ) : Run σ α := fun s =>
  let (a, world) := question s.world
  (.ok a, { s with world := world })

/-- Goes on with an answer; a fault ends the run. -/
def orRaise : Except Fault α → Run σ α
  | .ok a => Run.pure a
  | .error fault => stop (.raised fault)

/-- Starts a process and waits for its end. -/
def spawn (w : World σ) (command : String) : Run σ SpawnReply := do
  log (.spawned command)
  turnTo (w.spawn command)

/-- Has a condition tested. -/
def test (w : World σ) (expression : String) : Run σ Bool := do
  log (.tested expression)
  match ← turnTo (w.test expression) with
  | .decided holds => Pure.pure holds
  | .undecided reason => stop (.undecided (.undecided reason))
  | .raised fault => stop (.raised fault)

/-- Reads a line. -/
def readLine (w : World σ) (prompt : String) : Run σ String := do
  log (.asked prompt)
  orRaise (← turnTo (w.readLine prompt))

/-- The answers that count as a yes, in letters of any case and with blanks around them. -/
def isYes (answer : String) : Bool :=
  let word := (Text.trim answer.toList).flatMap Text.lowerCase
  word = "y".toList || word = "yes".toList

/-- Asks for approval, by reading a line if there is no approver. -/
def approve (w : World σ) (message : String) : Run σ Bool := do
  log (.approval message)
  match w.approve with
  | some ask => orRaise (← turnTo (ask message))
  | none =>
    let answer ← readLine w (message ++ " [y/N]: ")
    Pure.pure (isYes answer)

/-- Waits until an authentication is confirmed, by reading a line if nothing else confirms it. -/
def confirm (w : World σ) (step command : String) : Run σ Unit := do
  log (.confirmation step command)
  match w.confirm with
  | some wait => orRaise (← turnTo (wait step command))
  | none =>
    let _ ← readLine w
      ("Complete authentication for '" ++ step ++ "', then press Enter to continue...")
    Pure.pure ()

/-- Runs an action up to an early end by leaving a loop, and says whether it ended so. -/
def leftLoop (m : Run σ Unit) : Run σ Bool := fun s =>
  match m s with
  | (.ok _, s') => (.ok false, s')
  | (.error .broken, s') => (.ok true, s')
  | (.error e, s') => (.error e, s')

end Run

end Runbook
