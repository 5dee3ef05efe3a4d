import Runbook.Run.State
import Runbook.Template.Steps

/-!
# Filling in missing variables

Before a run, every name that its workflow depends on and that has no value yet gets one: a line
that is read, the declared default, or nothing. Names that conditions capture into are set by the
run itself and are not asked for.

* `promptText`: the question for a name;
* `fillName`: one name;
* `fillMissing`: all names of a workflow, in the order of its templates.
-/

namespace Runbook.Run

variable {σ : Type}

/-- The question for a name: its declared description or a general one, and its default. -/
def promptText (w : Workflow) (name : String) : String :=
  let declared := w.getVariable? name
  let description := match declared with
    | some v => if v.description = "" then "Value for " ++ name else v.description
    | none => "Value for " ++ name
  let question := name ++ " (" ++ description ++ ")"
  match declared.bind (·.defaultValue) with
  | some standard => question ++ " [" ++ standard ++ "]: "
  | none => question ++ ": "

/-- The value of a name for which nothing was entered: its default; without one a required name ends
the action, and another one is empty if it was asked for and stays without value if not. -/
def standardValue (w : Workflow) (name : String) (interactive : Bool) : Run σ (Option String) :=
  match w.getVariable? name with
  | some v =>
    match v.defaultValue with
    | some standard => return some standard
    | none =>
      if v.required then stop (.missingVariable name)
      else return if interactive then some "" else none
  | none => return if interactive then some "" else none

/-- What is entered for a name, without the blanks around it; nothing where nothing is asked. -/
def entered (world : World σ) (w : Workflow) (name : String) (interactive : Bool) :
    Run σ String :=
  if interactive then do
    let line ← readLine world (promptText w name)
    return String.ofList (Text.trim line.toList)
  else return ""

/-- Gives a name a value, if there is one for it. -/
def fillName (world : World σ) (w : Workflow) (interactive : Bool) (name : String) :
    Run σ Unit := do
  let line ← entered world w name interactive
  if line ≠ "" then setVariable name line
  else
    match ← standardValue w name interactive with
    | some value => setVariable name value
    | none => return ()

/-- Gives the names a value, one after the other. -/
def fillNames (world : World σ) (w : Workflow) (interactive : Bool) : List String → Run σ Unit
  | [] => pure ()
  | name :: rest => do
    fillName world w interactive name
    fillNames world w interactive rest

/-- The names of a workflow that have no value and get none from a condition. -/
def missingNames (w : Workflow) (context : Context) : List String :=
  w.placeholderNames.filter fun name =>
    !context.contains name && !(capturedNames w.steps).contains name

/-- Gives every missing name of a workflow a value. -/
def fillMissing (world : World σ) (w : Workflow) (interactive : Bool) : Run σ Unit := do
  fillNames world w interactive (missingNames w (← state).context)

end Runbook.Run
