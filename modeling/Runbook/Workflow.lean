import Runbook.Assoc
import Runbook.Step.Walk

/-!
# Workflows and saved commands

* `Variable`, `Profile`: what a workflow declares about its variables;
* `Workflow`: named steps with variables, profiles and counters;
* `Workflow.addVariable`, `addProfile`, `markUsed`, `getVariable?`, `getProfile?`: bookkeeping;
* `SavedCommand`: one command kept under a name, with the same counters;
* `Store`: everything that is kept, by key.

Times are whole seconds.
-/

namespace Runbook

/-- A variable that a workflow declares. -/
structure Variable where
  name : String
  description : String
  defaultValue : Option String
  required : Bool
deriving DecidableEq, Repr

/-- Values for variables under a name. -/
structure Profile where
  name : String
  description : String
  values : Assoc String String
deriving DecidableEq, Repr

/-- A named list of steps with what belongs to it. -/
structure Workflow where
  name : String
  description : String
  steps : List Step
  declarations : List Variable
  profiles : Assoc String Profile
  tags : List String
  createdAt : Int
  lastUsed : Option Int
  useCount : Int
deriving DecidableEq, Repr

namespace Workflow

/-- The profile under a name. -/
def getProfile? (w : Workflow) (name : String) : Option Profile :=
  w.profiles.get? name

/-- The first declaration of a variable. -/
def getVariable? (w : Workflow) (name : String) : Option Variable :=
  w.declarations.find? fun v => v.name = name

/-- Declares a variable in place of every earlier declaration of its name. -/
def addVariable (w : Workflow) (v : Variable) : Workflow :=
  { w with declarations := w.declarations.filter (fun u => u.name ≠ v.name) ++ [v] }

/-- Puts a profile under its name. -/
def addProfile (w : Workflow) (p : Profile) : Workflow :=
  { w with profiles := w.profiles.put p.name p }

/-- Counts a use at the given time. -/
def markUsed (w : Workflow) (now : Int) : Workflow :=
  { w with lastUsed := some now, useCount := w.useCount + 1 }

/-- Every step of the workflow, at any depth. -/
def allSteps (w : Workflow) : List Step :=
  Step.walkBlock w.steps

end Workflow

/-- A command kept under a name. -/
structure SavedCommand where
  name : String
  description : String
  command : String
  tags : List String
  createdAt : Int
  lastUsed : Option Int
  useCount : Int
deriving DecidableEq, Repr

/-- Counts a use at the given time. -/
def SavedCommand.markUsed (c : SavedCommand) (now : Int) : SavedCommand :=
  { c with lastUsed := some now, useCount := c.useCount + 1 }

/-- Everything that is kept, by key. -/
structure Store where
  commands : Assoc String SavedCommand
  workflows : Assoc String Workflow
deriving DecidableEq, Repr

/-- The command under a key. -/
def Store.getCommand? (s : Store) (key : String) : Option SavedCommand :=
  s.commands.get? key

/-- The workflow under a key. -/
def Store.getWorkflow? (s : Store) (key : String) : Option Workflow :=
  s.workflows.get? key

end Runbook
