import Runbook.File.Content
import Runbook.File.Path
import Runbook.ShellFunction.Block
import Runbook.ShellFunction.Definition
import Runbook.ShellFunction.Steps

/-!
# From a shell function to a workflow

`convert` finds a function in a script, reads its body and makes a workflow of it; `convertFile`
does so for a script in a file.
-/

namespace Runbook.ShellFunction

/-- Why a function cannot be converted. -/
inductive ConversionError where
  | notDefined (name : String)
  | unreadable (e : ReadError)
  | noScript (path : String)
  | notText
  | oversizedNumber
deriving DecidableEq, Repr

/-- The wording of an error. -/
def ConversionError.message : ConversionError → String
  | .notDefined name => "Function '" ++ name ++ "' not found in the script"
  | .unreadable e => e.message
  | .noScript path => "Failed to read script file: " ++ File.noSuchFile path
  | .notText => "The file is not encoded in UTF-8"
  | .oversizedNumber => "The number of a parameter has too many digits"

/-- What is asked of a conversion; without a name of its own the workflow has the function's. -/
structure ConversionRequest where
  function : String
  workflowName : Option String
  description : String
  tags : List String
deriving DecidableEq, Repr

/-- The name of the workflow that is asked for; an empty one does not count. -/
def ConversionRequest.name (r : ConversionRequest) : String :=
  match r.workflowName with
  | none => r.function
  | some name => if name = "" then r.function else name

/-- The body of the function that is asked for. -/
def extractBody (name content : String) : Except ConversionError String :=
  match bodyOf? name content with
  | some body => .ok body
  | none => .error (.notDefined name)

/-- The variables of a body, if the numbers of its parameters can be read. -/
def extractVariables (body : String) : Except ConversionError (List Variable) :=
  if hasOversizedParameter body then .error .oversizedNumber else .ok (variablesOf body)

/-- The workflow of a body. -/
def ofBody (now : Int) (r : ConversionRequest) (body : String) :
    Except ConversionError Workflow :=
  match Statement.ofText body with
  | .error e => .error (.unreadable e)
  | .ok block =>
    (extractVariables body).map fun declarations => {
      name := r.name
      description := r.description
      steps := stepsOf block
      declarations := declarations
      profiles := []
      tags := r.tags
      createdAt := now
      lastUsed := none
      useCount := 0 }

/-- The workflow of a function that a script defines. -/
def convert (now : Int) (r : ConversionRequest) (content : String) :
    Except ConversionError Workflow :=
  (extractBody r.function content).bind (ofBody now r)

/-- A workflow that comes of a conversion has the steps and the variables of a body. -/
theorem of_convert_eq_ok {now : Int} {r : ConversionRequest} {content : String} {w : Workflow}
    (h : convert now r content = .ok w) :
    ∃ body block, extractBody r.function content = .ok body ∧ Statement.ofText body = .ok block ∧
      w.steps = stepsOf block ∧ w.declarations = variablesOf body := by
  unfold convert at h
  cases hbody : extractBody r.function content with
  | error e => simp [hbody, Except.bind] at h
  | ok body =>
    simp only [hbody, Except.bind, ofBody, extractVariables] at h
    split at h
    · cases h
    · rename_i block hblock
      split at h
      · cases h
      · cases h
        exact ⟨body, block, rfl, hblock, rfl, rfl⟩

/-- The workflow of a function that a script in a file defines. -/
def convertFile (now : Int) (r : ConversionRequest) (path : String) (content : Option ByteArray) :
    Except ConversionError Workflow :=
  match content with
  | none => .error (.noScript (File.pathText path))
  | some data =>
    match File.textOf? data with
    | none => .error .notText
    | some text => convert now r (String.ofList text)

end Runbook.ShellFunction
