import Runbook.Definition.Document
import Runbook.File.Content
import Runbook.File.Path
import Runbook.Json.Reader
import Runbook.Yaml.Document

/-!
# Workflows in files

`Workflow.ofFile` reads a workflow from a file in JSON or YAML, told apart by the suffix of its
name; `LoadError` says why it could not.
-/

namespace Runbook

/-- Why a file gives no workflow. -/
inductive LoadError where
  | notFound (path : String)
  | notText
  | unsupported (kind : String)
  | invalidJson (reason : String)
  | oversizedJson (problem : Json.Problem)
  | invalidYaml (problem : Yaml.Problem)
  | definition (e : DefinitionError)

/-- The wording of an error. A text that is well-formed as far as it was read has none. -/
def LoadError.message : LoadError → String
  | .notFound path => "Workflow file not found: " ++ path
  | .notText => "The file is not encoded in UTF-8"
  | .unsupported kind => "Unsupported workflow file type: " ++ kind
  | .invalidJson reason => "Invalid JSON: " ++ reason
  | .oversizedJson _ => ""
  | .invalidYaml _ => "Invalid YAML"
  | .definition e => e.message

/-- The formats of a workflow file. -/
inductive FileFormat where
  | json
  | yaml
deriving DecidableEq, Repr

/-- The format that the suffix of a name, in letters of either case, stands for. -/
def FileFormat.ofName (name : List Char) : Except LoadError FileFormat :=
  let suffix := (File.suffixOf name).flatMap Text.lowerCase
  if suffix = ".json".toList then .ok .json
  else if suffix = ".yaml".toList || suffix = ".yml".toList then .ok .yaml
  else .error (.unsupported (String.ofList (if suffix.isEmpty then name else suffix)))

/-- The workflow that a text in JSON defines. -/
def Workflow.ofJson (now : Int) (text : List Char) : Except LoadError Workflow :=
  match Json.read text with
  | .ok v => (Workflow.ofValue now v).mapError .definition
  | .error fault =>
    .error (if fault.problem.isMalformed then .invalidJson (fault.message text)
      else .oversizedJson fault.problem)

/-- The workflow that a text in YAML defines. -/
def Workflow.ofYaml (now : Int) (text : List Char) : Except LoadError Workflow :=
  match Yaml.read text with
  | .ok d => (Workflow.ofDocument now d).mapError .definition
  | .error problem => .error (.invalidYaml problem)

/-- The workflow in a file with the given content, if it has any. -/
def Workflow.ofFile (now : Int) (path : String) (content : Option ByteArray) :
    Except LoadError Workflow :=
  match content with
  | none => .error (.notFound (File.pathText path))
  | some data =>
    match File.textOf? data with
    | none => .error .notText
    | some text => do
      match ← FileFormat.ofName (File.lastPart path) with
      | .json => Workflow.ofJson now text
      | .yaml => Workflow.ofYaml now text

end Runbook
