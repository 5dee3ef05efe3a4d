import Runbook.Config
import Runbook.File.Content
import Runbook.File.Path
import Runbook.Yaml.Document

/-!
# Configuration in a file

`Config.ofFile` reads settings from a file in YAML. Without a file, or with nothing in it, the
standard configuration holds.
-/

namespace Runbook

/-- Why a file gives no configuration. -/
inductive Config.FileError where
  | notText
  | invalidYaml (path : String) (problem : Yaml.Problem)
  | notMap (path : String)
  | settings (fault : Config.Fault)
  | endless

/-- The wording of an error. Settings that hold themselves have none. -/
def Config.FileError.message : Config.FileError → String
  | .notText => "The file is not encoded in UTF-8"
  | .invalidYaml path _ => "Invalid YAML in " ++ path
  | .notMap path => path ++ " must contain a mapping at top level"
  | .settings fault => fault.message
  | .endless => ""

/-- The configuration of settings from a file. -/
def Config.ofSettings (v : Value) : Except Config.FileError Config :=
  match Config.ofValue v with
  | .ok c => .ok c
  | .error fault => .error (.settings fault)

/-- How many levels into a document the checks of a configuration look. -/
def Config.checkedDepth : Nat := 3

/-- The configuration of a document. Settings that hold themselves are checked, but they cannot be
kept. -/
def Config.ofDocument (path : String) (d : Document) : Except Config.FileError Config :=
  let tree? := d.tree?
  let v := tree?.getD (d.value Config.checkedDepth d.root)
  if v.isTruthy && !v.isMap then .error (.notMap (File.pathText path))
  else
    match Config.ofSettings v, tree? with
    | .ok c, some _ => .ok c
    | .ok _, none => .error .endless
    | .error e, _ => .error e

/-- The configuration in a file with the given content, if it has any. -/
def Config.ofFile (path : String) (content : Option ByteArray) : Except Config.FileError Config :=
  match content with
  | none => Config.ofSettings .null
  | some data =>
    match File.textOf? data with
    | none => .error .notText
    | some text =>
      match Yaml.read text with
      | .error problem => .error (.invalidYaml (File.pathText path) problem)
      | .ok d => Config.ofDocument path d

end Runbook
