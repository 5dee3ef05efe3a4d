import Runbook.Definition.StepReader
import Runbook.Workflow

/-!
# Reading workflows and stores

* `readVariable`, `readProfile`, `readWorkflow`, `readSavedCommand`: records from their fields;
* `DefinitionError` and its wording: why a value defines nothing;
* `Workflow.ofValue`: a workflow from a value, flat or under the key `workflow`;
* `Store.ofValue`: a store from a value.

`now` is the time at which a definition without a time of its own was made.
-/

namespace Runbook

namespace Definition

/-! ## 1. Records -/

/-- A variable. -/
def readVariable : Value → Checked Variable :=
  readRecord "Variable" fun fields =>
    Variable.mk <$> required fields "name" readText
      <*> optional fields "description" "" readText
      <*> nullable fields "default_value" readText
      <*> optional fields "required" false readTruth

/-- A profile. -/
def readProfile : Value → Checked Profile :=
  readRecord "Profile" fun fields =>
    Profile.mk <$> required fields "name" readText
      <*> optional fields "description" "" readText
      <*> optional fields "variables" [] (readMapOf readText)

/-- A workflow from its fields. -/
def readWorkflowFields (now : Int) (fields : Fields) : Checked Workflow :=
  Workflow.mk <$> required fields "name" readText
    <*> optional fields "description" "" readText
    <*> optional fields "steps" [] readBlock
    <*> optional fields "variables" [] (readListOf readVariable)
    <*> optional fields "profiles" [] (readMapOf readProfile)
    <*> optional fields "tags" [] (readListOf readText)
    <*> optional fields "created_at" now readWhole
    <*> nullable fields "last_used" readWhole
    <*> optional fields "use_count" 0 readWhole

/-- A workflow. -/
def readWorkflow (now : Int) : Value → Checked Workflow :=
  readRecord "Workflow" (readWorkflowFields now)

/-- A saved command from its fields. -/
def readSavedCommandFields (now : Int) (fields : Fields) : Checked SavedCommand :=
  SavedCommand.mk <$> required fields "name" readText
    <*> optional fields "description" "" readText
    <*> required fields "command" readText
    <*> optional fields "tags" [] (readListOf readText)
    <*> optional fields "created_at" now readWhole
    <*> nullable fields "last_used" readWhole
    <*> optional fields "use_count" 0 readWhole

/-- A saved command. -/
def readSavedCommand (now : Int) : Value → Checked SavedCommand :=
  readRecord "Command" (readSavedCommandFields now)

/-- A store from its fields. -/
def readStoreFields (now : Int) (fields : Fields) : Checked Store :=
  Checked.both Store.mk (optional fields "commands" [] (readMapOf (readSavedCommand now)))
    (optional fields "workflows" [] (readMapOf (readWorkflow now)))

/-- Whether the steps under the key `steps` can be looked through at all. -/
def stepsListed (fields : Fields) : Bool :=
  fieldListed "steps" fields

end Definition

/-! ## 2. Errors -/

/-- Why a value defines no workflow or store. -/
inductive DefinitionError where
  | notMap
  | innerNotMap
  | missingName
  | invalid (shownName : String) (faults : List Definition.Fault)
  | storeNotMap
  | invalidStore (faults : List Definition.Fault)
  | unlistableCases
  | endlessSteps
deriving DecidableEq, Repr

/-- The wording of an error. Cases that cannot be listed and steps without an end have none: they
are no fault of a field. -/
def DefinitionError.message : DefinitionError → String
  | .notMap => "Workflow definition must be a dictionary at top level"
  | .innerNotMap => "'workflow' must be a dictionary"
  | .missingName => "Workflow missing 'name' field"
  | .invalid name faults => "Invalid workflow '" ++ name ++ "': " ++ Definition.messages faults
  | .storeNotMap => "Command store must be a dictionary at top level"
  | .invalidStore faults => "Invalid command store: " ++ Definition.messages faults
  | .unlistableCases => ""
  | .endlessSteps => ""

/-! ## 3. Workflows and stores -/

/-- The workflow that the fields of a map define. -/
def Workflow.ofFields (now : Int) (fields : Definition.Fields) :
    Except DefinitionError Workflow :=
  match Value.lookup "name" fields with
  | none => .error .missingName
  | some name =>
    if !name.isTruthy then .error .missingName
    else if !Definition.stepsListed fields then .error .unlistableCases
    else
      match Definition.readWorkflowFields now fields with
      | .valid w => .ok w
      | .faulty faults => .error (.invalid name.display faults)

/-- The workflow that a value defines, on its own or under the key `workflow`. -/
def Workflow.ofValue (now : Int) (v : Value) : Except DefinitionError Workflow :=
  match v with
  | .map fields =>
    match Value.lookup "workflow" fields with
    | none => Workflow.ofFields now fields
    | some (.map inner) => Workflow.ofFields now inner
    | some _ => .error .innerNotMap
  | _ => .error .notMap

/-- Whether the workflows under the key `workflows` can be looked through. -/
def Definition.workflowsListed (fields : Definition.Fields) : Bool :=
  match Value.lookup "workflows" fields with
  | some (.map entries) => entries.all fun entry =>
    match entry.2 with
    | .map fields => Definition.stepsListed fields
    | _ => true
  | _ => true

/-- The store that a value defines. -/
def Store.ofValue (now : Int) (v : Value) : Except DefinitionError Store :=
  match v with
  | .map fields =>
    if !Definition.workflowsListed fields then .error .unlistableCases
    else
      match Definition.readStoreFields now fields with
      | .valid s => .ok s
      | .faulty faults => .error (.invalidStore faults)
  | _ => .error .storeNotMap

end Runbook
