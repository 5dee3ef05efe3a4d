import Runbook.Value
import Runbook.Workflow

/-!
# Writing workflows and stores

Every record as a `Value` with all its fields, in the form in which it can be read back:
`Condition.toValue`, `Action.toValue`, `Step.toValue`, `Variable.toValue`, `Profile.toValue`,
`Workflow.toValue`, `SavedCommand.toValue`.
-/

namespace Runbook

namespace Value

/-- A text, or null. -/
def ofText? : Option String → Value
  | some s => .text s
  | none => .null

/-- A whole number, or null. -/
def ofInt? : Option Int → Value
  | some i => .int i
  | none => .null

/-- A list of texts. -/
def ofTexts (texts : List String) : Value :=
  .list (texts.map .text)

/-- A map of texts. -/
def ofTextMap (entries : Assoc String String) : Value :=
  ofFields (entries.map fun entry => (entry.1, .text entry.2))

end Value

/-- A condition with its fields. -/
def Condition.toValue (c : Condition) : Value :=
  .ofFields [("expression", .text c.expression), ("variable", .ofText? c.capture)]

/-- An action with its fields. -/
def Action.toValue (a : Action) : Value :=
  .ofFields [("type", .text a.kind.name), ("exit_code", .ofInt? a.exitCode)]

/-- The fields that every step has. -/
def StepHead.fields (h : StepHead) (kind : StepKind) : List (String × Value) :=
  [("name", .text h.name), ("description", .text h.description), ("command", .text h.command),
   ("continue_on_error", .bool h.continueOnError), ("require_approval", .bool h.requireApproval),
   ("step_type", .text kind.name)]

/-- An action, or null. -/
def Action.toValue? : Option Action → Value
  | some a => a.toValue
  | none => .null

namespace Step

mutual

/-- A step with its fields. -/
def toValue : Step → Value
  | .command h => .ofFields (h.fields .command)
  | .auth h => .ofFields (h.fields .auth)
  | .conditional h c thenBlock none a =>
    .ofFields (h.fields .conditional ++ [("conditional", .ofFields
      [("condition", c.toValue), ("then_block", .list (blockValues thenBlock)),
       ("else_block", .null), ("action", Action.toValue? a)])])
  | .conditional h c thenBlock (some elseBlock) a =>
    .ofFields (h.fields .conditional ++ [("conditional", .ofFields
      [("condition", c.toValue), ("then_block", .list (blockValues thenBlock)),
       ("else_block", .list (blockValues elseBlock)), ("action", Action.toValue? a)])])
  | .branch h selector cases none =>
    .ofFields (h.fields .branch ++ [("branch", .ofFields
      [("variable", .text selector), ("cases", .list (caseValuesList cases)),
       ("default_case", .null)])])
  | .branch h selector cases (some fallback) =>
    .ofFields (h.fields .branch ++ [("branch", .ofFields
      [("variable", .text selector), ("cases", .list (caseValuesList cases)),
       ("default_case", .list (blockValues fallback))])])
  | .loop h c body =>
    .ofFields (h.fields .loop ++ [("loop", .ofFields
      [("condition", c.toValue), ("steps", .list (blockValues body))])])

/-- The steps of a block with their fields. -/
def blockValues : List Step → List Value
  | [] => []
  | s :: rest => toValue s :: blockValues rest

/-- The cases of a branch with their fields. -/
def caseValuesList : List (String × List Step) → List Value
  | [] => []
  | (value, block) :: rest =>
    .ofFields [("value", .text value), ("steps", .list (blockValues block))] :: caseValuesList rest

end

end Step

/-- A variable with its fields. -/
def Variable.toValue (v : Variable) : Value :=
  .ofFields [("name", .text v.name), ("description", .text v.description),
    ("default_value", .ofText? v.defaultValue), ("required", .bool v.required)]

/-- A profile with its fields. -/
def Profile.toValue (p : Profile) : Value :=
  .ofFields [("name", .text p.name), ("description", .text p.description),
    ("variables", .ofTextMap p.values)]

/-- A workflow with its fields. -/
def Workflow.toValue (w : Workflow) : Value :=
  .ofFields [("name", .text w.name), ("description", .text w.description),
    ("steps", .list (Step.blockValues w.steps)),
    ("variables", .list (w.declarations.map Variable.toValue)),
    ("profiles", .ofFields (w.profiles.map fun entry => (entry.1, entry.2.toValue))),
    ("tags", .ofTexts w.tags), ("created_at", .int w.createdAt),
    ("last_used", .ofInt? w.lastUsed), ("use_count", .int w.useCount)]

/-- A saved command with its fields. -/
def SavedCommand.toValue (c : SavedCommand) : Value :=
  .ofFields [("name", .text c.name), ("description", .text c.description),
    ("command", .text c.command), ("tags", .ofTexts c.tags), ("created_at", .int c.createdAt),
    ("last_used", .ofInt? c.lastUsed), ("use_count", .int c.useCount)]

end Runbook
