import Runbook.Definition.Reader
import Runbook.Document

/-!
# Definitions in documents that may be endless

A definition looks only some levels into a document, except for steps, whose blocks may lie one in
the other as deep as they like:

* `blockValue`: a block of steps as a tree, unless it comes up inside itself;
* `Workflow.ofDocument`: a workflow from a document.

What a message shows of a document is shown as the document has it, and not as its tree.
-/

namespace Runbook.Definition

/-- How many levels below a field a definition looks, blocks of steps excepted: a profile in the map
of profiles, and a value in the map of its variables. -/
def fieldDepth : Nat := 3

/-- A field of a definition. -/
def fieldValue (d : Document) (n : Nat) : Value :=
  d.value fieldDepth n

/-- The map of the given fields. Those that are named are made in the order of their names, and all
others are taken as they are. -/
def mapValue (d : Document) (fields : List (Scalar × Nat))
    (named : List (String × (Nat → Except DefinitionError Value))) :
    Except DefinitionError Value := do
  let made ← named.filterMapM fun (name, make) =>
    match Value.lookup name fields with
    | some n => do return some (name, ← make n)
    | none => return none
  return .map (fields.map fun (k, n) =>
    match k with
    | .text name => (k, ((made.find? fun entry => entry.1 = name).map (·.2)).getD (fieldValue d n))
    | _ => (k, fieldValue d n))

/-- The map at a number with the named fields made; what is no map is taken as it is. -/
def mapAt (d : Document) (named : List (String × (Nat → Except DefinitionError Value))) (n : Nat) :
    Except DefinitionError Value :=
  match d.cell n with
  | .map fields => mapValue d fields named
  | _ => .ok (fieldValue d n)

/-- The kind that a step names; a collection there is kept as its wording. -/
def kindValue (d : Document) (n : Nat) : Except DefinitionError Value :=
  match d.cell n with
  | .scalar s => .ok (.scalar s)
  | _ => .ok (.text (d.shown n))

/-- The cases of a branch, of which each may hold a block. -/
def casesValue (d : Document) (block : Nat → Except DefinitionError Value) (n : Nat) :
    Except DefinitionError Value :=
  match d.cell n with
  | .list items => do return .list (← items.mapM (mapAt d [("steps", block)]))
  | .scalar s =>
    if (looseItems? (.scalar s)).isSome then .ok (.scalar s) else .error .unlistableCases
  | _ => .ok (fieldValue d n)

/-- A step, of which each payload may hold blocks. -/
def stepValue (d : Document) (block : Nat → Except DefinitionError Value) :
    Nat → Except DefinitionError Value :=
  mapAt d
    [("step_type", kindValue d),
     ("conditional", mapAt d [("then_block", block), ("else_block", block)]),
     ("branch", mapAt d [("cases", casesValue d block), ("default_case", block)]),
     ("loop", mapAt d [("steps", block)])]

/-- A block of steps. One unit of fuel is spent on each block that lies in another one. -/
def blockValue (d : Document) : (fuel : Nat) → Nat → Except DefinitionError Value
  | 0, _ => .error .endlessSteps
  | fuel + 1, n =>
    match d.cell n with
    | .list items => do return .list (← items.mapM (stepValue d (blockValue d fuel)))
    | _ => .ok (fieldValue d n)

/-- The workflow that the fields of a map define. No more blocks than there are cells lie one in the
other, unless one of them lies in itself. -/
def workflowOf (now : Int) (d : Document) (fields : List (Scalar × Nat)) :
    Except DefinitionError Workflow :=
  match Value.lookup "name" fields with
  | none => .error .missingName
  | some name =>
    if !(fieldValue d name).isTruthy then .error .missingName
    else do
      let v ← mapValue d fields [("steps", blockValue d (d.cells.size + 1))]
      match Workflow.ofValue now (.map [(.text "workflow", v)]) with
      | .error (.invalid _ faults) => throw (.invalid (d.display name) faults)
      | r => r

end Runbook.Definition

namespace Runbook

/-- The workflow that a document defines, on its own or under the key `workflow`. -/
def Workflow.ofDocument (now : Int) (d : Document) : Except DefinitionError Workflow :=
  match d.cell d.root with
  | .map fields =>
    match Value.lookup "workflow" fields with
    | none => Definition.workflowOf now d fields
    | some n =>
      match d.cell n with
      | .map inner => Definition.workflowOf now d inner
      | _ => .error .innerNotMap
  | _ => .error .notMap

end Runbook
