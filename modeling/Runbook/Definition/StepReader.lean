import Runbook.Definition.Field

/-!
# Reading the steps of a definition

A step is a map; its kind is named by `step_type` or follows from the payload it carries:

* `readAction`: an action, as a map or in short form such as `return:3`;
* `readCondition`, `readHead`: the parts without steps in them;
* `kindOf`: the kind of a step;
* `readStep`, `readBlock`: steps and blocks, all faults gathered in the order of the fields;
* `blockListed`: whether every branch of a block lists its cases by something that can be listed.

The recursion goes from a map to the value of one of its keys, which is smaller.
-/

namespace Runbook.Definition

/-! ## 1. Actions -/

/-- The fields of an action in short form: its word before the first colon, in any case and with
blanks around it, and behind the colon its exit code, if there is one. -/
def actionFields (s : String) : Checked Fields :=
  let word := s.toList.takeWhile (· != ':')
  let code := (s.toList.dropWhile (· != ':')).drop 1
  let kind : Scalar × Value :=
    (.text "type", .text (String.ofList ((Text.trim word).flatMap Text.lowerCase)))
  if (Text.trim code).isEmpty then .valid [kind]
  else
    match writtenWhole? 10 code with
    | some n => .valid [kind, (.text "exit_code", .int n)]
    | none => .fault (.badExitCode (String.ofList code))

/-- The kind of an action. -/
def readActionKind : Value → Checked ActionKind
  | .scalar (.text s) =>
    match ActionKind.ofName? s with
    | some kind => .valid kind
    | none => .fault .unknownAction
  | _ => .fault .unknownAction

/-- An action from its fields; leaving the run needs an exit code. -/
def readActionFields (fields : Fields) : Checked Action :=
  (Checked.both Action.mk (required fields "type" readActionKind)
    (nullable fields "exit_code" readWhole)).demand fun action =>
      if action.kind = .leaveRun ∧ action.exitCode = none then some .missingExitCode else none

/-- An action, as a map or in short form. -/
def readAction : Value → Checked Action
  | .scalar (.text s) =>
    match actionFields s with
    | .valid fields => readActionFields fields
    | .faulty fs => .faulty fs
  | v => readRecord "ConditionalAction" readActionFields v

/-! ## 2. Parts without steps -/

/-- A condition. -/
def readCondition : Value → Checked Condition :=
  readRecord "Condition" fun fields =>
    Checked.both Condition.mk (required fields "expression" readText)
      (nullable fields "variable" readText)

/-- What every step has. -/
def readHead (fields : Fields) : Checked StepHead :=
  StepHead.mk <$> required fields "name" readText
    <*> optional fields "description" "" readText
    <*> optional fields "command" "" readText
    <*> optional fields "continue_on_error" false readTruth
    <*> optional fields "require_approval" false readTruth

/-- The kinds whose payload lies under a key of their own. -/
def payloadKinds : List StepKind :=
  [.conditional, .branch, .loop]

/-- The kind of a step: the one it names, else the first one whose payload it carries, else a
command. A name that is no kind is answered as it is shown. -/
def kindOf (fields : Fields) : Except String StepKind :=
  match Value.lookup "step_type" fields with
  | none =>
    .ok ((payloadKinds.find? fun kind => (Value.lookup kind.name fields).isSome).getD .command)
  | some (.scalar (.text s)) =>
    match StepKind.ofName? s with
    | some kind => .ok kind
    | none => .error s
  | some v => .error v.display

/-- Steps that hold others have no command text. -/
def withoutCommand (kind : StepKind) (s : Step) : Option Problem :=
  if s.commandText = "" then none else some (.commandInControlFlow kind s.name)

/-- A step that holds others: its head, its payload under the name of its kind, no command text. -/
def controlStep (kind : StepKind) (fields : Fields) (payload : Checked (StepHead → Step)) :
    Checked Step :=
  ((Checked.both (fun head make => make head) (readHead fields) (payload.under kind.name)).demand
    (withoutCommand kind)).under kind.name

/-! ## 3. Steps and blocks -/

/-- The value of a key is smaller than the map. -/
theorem lookup_lt {name : String} {fields : Fields} {v : Value}
    (h : Value.lookup name fields = some v) : sizeOf v < sizeOf fields := by
  induction fields with
  | nil => simp [Value.lookup] at h
  | cons entry rest ih =>
    obtain ⟨k, w⟩ := entry
    cases k with
    | text s =>
      simp only [Value.lookup] at h
      split at h
      · injection h with h
        subst h
        simp
        omega
      · have := ih h
        simp
        omega
    | null | bool | int | real | brokenText | date | moment | bytes =>
      simp only [Value.lookup] at h
      have := ih h
      simp
      omega

/-- The value of a key, known to be smaller than the map. -/
def lookupBelow (name : String) (fields : Fields) :
    Option { v : Value // sizeOf v < sizeOf fields } :=
  match h : Value.lookup name fields with
  | none => none
  | some v => some ⟨v, lookup_lt h⟩

/-- What a value lists besides the items of a list: the characters of a text, the members of a set,
the keys of a map, the numbers of a string of bytes. -/
def looseItems? : Value → Option (List Value)
  | .scalar (.text s) => some (s.toList.map fun c => .text (String.ofList [c]))
  | .scalar (.brokenText codes) => some (codes.map fun n => .scalar (.ofCodes [n]))
  | .scalar (.bytes data) => some (data.map fun b => .int b.toNat)
  | .set members => some (members.map .scalar)
  | .map fields => some (fields.map fun entry => .scalar entry.1)
  | _ => none

/-- Listed values that are no cases: a fault for each of them. -/
def looseCases : Option (List Value) → Checked (List (String × List Step))
  | some items => readItems (fun _ => .fault (.notRecord "BranchCase")) 0 items
  | none => .fault .notList

/-- The members of a set as the steps of a block, which they are not. -/
def scalarSteps (members : List Scalar) : Checked (List Step) :=
  readItems (fun _ => .fault .notStep) 0 (members.map .scalar)

mutual

/-- A step. -/
def readStep (v : Value) : Checked Step :=
  match v with
  | .map fields =>
    match kindOf fields with
    | .error shown => .fault (.unknownKind shown)
    | .ok .command => ((readHead fields).map Step.command).under "command"
    | .ok .auth => ((readHead fields).map Step.auth).under "auth"
    | .ok .conditional =>
      controlStep .conditional fields
        (match lookupBelow "conditional" fields with
          | none => .fault .missing
          | some ⟨v, _⟩ => readConditional v)
    | .ok .branch =>
      controlStep .branch fields
        (match lookupBelow "branch" fields with
          | none => .fault .missing
          | some ⟨v, _⟩ => readBranch v)
    | .ok .loop =>
      controlStep .loop fields
        (match lookupBelow "loop" fields with
          | none => .fault .missing
          | some ⟨v, _⟩ => readLoop v)
  | _ => .fault .notStep
termination_by sizeOf v

/-- The payload of a conditional, as the step it makes of a head. -/
def readConditional (v : Value) : Checked (StepHead → Step) :=
  match v with
  | .map fields =>
    (fun c t e a h => Step.conditional h c t e a) <$> required fields "condition" readCondition
      <*> readBlockField "then_block" fields
      <*> readNullableBlock "else_block" fields
      <*> nullable fields "action" readAction
  | _ => .fault (.notRecord "ConditionalPayload")
termination_by sizeOf v

/-- The payload of a branch, as the step it makes of a head. -/
def readBranch (v : Value) : Checked (StepHead → Step) :=
  match v with
  | .map fields =>
    (fun s cs d h => Step.branch h s cs d) <$> required fields "variable" readText
      <*> readCasesField fields
      <*> readNullableBlock "default_case" fields
  | _ => .fault (.notRecord "BranchPayload")
termination_by sizeOf v

/-- The payload of a loop, as the step it makes of a head. -/
def readLoop (v : Value) : Checked (StepHead → Step) :=
  match v with
  | .map fields =>
    (fun c b h => Step.loop h c b) <$> required fields "condition" readCondition
      <*> readBlockField "steps" fields
  | _ => .fault (.notRecord "LoopPayload")
termination_by sizeOf v

/-- A block that may be left out, which leaves it empty. -/
def readBlockField (name : String) (fields : Fields) : Checked (List Step) :=
  match lookupBelow name fields with
  | none => .valid []
  | some ⟨v, _⟩ => (readBlock v).under name
termination_by sizeOf fields

/-- A block that may be absent or null, which differs from an empty one. -/
def readNullableBlock (name : String) (fields : Fields) : Checked (Option (List Step)) :=
  match lookupBelow name fields with
  | none => .valid none
  | some ⟨v, _⟩ => (readBlockOrNull v).under name
termination_by sizeOf fields

/-- A block or null. -/
def readBlockOrNull (v : Value) : Checked (Option (List Step)) :=
  match v with
  | .scalar .null => .valid none
  | .list items => (readBlockItems 0 items).map some
  | .set members => (scalarSteps members).map some
  | _ => .fault .notList
termination_by sizeOf v

/-- A block: a list of steps. -/
def readBlock (v : Value) : Checked (List Step) :=
  match v with
  | .list items => readBlockItems 0 items
  | .set members => scalarSteps members
  | _ => .fault .notList
termination_by sizeOf v

/-- The steps of a block from a position on. -/
def readBlockItems (n : Nat) (items : List Value) : Checked (List Step) :=
  match items with
  | [] => .valid []
  | v :: rest =>
    Checked.both (· :: ·) ((readStep v).under (toString n)) (readBlockItems (n + 1) rest)
termination_by sizeOf items

/-- The cases of a branch, which may be left out. -/
def readCasesField (fields : Fields) : Checked (List (String × List Step)) :=
  match lookupBelow "cases" fields with
  | none => .valid []
  | some ⟨v, _⟩ => (readCases v).under "cases"
termination_by sizeOf fields

/-- The cases that a value lists. What is listed by anything but a list is no case. -/
def readCases (v : Value) : Checked (List (String × List Step)) :=
  match v with
  | .list items => readCaseItems 0 items
  | .set members => looseCases (looseItems? (.set members))
  | .map fields => looseCases (looseItems? (.map fields))
  | .scalar s => looseCases (looseItems? (.scalar s))
termination_by sizeOf v

/-- The cases of a branch from a position on. -/
def readCaseItems (n : Nat) (items : List Value) : Checked (List (String × List Step)) :=
  match items with
  | [] => .valid []
  | v :: rest =>
    Checked.both (· :: ·) ((readCase v).under (toString n)) (readCaseItems (n + 1) rest)
termination_by sizeOf items

/-- A case: a value and a block. -/
def readCase (v : Value) : Checked (String × List Step) :=
  match v with
  | .map fields =>
    Checked.both Prod.mk (required fields "value" readText) (readBlockField "steps" fields)
  | _ => .fault (.notRecord "BranchCase")
termination_by sizeOf v

end

/-! ## 4. Whether cases can be listed -/

mutual

/-- Whether the branches below a step list their cases. A step is looked at whatever its kind. -/
def stepListed (v : Value) : Bool :=
  match v with
  | .map fields =>
    (match lookupBelow "conditional" fields with
      | some ⟨v, _⟩ => conditionalListed v
      | none => true) &&
    (match lookupBelow "branch" fields with
      | some ⟨v, _⟩ => branchListed v
      | none => true) &&
    (match lookupBelow "loop" fields with
      | some ⟨v, _⟩ => loopListed v
      | none => true)
  | _ => true
termination_by sizeOf v

/-- The same for the payload of a conditional. -/
def conditionalListed (v : Value) : Bool :=
  match v with
  | .map fields => fieldListed "then_block" fields && fieldListed "else_block" fields
  | _ => true
termination_by sizeOf v

/-- The same for the payload of a branch, whose cases must be listed by a list, a text or a map. -/
def branchListed (v : Value) : Bool :=
  match v with
  | .map fields =>
    (match lookupBelow "cases" fields with
      | none => true
      | some ⟨v, _⟩ => casesListed v) &&
    fieldListed "default_case" fields
  | _ => true
termination_by sizeOf v

/-- The same for the payload of a loop. -/
def loopListed (v : Value) : Bool :=
  match v with
  | .map fields => fieldListed "steps" fields
  | _ => true
termination_by sizeOf v

/-- The same for the block under a key. -/
def fieldListed (name : String) (fields : Fields) : Bool :=
  match lookupBelow name fields with
  | some ⟨v, _⟩ => blockListed v
  | none => true
termination_by sizeOf fields

/-- The same for a block; what is no list holds no steps. -/
def blockListed (v : Value) : Bool :=
  match v with
  | .list items => itemsListed items
  | _ => true
termination_by sizeOf v

/-- The same for the steps of a block. -/
def itemsListed (items : List Value) : Bool :=
  match items with
  | [] => true
  | v :: rest => stepListed v && itemsListed rest
termination_by sizeOf items

/-- The same for the cases of a branch. -/
def casesListed (v : Value) : Bool :=
  match v with
  | .list items => caseItemsListed items
  | .set members => (looseItems? (.set members)).isSome
  | .map fields => (looseItems? (.map fields)).isSome
  | .scalar s => (looseItems? (.scalar s)).isSome
termination_by sizeOf v

/-- The same for the blocks of the cases. -/
def caseItemsListed (items : List Value) : Bool :=
  match items with
  | [] => true
  | .map fields :: rest => fieldListed "steps" fields && caseItemsListed rest
  | _ :: rest => caseItemsListed rest
termination_by sizeOf items

end

end Runbook.Definition
