import Runbook.Number.Written
import Runbook.Step
import Runbook.Value.Display

/-!
# Faults of a definition

What can be wrong with a value that should define something, and where:

* `Problem` and its wording `Problem.message`;
* `Fault`: a problem at a place, the place being the names and positions from the outside in;
* `Checked`: a value or all faults found; checks side by side gather the faults of both.
-/

namespace Runbook.Definition

/-! ## 1. Problems -/

/-- What can be wrong with a value. -/
inductive Problem where
  | missing
  | notText
  | unreadableText
  | notWhole
  | unreadableWhole
  | fractional
  | notFinite
  | tooLarge
  | notTruth
  | unclearTruth
  | notList
  | notMap
  | notRecord (model : String)
  | notStep
  | unknownKind (shown : String)
  | unknownAction
  | commandInControlFlow (kind : StepKind) (name : String)
  | missingExitCode
  | badExitCode (text : String)
deriving DecidableEq, Repr

/-- Words in single quotes, with commas and a last word between them. -/
def alternatives (words : List String) (last : String) : String :=
  let quotes := words.map fun w => "'" ++ w ++ "'"
  if last = "" then Text.joinWith ", " quotes
  else
    Text.joinWith ", " (quotes.take (quotes.length - 1)) ++ last ++
      Text.joinWith "" (quotes.drop (quotes.length - 1))

/-- What is said of a text that writes no whole number: that there are too many digits in front, or
the text, of which at most 200 characters are shown. -/
def badWhole (text : String) : String :=
  let digits := ((trimNumber text.toList).dropWhile fun c => c == '-' || c == '+').takeWhile
    fun c => Text.isDecimal c || c == '_'
  let count := digits.countP Text.isDecimal
  if maxDigits < count then
    "Exceeds the limit (" ++ toString maxDigits ++ " digits) for integer string conversion: " ++
      "value has " ++ toString count ++ " digits; use sys.set_int_max_str_digits() to increase " ++
      "the limit"
  else
    "invalid literal for int() with base 10: " ++
      String.ofList ((quoted text).toList.take 200)

/-- The wording of a problem. -/
def Problem.message : Problem → String
  | .missing => "Field required"
  | .notText => "Input should be a valid string"
  | .unreadableText =>
    "Input should be a valid string, unable to parse raw data as a unicode string"
  | .notWhole => "Input should be a valid integer"
  | .unreadableWhole =>
    "Input should be a valid integer, unable to parse string as an integer"
  | .fractional => "Input should be a valid integer, got a number with a fractional part"
  | .notFinite => "Input should be a finite number"
  | .tooLarge => "Unable to parse input string as an integer, exceeded maximum size"
  | .notTruth => "Input should be a valid boolean"
  | .unclearTruth => "Input should be a valid boolean, unable to interpret input"
  | .notList => "Input should be a valid list"
  | .notMap => "Input should be a valid dictionary"
  | .notRecord model => "Input should be a valid dictionary or instance of " ++ model
  | .notStep => "Input should be a valid dictionary or object to extract fields from"
  | .unknownKind shown =>
    "Input tag '" ++ shown ++ "' found using 'step_type' does not match any of the expected " ++
      "tags: " ++ alternatives (StepKind.all.map (·.name)) ""
  | .unknownAction =>
    "Input should be " ++ alternatives (ActionKind.all.map (·.name)) " or "
  | .commandInControlFlow kind name =>
    "Value error, " ++ kind.name ++ " step '" ++ name ++ "' cannot have command text"
  | .missingExitCode => "Value error, return action requires an exit_code"
  | .badExitCode text => "Value error, " ++ badWhole text

/-! ## 2. Faults and their places -/

/-- A problem and the place it was found at: names of fields, positions in lists and keys of maps,
from the outside in. -/
structure Fault where
  place : List String
  problem : Problem
deriving DecidableEq, Repr

/-- The wording of a fault: its place joined by dots, and its problem. -/
def Fault.message (f : Fault) : String :=
  if f.place.isEmpty then f.problem.message
  else Text.joinWith "." f.place ++ ": " ++ f.problem.message

/-- The wording of a list of faults. -/
def messages (faults : List Fault) : String :=
  Text.joinWith "; " (faults.map Fault.message)

/-! ## 3. Checks -/

/-- A value, or the faults that keep it from being one. -/
inductive Checked (α : Type) where
  | valid (value : α)
  | faulty (faults : List Fault)
deriving Repr

namespace Checked

/-- The check made on the value of another one. -/
def map {α β : Type} (f : α → β) : Checked α → Checked β
  | .valid a => .valid (f a)
  | .faulty fs => .faulty fs

/-- Two checks side by side: the faults of both, in order. -/
def both {α β γ : Type} (f : α → β → γ) : Checked α → Checked β → Checked γ
  | .valid a, .valid b => .valid (f a b)
  | .valid _, .faulty gs => .faulty gs
  | .faulty fs, .valid _ => .faulty fs
  | .faulty fs, .faulty gs => .faulty (fs ++ gs)

instance : Applicative Checked where
  pure := .valid
  seq f a := both (fun f a => f a) f (a ())

/-- A single fault, at the place itself. -/
def fault {α : Type} (problem : Problem) : Checked α :=
  .faulty [⟨[], problem⟩]

/-- The check of a part: its faults lie under the part's name. -/
def under {α : Type} (name : String) : Checked α → Checked α
  | .valid a => .valid a
  | .faulty fs => .faulty (fs.map fun f => { f with place := name :: f.place })

/-- A further demand on a value that is valid so far. -/
def demand {α : Type} (c : Checked α) (problem? : α → Option Problem) : Checked α :=
  match c with
  | .valid a =>
    match problem? a with
    | some p => fault p
    | none => .valid a
  | .faulty fs => .faulty fs

/-- The value, if there is no fault. -/
def value? {α : Type} : Checked α → Option α
  | .valid a => some a
  | .faulty _ => none

end Checked

end Runbook.Definition
