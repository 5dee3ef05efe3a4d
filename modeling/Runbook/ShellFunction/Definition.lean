import Runbook.Number.Written
import Runbook.Text.Basic
import Runbook.Workflow

/-!
# Functions in a script, and the variables they use

* `bodyOf?`: the body of a function that a script defines, from behind the opening brace to the
  first closing brace that starts a line;
* `highestParameter`, `namesUsed`: the parameters and the names that a body uses;
* `hasOversizedParameter`: whether the number of a parameter has too many digits;
* `variablesOf`: the variables that a workflow made of the body has.
-/

namespace Runbook.ShellFunction

/-! ## 1. Definitions -/

/-- The text up to the first closing brace that starts a line. -/
def untilClosingBrace? (atLineStart : Bool) : List Char → Option (List Char)
  | [] => none
  | c :: rest =>
    if atLineStart && c = '\x7d' then some []
    else (untilClosingBrace? (c = '\n') rest).map (c :: ·)

/-- The text behind a pair of parentheses and blanks, if it starts with one. -/
def dropParentheses (s : List Char) : List Char :=
  match Text.dropStart? "()".toList s with
  | some rest => Text.trimLeft rest
  | none => s

/-- The body of a definition of the name whose name starts the text. -/
def bodyBehindName? (name : List Char) (s : List Char) : Option (List Char) :=
  match (Text.dropStart? name s).map fun rest => dropParentheses (Text.trimLeft rest) with
  | some ('\x7b' :: body) => untilClosingBrace? false body
  | _ => none

/-- What may come behind the leading blanks of a text, of which there is at least one: all of them
skipped first, and then one less each time. -/
def behindBlanks : List Char → List (List Char)
  | [] => []
  | c :: rest => if Text.isBlank c then behindBlanks rest ++ [rest] else []

/-- The body of a definition that starts the text, with or without the keyword `function`. -/
def bodyAt? (name : List Char) (s : List Char) : Option (List Char) :=
  match Text.dropStart? "function".toList s with
  | some rest =>
    match (behindBlanks rest).findSome? (bodyBehindName? name) with
    | some body => some body
    | none => bodyBehindName? name s
  | none => bodyBehindName? name s

/-- The body of the first definition that starts a line. -/
def bodyFrom? (name : List Char) (atLineStart : Bool) (s : List Char) : Option (List Char) :=
  match if atLineStart then bodyAt? name s else none with
  | some body => some body
  | none =>
    match s with
    | [] => none
    | c :: rest => bodyFrom? name (c = '\n') rest

/-- The body of the function that a script defines under the name. -/
def bodyOf? (name content : String) : Option String :=
  (bodyFrom? name.toList true content.toList).map String.ofList

/-! ## 2. Variables -/

/-- What follows a dollar sign and an opening brace, which may be left out. -/
def behindDollar (c : Char) (rest : List Char) : Option (List Char × Nat) :=
  if c = '$' then
    match rest with
    | '\x7b' :: body => some (body, 1)
    | _ => some (rest, 0)
  else none

/-- The number of a text of decimal digits. -/
def numberOf (digits : List Char) : Nat :=
  digits.foldl (fun n c => 10 * n + (Text.decimalValue? c).getD 0) 0

/-- The digits of a numbered parameter that starts with `c`, and how many characters of `rest` belong
to it. -/
def parameterAt (c : Char) (rest : List Char) : Option (List Char × Nat) :=
  (behindDollar c rest).bind fun (s, brace) =>
    match s.takeWhile Text.isDecimal with
    | [] => none
    | digits => some (digits, brace + digits.length)

/-- A named variable that starts with `c`, and how many characters of `rest` belong to it. -/
def variableAt (c : Char) (rest : List Char) : Option (String × Nat) :=
  (behindDollar c rest).bind fun (s, brace) =>
    match s with
    | first :: _ =>
      if Text.isIdentStart first then
        let name := s.takeWhile Text.isIdentChar
        some (String.ofList name, brace + name.length)
      else none
    | [] => none

/-- The digits of the parameters that a body uses. -/
def parametersUsed (body : String) : List (List Char) :=
  Text.tokens (Text.pieces parameterAt body.toList)

/-- Whether a body uses a parameter with more digits than a number may be written with. -/
def hasOversizedParameter (body : String) : Bool :=
  (parametersUsed body).any fun digits => maxDigits < digits.length

/-- The highest number of a parameter that a body uses; zero if it uses none. -/
def highestParameter (body : String) : Nat :=
  ((parametersUsed body).map numberOf).foldl max 0

/-- The names that a body uses, each once, in the order of their first use. -/
def namesUsed (body : String) : List String :=
  distinct (Text.tokens (Text.pieces variableAt body.toList))

/-- The variable of a parameter. -/
def parameterVariable (number : Nat) : Variable :=
  ⟨"param" ++ toString number, "Function parameter $" ++ toString number, none, true⟩

/-- The variable of a name. -/
def namedVariable (name : String) : Variable :=
  ⟨name, "Shell variable: " ++ name, none, false⟩

/-- The variables of a body: one for each parameter up to the highest that it uses, which are
required, and one for each name. -/
def variablesOf (body : String) : List Variable :=
  (List.range (highestParameter body)).map (fun i => parameterVariable (i + 1)) ++
    (namesUsed body).map namedVariable

end Runbook.ShellFunction
