import Runbook.Number.Written
import Runbook.Pattern.Reader
import Runbook.Template

/-!
# Condition expressions

What a condition text means before a shell is asked:

* `substituteVariables`: the bound variables of a text, written `${name}` or `$name`, replaced;
* `Comparison`, `exitCodeCheck?`: a comparison of the last exit code with a number;
* `isOversized`: whether the number has too many digits;
* `ExpressionKind`, `classify`: the shape of a text;
* `ExpressionError`: why an expression has no outcome.

Exit codes are compared here; every other shape is for a shell to decide.
-/

namespace Runbook

/-! ## 1. Variables -/

namespace Expression

/-- A variable in braces that starts with `c`: its name and its length behind `c`. -/
def bracedAt (c : Char) (rest : List Char) : Option (String × Nat) :=
  match c, rest with
  | '$', '\x7b' :: body =>
    let name := body.takeWhile Text.isIdentChar
    match name, body.dropWhile Text.isIdentChar with
    | [], _ => none
    | _ :: _, '\x7d' :: _ => some (String.ofList name, name.length + 2)
    | _, _ => none
  | _, _ => none

/-- A variable without braces that starts with `c`: its name and its length behind `c`. -/
def plainAt (c : Char) (rest : List Char) : Option (String × Nat) :=
  if c = '$' then
    match rest.takeWhile Text.isIdentChar with
    | [] => none
    | name => some (String.ofList name, name.length)
  else none

/-- The text with the bound variables of one notation replaced. -/
def substituteWith (read : Char → List Char → Option (String × Nat)) (context : Context)
    (text : List Char) : List Char :=
  (Text.pieces read text).flatMap (Template.resolvePiece context)

/-- The text with its bound variables replaced, first those in braces, then those without. What has
no value stays as written, and so does the exit code mark. -/
def substituteVariables (context : Context) (text : String) : String :=
  String.ofList (substituteWith plainAt context (substituteWith bracedAt context text.toList))

end Expression

/-! ## 2. Exit codes -/

/-- A comparison of two whole numbers. -/
inductive Comparison where
  | eq
  | ne
  | gt
  | lt
  | ge
  | le
deriving DecidableEq, Repr

/-- Whether two numbers compare so. -/
def Comparison.holds : Comparison → Int → Int → Bool
  | .eq, a, b => a == b
  | .ne, a, b => a != b
  | .gt, a, b => b < a
  | .lt, a, b => a < b
  | .ge, a, b => b ≤ a
  | .le, a, b => a ≤ b

/-- The comparisons as they are written; a longer sign comes before one that starts it. -/
def Comparison.spellings : List (List Char × Comparison) :=
  [("-eq".toList, .eq), ("-ne".toList, .ne), ("-gt".toList, .gt), ("-lt".toList, .lt),
   ("-ge".toList, .ge), ("-le".toList, .le), ("==".toList, .eq), ("!=".toList, .ne),
   (">=".toList, .ge), ("<=".toList, .le), (">".toList, .gt), ("<".toList, .lt)]

/-- A comparison at the start of a text, and what follows it. -/
def Comparison.read? (s : List Char) : Option (Comparison × List Char) :=
  spellings.findSome? fun entry => (Text.dropStart? entry.1 s).map fun rest => (entry.2, rest)

namespace Expression

/-- The value of decimal digits of any script. -/
def digitsValue (digits : List Char) : Nat :=
  digits.foldl (fun n c => 10 * n + (Text.decimalValue? c).getD 0) 0

/-- A comparison of the last exit code with a number, blanks allowed between its parts. -/
def exitCodeCheck? (text : String) : Option (Comparison × Nat) :=
  match Text.trimLeft text.toList with
  | '$' :: '?' :: rest =>
    match Comparison.read? (Text.trimLeft rest) with
    | none => none
    | some (comparison, rest) =>
      let number := Text.trimLeft rest
      let digits := number.takeWhile Text.isDecimal
      match digits, Text.trimLeft (number.dropWhile Text.isDecimal) with
      | [], _ => none
      | _ :: _, [] => some (comparison, digitsValue digits)
      | _, _ => none
  | _ => none

/-- Whether a text has more decimal digits than a number may be written with. In a comparison of the
last exit code all of them are digits of its number. -/
def isOversized (text : String) : Bool :=
  maxDigits < text.toList.countP Text.isDecimal

/-! ## 3. Shapes -/

/-- Bracketed tests of a file. -/
def fileTest : Pattern :=
  .ofKnownText "^\\s*(\\[|\\[\\[)\\s*-[fderwxs]\\s+.+\\s*(\\]|\\]\\])\\s*$"

/-- Bracketed tests of a text for being empty or not. -/
def stringTest : Pattern :=
  .ofKnownText "^\\s*(\\[|\\[\\[)\\s*(-z|-n)\\s+.+\\s*(\\]|\\]\\])\\s*$"

end Expression

/-- The shape of an expression. -/
inductive ExpressionKind where
  | exitCode
  | fileTest
  | stringTest
  | shell
deriving DecidableEq, Repr

/-- The word for a shape. -/
def ExpressionKind.name : ExpressionKind → String
  | .exitCode => "exit_code"
  | .fileTest => "file_test"
  | .stringTest => "string_test"
  | .shell => "shell"

/-- The shape of a text whose variables have been substituted. -/
def Expression.classify (text : String) : ExpressionKind :=
  if (exitCodeCheck? text).isSome then .exitCode
  else if fileTest.matchesStart text.toList then .fileTest
  else if stringTest.matchesStart text.toList then .stringTest
  else .shell

/-! ## 4. Errors -/

/-- Why an expression has no outcome: an exit code is asked for before any command has run, or the
shell that was asked could not answer. -/
inductive ExpressionError where
  | missingResult
  | undecided (reason : String)
deriving DecidableEq, Repr

/-- The wording of an error. -/
def ExpressionError.message : ExpressionError → String
  | .missingResult => "No previous command output available for $? evaluation"
  | .undecided reason => reason

end Runbook
