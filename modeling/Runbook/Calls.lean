import Runbook.Text.Basic
import Runbook.Workflow

/-!
# Calls between workflows

A command calls a workflow by a fixed run of words and then the workflow's name, with blanks
between:

* `callAt`: a call at the start of a text;
* `callsInText`: the names called in a text;
* `sortedNames`: names in the order of their code points, each once;
* `calledNames`: the names called by the commands of a step tree.
-/

namespace Runbook

namespace Calls

/-- The characters of a workflow's name in a call. -/
def isNameChar (c : Char) : Bool :=
  Text.isWordChar c || c == '-'

/-- The given words with blanks between them, and blanks behind the last. -/
def skipWords? : List (List Char) → List Char → Option (List Char)
  | [], s => Text.skipBlanks? s
  | [w], s => (Text.dropStart? w s).bind Text.skipBlanks?
  | w :: ws, s => ((Text.dropStart? w s).bind Text.skipBlanks?).bind (skipWords? ws)

/-- A call at the start of a text: the name, and how many characters of `rest` belong to it. -/
def callAt (words : List (List Char)) (c : Char) (rest : List Char) : Option (String × Nat) :=
  match skipWords? words (c :: rest) with
  | none => none
  | some s =>
    match s.takeWhile isNameChar with
    | [] => none
    | name => some (String.ofList name, rest.length - (s.dropWhile isNameChar).length)

/-- The names called in a text, from left to right. -/
def inText (words : List (List Char)) (text : String) : List String :=
  Text.tokens (Text.pieces (callAt words) text.toList)

/-- The names in order, each once. -/
def sortedNames (names : List String) : List String :=
  (distinct names).mergeSort fun a b => decide (a ≤ b)

/-- The names that the commands of a step tree call, in order, each once. -/
def ofSteps (words : List (List Char)) (steps : List Step) : List String :=
  sortedNames ((Step.walkBlock steps).flatMap fun s => inText words s.commandText)

/-- The words of a call prefix. -/
def wordsOfPrefix (callPrefix : String) : List (List Char) :=
  Text.wordsOf callPrefix.toList

end Calls

end Runbook
