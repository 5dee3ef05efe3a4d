import Runbook.Assoc
import Runbook.Step.Walk
import Runbook.Text.Basic

/-!
# Templates

A text may hold placeholders: a name between double braces, blanks around it allowed. Resolving a
text puts in the values of the bound names and leaves all else as written:

* `Context`: the values that names are bound to;
* `placeholderAt`: a placeholder at the start of a text;
* `placeholders`, `placeholderNames`: the text cut at its placeholders, and their names;
* `resolve`: the text with the bound placeholders replaced, each exactly once.
-/

namespace Runbook

/-- The values that names are bound to. -/
abbrev Context := Assoc String String

namespace Template

/-- A placeholder that starts with `c`: its name, and how many characters of `rest` belong to it.
The name, blanks and closing braces are told apart by their characters, so that each part is as long
as it can be. -/
def placeholderAt (c : Char) (rest : List Char) : Option (String × Nat) :=
  match c, rest with
  | '\x7b', '\x7b' :: body =>
    let inner := body.dropWhile Text.isBlank
    let name := inner.takeWhile Text.isWordChar
    let tail := (inner.dropWhile Text.isWordChar).dropWhile Text.isBlank
    match name, tail with
    | [], _ => none
    | _ :: _, '\x7d' :: '\x7d' :: after =>
      some (String.ofList name, rest.length - after.length)
    | _, _ => none
  | _, _ => none

/-- The text cut at its placeholders. -/
def placeholders (text : String) : List (Text.Piece String) :=
  Text.pieces placeholderAt text.toList

/-- The names of the placeholders of a text, each once, in the order of their first appearance. -/
def placeholderNames (text : String) : List String :=
  distinct (Text.tokens (placeholders text))

/-- What a piece of a text becomes: a placeholder whose name is bound becomes the value. -/
def resolvePiece (context : Context) : Text.Piece String → List Char
  | .plain c => [c]
  | .token name source =>
    match context.get? name with
    | some value => value.toList
    | none => source

/-- The text with every placeholder whose name is bound replaced by the value. -/
def resolve (context : Context) (text : String) : String :=
  String.ofList ((placeholders text).flatMap (resolvePiece context))

end Template

end Runbook
