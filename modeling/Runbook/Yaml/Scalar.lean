import Runbook.Yaml.Node
import Runbook.Yaml.Scalar.Base64
import Runbook.Yaml.Scalar.Moment
import Runbook.Yaml.Scalar.Number

/-!
# Scalars and their types

* `plainTag`: the tag of a plain scalar without one, by its text;
* `scalarTag`, `collectionTag`: the tag of a node;
* `scalarOf?`: the value of a text under a tag for scalars.
-/

namespace Runbook.Yaml

/-! ## 1. Tags of plain scalars -/

/-- The words for a truth value. -/
def truthWords : List (String × Bool) :=
  [("yes", true), ("no", false), ("true", true), ("false", false), ("on", true), ("off", false)]

/-- A word, with its first letter or all letters as capitals. -/
def casesOf (word : String) : List (List Char) :=
  match word.toList with
  | [] => [[]]
  | c :: rest => [c :: rest, c.toUpper :: rest, (c :: rest).map Char.toUpper]

/-- Whether a text is one of the words in lower case, capitalised or in capitals. -/
def isWordOf (words : List String) (s : List Char) : Bool :=
  words.any fun word => (casesOf word).contains s

/-- The tag of a plain scalar without one. A line feed at the end of a text does not count. -/
def plainTag (text : List Char) : String :=
  let s := if text.length = 1 then text else Text.withoutLastBreak text
  if isWordOf (truthWords.map (·.1)) s then coreTag "bool"
  else if isReal s then coreTag "float"
  else if isWhole s then coreTag "int"
  else if s = "<<".toList then coreTag "merge"
  else if s.isEmpty || s = ['~'] || isWordOf ["null"] s then coreTag "null"
  else if isMoment s then coreTag "timestamp"
  else if s = ['='] then coreTag "value"
  else coreTag "str"

/-- The tag of a scalar. A single exclamation mark stands for the tag that its text would have if it
were plain. -/
def scalarTag (tag : Option String) (isPlain : Bool) (text : List Char) : String :=
  match tag with
  | none => if isPlain then plainTag text else coreTag "str"
  | some tag => if tag = "!" then plainTag text else tag

/-- The tag of a collection; one without a tag has the standard one of its kind. -/
def collectionTag (standard : String) (tag : Option String) : String :=
  match tag with
  | none => coreTag standard
  | some tag => if tag = "!" then coreTag standard else tag

/-! ## 2. Values -/

/-- The truth value of a word in letters of either case. -/
def truthOf (s : List Char) : Except Problem Bool :=
  let word := String.ofList (s.flatMap Text.lowerCase)
  match truthWords.find? fun entry => entry.1 = word with
  | some (_, b) => .ok b
  | none => .error .notTruthValue

/-- The tags that make a scalar of a text. -/
def scalarTags : List String :=
  ["str", "null", "bool", "int", "float", "timestamp", "binary"].map coreTag

/-- The value of a text under a tag, if the tag is one for scalars. -/
def scalarOf? (tag : String) (codes : List Nat) : Option (Except Problem Scalar) :=
  let text := Text.charsOf codes
  if tag = coreTag "str" then some (.ok (.ofCodes codes))
  else if tag = coreTag "null" then some (.ok .null)
  else if tag = coreTag "bool" then some ((truthOf text).map .bool)
  else if tag = coreTag "int" then some ((wholeOf text).map .int)
  else if tag = coreTag "float" then some ((realOf text).map .real)
  else if tag = coreTag "timestamp" then some (momentOf text)
  else if tag = coreTag "binary" then some ((bytesOf text).map .bytes)
  else none

end Runbook.Yaml
