import Runbook.Yaml.Token.Text

/-!
# Tokens of a document

`Token` is what a document is cut into before its structure is known. The starts and ends of block
collections are tokens of their own, read off the indentation. The text of a scalar is kept as code
points, since escapes may name halves of pairs.
-/

namespace Runbook.Yaml

/-- A tag as it is written: a handle, if it has one, and what follows it. -/
structure TagText where
  handle : Option String
  suffix : String
deriving DecidableEq, Repr

/-- A line of instructions in front of a document. -/
inductive Directive where
  | version (major minor : Nat)
  | handle (name value : String)
  | other
deriving DecidableEq, Repr

/-- A part of a document. -/
inductive Token where
  | directive (d : Directive)
  | documentStart
  | documentEnd
  | blockSequenceStart
  | blockMappingStart
  | blockEnd
  | flowSequenceStart
  | flowSequenceEnd
  | flowMappingStart
  | flowMappingEnd
  | blockEntry
  | flowEntry
  | key
  | value
  | alias (name : String)
  | anchor (name : String)
  | tag (t : TagText)
  | scalar (codes : List Nat) (isPlain : Bool)
deriving DecidableEq, Repr

end Runbook.Yaml
