import Runbook.Number.Shortest
import Runbook.Value

/-!
# Writing a JSON document

The text of a `Value` without white space. Characters beyond ASCII are written as escapes, those
beyond U+FFFF as a pair. Keys that are no texts are written as the texts they are shown as.

* `Json.writeString`: a text between quotes;
* `Json.write`: a value.
-/

namespace Runbook.Json

/-- Four hexadecimal digits. -/
def hex4 (n : Nat) : List Char :=
  [n / 0x1000 % 16, n / 0x100 % 16, n / 0x10 % 16, n % 16].map Nat.digitChar

/-- One character of a string. -/
def writeChar (c : Char) : List Char :=
  let n := c.toNat
  if c = '"' then ['\\', '"']
  else if c = '\\' then ['\\', '\\']
  else if 32 ≤ n ∧ n < 127 then [c]
  else if n < 0x10000 then '\\' :: 'u' :: hex4 n
  else
    '\\' :: 'u' :: hex4 (0xD800 + (n - 0x10000) / 0x400) ++
      '\\' :: 'u' :: hex4 (0xDC00 + (n - 0x10000) % 0x400)

/-- A text between quotes. -/
def writeString (s : String) : String :=
  String.ofList ('"' :: s.toList.flatMap writeChar ++ ['"'])

/-- A scalar. -/
def writeScalar : Scalar → String
  | .null => "null"
  | .bool b => if b then "true" else "false"
  | .int i => toString i
  | .real .notANumber => "NaN"
  | .real (.infinite negative) => if negative then "-Infinity" else "Infinity"
  | .real x => x.text
  | .text s => writeString s
  | .brokenText codes => writeString (String.ofList (Text.charsOf codes))
  | .date y m d => writeString s!"{y}-{m}-{d}"
  | .moment t => writeString s!"{t.year}-{t.month}-{t.day} {t.hour}:{t.minute}:{t.second}"
  | .bytes data => writeString (String.ofList (data.map fun b => Char.ofNat b.toNat))

/-- A key. -/
def writeKey (k : Scalar) : String :=
  match k with
  | .text s => writeString s
  | .brokenText _ => writeScalar k
  | .date .. => writeScalar k
  | .moment .. => writeScalar k
  | .bytes .. => writeScalar k
  | k => writeString (writeScalar k)

mutual

/-- The text of a value. -/
def write : Value → String
  | .scalar s => writeScalar s
  | .list items => "[" ++ Text.joinWith "," (writeItems items) ++ "]"
  | .set members => "[" ++ Text.joinWith "," (members.map writeScalar) ++ "]"
  | .map fields => "\x7b" ++ Text.joinWith "," (writeFields fields) ++ "\x7d"

/-- The texts of the items of a list. -/
def writeItems : List Value → List String
  | [] => []
  | v :: rest => write v :: writeItems rest

/-- The texts of the entries of a map. -/
def writeFields : List (Scalar × Value) → List String
  | [] => []
  | (k, v) :: rest => (writeKey k ++ ":" ++ write v) :: writeFields rest

end

end Runbook.Json
