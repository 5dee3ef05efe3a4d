import Runbook.Number.Written
import Runbook.Value

/-!
# Reading a JSON document

One document as a `Value`, or the first place at which the text stops being one:

* `Json.Problem`, `Json.Fault`: what was wrong and where, counted in characters;
* `Json.readString`: the rest of a string behind its opening quote;
* `Json.readNumber?`: a number in its longest reading;
* `Json.read`: a whole document.

Besides the grammar of RFC 8259 the words `NaN`, `Infinity` and `-Infinity` are numbers. A key that
comes twice has its last value.
-/

namespace Runbook.Json

/-! ## 1. Faults -/

/-- What can be wrong with a document. -/
inductive Problem where
  | missingValue
  | missingName
  | missingColon
  | missingComma
  | extraData
  | openString
  | controlCharacter
  | badEscape
  | badUnicodeEscape
  | byteOrderMark
  | tooDeep
  | tooManyDigits
deriving DecidableEq, Repr

/-- The wording of a problem. -/
def Problem.message : Problem → String
  | .missingValue => "Expecting value"
  | .missingName => "Expecting property name enclosed in double quotes"
  | .missingColon => "Expecting ':' delimiter"
  | .missingComma => "Expecting ',' delimiter"
  | .extraData => "Extra data"
  | .openString => "Unterminated string starting at"
  | .controlCharacter => "Invalid control character at"
  | .badEscape => "Invalid \\escape"
  | .badUnicodeEscape => "Invalid \\uXXXX escape"
  | .byteOrderMark => "Unexpected UTF-8 BOM (decode using utf-8-sig)"
  | .tooDeep => "Too many brackets are open"
  | .tooManyDigits => "Too many digits in a whole number"

/-- Whether the text is no document, as opposed to one that cannot be taken in. -/
def Problem.isMalformed : Problem → Bool
  | .tooDeep => false
  | .tooManyDigits => false
  | _ => true

/-- A problem at a place: how many characters stand before it. -/
structure Fault where
  problem : Problem
  offset : Nat
deriving DecidableEq, Repr

/-- The line of an offset, counted from 1. -/
def lineAt (text : List Char) (offset : Nat) : Nat :=
  Text.countOf '\n' (text.take offset) + 1

/-- The column of an offset, counted from 1. -/
def columnAt (text : List Char) (offset : Nat) : Nat :=
  ((text.take offset).reverse.takeWhile (· != '\n')).length + 1

/-- The wording of a fault in a text: the problem, its line, column and offset. -/
def Fault.message (fault : Fault) (text : List Char) : String :=
  fault.problem.message ++ ": line " ++ toString (lineAt text fault.offset) ++ " column " ++
    toString (columnAt text fault.offset) ++ " (char " ++ toString fault.offset ++ ")"

/-! ## 2. The reader's place in the text -/

/-- What is still to be read, and how many characters stand before it. -/
structure Place where
  offset : Nat
  rest : List Char
deriving Repr

/-- White space between tokens. -/
def isSpace (c : Char) : Bool :=
  c == ' ' || c == '\t' || c == '\n' || c == '\r'

/-- The place of the next token. -/
def Place.skipSpace (p : Place) : Place :=
  let space := p.rest.takeWhile isSpace
  ⟨p.offset + space.length, p.rest.dropWhile isSpace⟩

/-- A fault at the place. -/
def Place.fail {α : Type} (p : Place) (problem : Problem) : Except Fault α :=
  .error ⟨problem, p.offset⟩

/-! ## 3. Strings -/

/-- The value of four hexadecimal digits. -/
def hexValue4? (a b c d : Char) : Option Nat := do
  let high := (← Text.hexValue? a) * 16 + (← Text.hexValue? b)
  let low := (← Text.hexValue? c) * 16 + (← Text.hexValue? d)
  return high * 256 + low

/-- The character of a one-letter escape. -/
def escaped? : Char → Option Char
  | '"' => some '"'
  | '\\' => some '\\'
  | '/' => some '/'
  | 'b' => some (Char.ofNat 8)
  | 'f' => some (Char.ofNat 12)
  | 'n' => some '\n'
  | 'r' => some '\r'
  | 't' => some '\t'
  | _ => none

/-- Puts a code point in front of what was read. -/
def push (code : Nat) (r : Except Fault (List Nat × Place)) : Except Fault (List Nat × Place) :=
  r.map fun (codes, p) => (code :: codes, p)

/-- What follows the first half of a pair. -/
inductive SecondHalf where
  | absent
  | malformed
  | half (unit : Nat)

/-- The second half of a pair, looked for behind a first half only. -/
def secondHalf (high : Nat) (rest : List Char) : SecondHalf :=
  match rest with
  | '\\' :: 'u' :: a :: b :: c :: d :: _ :: _ =>
    if Text.isHighHalf high then
      match hexValue4? a b c d with
      | none => .malformed
      | some low => if Text.isLowHalf low then .half low else .absent
    else .absent
  | _ => .absent

/-- The code points of the rest of a string that was opened at offset `start`. A four-digit escape
needs a further character behind it; the second escape of a pair is read only where one more
character follows. -/
def readString (start : Nat) : Nat → List Char → Except Fault (List Nat × Place)
  | _, [] => .error ⟨.openString, start⟩
  | n, '"' :: rest => .ok ([], ⟨n + 1, rest⟩)
  | n, '\\' :: 'u' :: a :: b :: c :: d :: rest =>
    match hexValue4? a b c d, rest.isEmpty with
    | some high, false =>
      match secondHalf high rest with
      | .malformed => .error ⟨.badUnicodeEscape, n + 7⟩
      | .half low =>
        match rest with
        | _ :: _ :: _ :: _ :: _ :: _ :: rest =>
          push (Text.pairChar high low).toNat (readString start (n + 12) rest)
        | _ => .error ⟨.openString, start⟩
      | .absent => push high (readString start (n + 6) rest)
    | _, _ => .error ⟨.badUnicodeEscape, n + 1⟩
  | n, '\\' :: 'u' :: _ => .error ⟨.badUnicodeEscape, n + 1⟩
  | n, '\\' :: c :: rest =>
    match escaped? c with
    | some c => push c.toNat (readString start (n + 2) rest)
    | none => .error ⟨.badEscape, n⟩
  | _, ['\\'] => .error ⟨.openString, start⟩
  | n, c :: rest =>
    if c.toNat < 32 then .error ⟨.controlCharacter, n⟩
    else push c.toNat (readString start (n + 1) rest)

/-! ## 4. Numbers and words -/

/-- The value of a run of decimal digits. -/
def digitsValue (digits : List Char) : Nat :=
  digits.foldl (fun n c => 10 * n + (c.toNat - '0'.toNat)) 0

/-- The digits behind a point, if there are any; the point and the digits belong together. -/
def readFraction (s : List Char) : List Char × List Char :=
  match s with
  | '.' :: rest =>
    let digits := rest.takeWhile Char.isDigit
    if digits.isEmpty then ([], s) else (digits, rest.dropWhile Char.isDigit)
  | _ => ([], s)

/-- The exponent, if one with a digit follows. -/
def readExponent? (s : List Char) : Option (Int × List Char) :=
  match s with
  | e :: rest =>
    if e == 'e' || e == 'E' then
      let (negative, rest) := match rest with
        | '-' :: r => (true, r)
        | '+' :: r => (false, r)
        | r => (false, r)
      let digits := rest.takeWhile Char.isDigit
      if digits.isEmpty then none
      else
        let n : Int := digitsValue digits
        some (if negative then -n else n, rest.dropWhile Char.isDigit)
    else none
  | [] => none

/-- The digits in front of a point or an exponent. Nothing follows a zero there. -/
def wholeDigits (s : List Char) : List Char :=
  match s with
  | '0' :: _ => ['0']
  | _ => s.takeWhile Char.isDigit

/-- A number behind its sign in its longest reading; it is whole if it has neither fraction nor
exponent. -/
def readUnsigned? (negative : Bool) (s : List Char) : Option (Scalar × List Char) :=
  let whole := wholeDigits s
  if whole.isEmpty then none
  else
    let (fraction, rest) := readFraction (s.drop whole.length)
    match readExponent? rest with
    | some (e, rest) =>
      some (.real (.ofDecimal negative (digitsValue (whole ++ fraction)) (e - fraction.length)),
        rest)
    | none =>
      if fraction.isEmpty then
        let n : Int := digitsValue whole
        some (.int (if negative then -n else n), rest)
      else
        some (.real (.ofDecimal negative (digitsValue (whole ++ fraction)) (-fraction.length)),
          rest)

/-- A number in its longest reading. -/
def readNumber? (s : List Char) : Option (Scalar × List Char) :=
  match s with
  | '-' :: rest => readUnsigned? true rest
  | _ => readUnsigned? false s

/-- The words that are values. -/
def words : List (List Char × Scalar) :=
  [("null".toList, .null), ("true".toList, .bool true), ("false".toList, .bool false),
   ("NaN".toList, .real .notANumber), ("Infinity".toList, .real (.infinite false)),
   ("-Infinity".toList, .real (.infinite true))]

/-- A word or number, and what follows it. -/
def readScalar? (s : List Char) : Option (Scalar × List Char) :=
  let word := words.findSome? fun entry =>
    (Text.dropStart? entry.1 s).map fun rest => (entry.2, rest)
  match word with
  | some r => some r
  | none => readNumber? s

/-- Whether a scalar is a whole number that takes too many digits. -/
def hasTooManyDigits : Scalar → Bool
  | .int n => Nat.pow 10 maxDigits ≤ n.natAbs
  | _ => false

/-! ## 5. Documents -/

/-- How many brackets may be open at a time. -/
def maxDepth : Nat := 990

mutual

/-- A value at the place, inside `depth` brackets; every call spends one unit of `fuel`. -/
def readValue (depth : Nat) : Nat → Place → Except Fault (Value × Place)
  | 0, p => p.fail .missingValue
  | fuel + 1, p =>
    match p.rest with
    | '"' :: rest => do
      let (codes, p) ← readString p.offset (p.offset + 1) rest
      return (.scalar (.ofCodes codes), p)
    | '[' :: rest =>
      if maxDepth ≤ depth then p.fail .tooDeep
      else
        let p := Place.skipSpace ⟨p.offset + 1, rest⟩
        match p.rest with
        | ']' :: rest => .ok (.list [], ⟨p.offset + 1, rest⟩)
        | _ => do
          let (items, p) ← readItems (depth + 1) fuel p
          return (.list items, p)
    | '\x7b' :: rest =>
      if maxDepth ≤ depth then p.fail .tooDeep
      else
        let p := Place.skipSpace ⟨p.offset + 1, rest⟩
        match p.rest with
        | '\x7d' :: rest => .ok (.map [], ⟨p.offset + 1, rest⟩)
        | _ => do
          let (fields, p) ← readFields (depth + 1) fuel p []
          return (.map fields, p)
    | s =>
      match readScalar? s with
      | some (v, rest) =>
        if hasTooManyDigits v then p.fail .tooManyDigits
        else .ok (.scalar v, ⟨p.offset + (s.length - rest.length), rest⟩)
      | none => p.fail .missingValue

/-- The items of a list up to its closing bracket. -/
def readItems (depth : Nat) : Nat → Place → Except Fault (List Value × Place)
  | 0, p => p.fail .missingValue
  | fuel + 1, p => do
    let (item, p) ← readValue depth fuel p
    let p := p.skipSpace
    match p.rest with
    | ']' :: rest => return ([item], ⟨p.offset + 1, rest⟩)
    | ',' :: rest =>
      let (items, p) ← readItems depth fuel (Place.skipSpace ⟨p.offset + 1, rest⟩)
      return (item :: items, p)
    | _ => p.fail .missingComma

/-- The entries of a map up to its closing brace, put to those read so far. -/
def readFields (depth : Nat) : Nat → Place → List (Scalar × Value) →
    Except Fault (List (Scalar × Value) × Place)
  | 0, p, _ => p.fail .missingName
  | fuel + 1, p, fields =>
    match p.rest with
    | '"' :: rest => do
      let (name, p) ← readString p.offset (p.offset + 1) rest
      let p := p.skipSpace
      match p.rest with
      | ':' :: rest =>
        let (value, p) ← readValue depth fuel (Place.skipSpace ⟨p.offset + 1, rest⟩)
        let fields := Value.putField (.ofCodes name) value fields
        let p := p.skipSpace
        match p.rest with
        | '\x7d' :: rest => return (fields, ⟨p.offset + 1, rest⟩)
        | ',' :: rest => readFields depth fuel (Place.skipSpace ⟨p.offset + 1, rest⟩) fields
        | _ => p.fail .missingComma
      | _ => p.fail .missingColon
    | _ => p.fail .missingName

end

/-- A whole document: a value with nothing but white space around it. Two units of fuel for each
character are enough, since of two nested calls at least one reads a character. -/
def read (text : List Char) : Except Fault Value :=
  if text.head? = some (Char.ofNat 0xFEFF) then .error ⟨.byteOrderMark, 0⟩
  else do
    let (value, p) ← readValue 0 (2 * text.length + 2) (Place.skipSpace ⟨0, text⟩)
    let p := p.skipSpace
    if p.rest.isEmpty then return value else p.fail .extraData

end Runbook.Json
