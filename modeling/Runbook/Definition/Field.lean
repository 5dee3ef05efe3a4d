import Runbook.Definition.Fault
import Runbook.Number.Written

/-!
# Fields of a definition

The leaves of a definition and how a field of a map is looked at:

* `readText`, `readWhole`, `readTruth`: a text, a whole number, a truth value;
* `plainWhole?`, `signedWhole?`: whole numbers written as text;
* `required`, `optional`, `nullable`: fields that must be there, that have a default, that may be
  null;
* `readMapOf`, `readListOf`: maps and lists with one check for every entry.
-/

namespace Runbook.Definition

/-! ## 1. Whole numbers written as text -/

/-- A text without the plus in front of its digits. -/
def withoutPlus : List Char → List Char
  | '+' :: c :: rest => if c.isDigit then c :: rest else '+' :: c :: rest
  | s => s

/-- A text without the zeros in front, among which underscores may stand. Of them the last character
is kept if a point or nothing follows. -/
def withoutLeadingZeros? (s : List Char) : Option (List Char) :=
  match s with
  | '0' :: _ =>
    let zeros := s.takeWhile fun c => c == '0' || c == '_'
    let last := zeros.drop (zeros.length - 1)
    match s.drop zeros.length with
    | [] => some last
    | '.' :: rest => some (last ++ '.' :: rest)
    | c :: rest => if c.isDigit then some (c :: rest) else none
  | _ => some s

/-- The text before a point behind which zeros stand and nothing else. -/
def withoutZeroFraction (s : List Char) : List Char :=
  match s.dropWhile (· != '.') with
  | '.' :: c :: zeros => if (c :: zeros).all (· == '0') then s.takeWhile (· != '.') else s
  | _ => s

/-- A text without the underscores inside it, of which no two may stand side by side. -/
def ungrouped? (s : List Char) : Option (List Char) :=
  if s.head? = some '_' ∨ s.getLast? = some '_' ∨ Text.occursIn ['_', '_'] s then none
  else some (s.filter (· != '_'))

/-- The number of digits with no zero in front of others. -/
def magnitude? : List Char → Option Nat
  | [] => none
  | ['0'] => some 0
  | '0' :: _ => none
  | digits =>
    if digits.all Char.isDigit then
      some (digits.foldl (fun n d => 10 * n + (d.toNat - '0'.toNat)) 0)
    else none

/-- A text brought to a minus or none and digits, if it writes a whole number: blanks around it, a
plus, zeros in front, a fraction of zeros and underscores are dropped. Zeros behind a minus stay. -/
def plainWhole? (s : List Char) : Option (List Char) :=
  (withoutLeadingZeros? (withoutPlus (trimNumber s))).bind fun s =>
    ungrouped? (withoutZeroFraction s)

/-- The whole number of a minus or none and digits. -/
def signedWhole? : List Char → Option Int
  | '-' :: digits => (magnitude? digits).map fun n => -(n : Int)
  | digits => (magnitude? digits).map fun n => (n : Int)

/-- How many characters a whole number may have without what is dropped of it. -/
def maxWholeLength : Nat := 4300

/-! ## 2. Leaves -/

/-- The text that bytes write in UTF-8. -/
def textOfBytes? (data : List UInt8) : Option String :=
  String.fromUTF8? ⟨data.toArray⟩

/-- A text, also one given by its bytes. -/
def readTextScalar : Scalar → Checked String
  | .text s => .valid s
  | .bytes data =>
    match textOfBytes? data with
    | some s => .valid s
    | none => .fault .unreadableText
  | .brokenText _ => .fault .unreadableText
  | _ => .fault .notText

/-- A text. -/
def readText : Value → Checked String
  | .scalar s => readTextScalar s
  | _ => .fault .notText

/-- Whole numbers beyond this magnitude, two to the power of 63, are not taken from fractional
numbers. -/
def wordLimit : Int := 9223372036854775808

/-- The whole number of a fractional one, within the limit. -/
def wholeOfReal (x : Double) : Checked Int :=
  match x with
  | .infinite _ => .fault .notFinite
  | .notANumber => .fault .notFinite
  | .finite .. =>
    match x.toInt? with
    | none => .fault .fractional
    | some i => if -wordLimit < i ∧ i < wordLimit then .valid i else .fault .tooLarge

/-- A whole number written as text. -/
def readWrittenWhole (s : String) : Checked Int :=
  match plainWhole? s.toList with
  | none => .fault .unreadableWhole
  | some s =>
    match signedWhole? s with
    | none => .fault .unreadableWhole
    | some i => if maxWholeLength < s.length then .fault .tooLarge else .valid i

/-- A whole number: also a truth value, a number without fraction, or a text that writes one. -/
def readWhole : Value → Checked Int
  | .scalar (.int i) => .valid i
  | .scalar (.bool b) => .valid (if b then 1 else 0)
  | .scalar (.real x) => wholeOfReal x
  | .scalar (.text s) => readWrittenWhole s
  | .scalar (.bytes data) =>
    match textOfBytes? data with
    | some s => readWrittenWhole s
    | none => .fault .unreadableWhole
  | .scalar (.brokenText _) => .fault .unreadableText
  | _ => .fault .notWhole

/-- The words for true. -/
def trueWords : List String := ["1", "on", "t", "true", "y", "yes"]

/-- The words for false. -/
def falseWords : List String := ["0", "off", "f", "false", "n", "no"]

/-- The truth value of a whole number. -/
def truthOfWhole (i : Int) : Checked Bool :=
  if i = 1 then .valid true
  else if i = 0 then .valid false
  else if -wordLimit ≤ i ∧ i < wordLimit then .fault .unclearTruth
  else .fault .notTruth

/-- A truth value as one of the words for it, in letters of any case. -/
def readTruthWord (s : String) : Checked Bool :=
  let word := String.ofList (s.toList.map Char.toLower)
  if word ∈ trueWords then .valid true
  else if word ∈ falseWords then .valid false
  else .fault .unclearTruth

/-- A truth value: also 0 or 1, or one of the words for them. -/
def readTruth : Value → Checked Bool
  | .scalar (.bool b) => .valid b
  | .scalar (.int i) => truthOfWhole i
  | .scalar (.real x) =>
    match wholeOfReal x with
    | .valid i => truthOfWhole i
    | .faulty _ => .fault .notTruth
  | .scalar (.text s) => readTruthWord s
  | .scalar (.bytes data) =>
    match textOfBytes? data with
    | some s => readTruthWord s
    | none => .fault .unclearTruth
  | .scalar (.brokenText _) => .fault .unreadableText
  | _ => .fault .notTruth

/-- The value if it is not null. -/
def readNullable {α : Type} (read : Value → Checked α) : Value → Checked (Option α)
  | .scalar .null => .valid none
  | v => (read v).map some

/-! ## 3. Lists and maps -/

/-- Every item checked, its faults under its position. -/
def readItems {α : Type} (read : Value → Checked α) : Nat → List Value → Checked (List α)
  | _, [] => .valid []
  | n, v :: rest =>
    Checked.both (· :: ·) ((read v).under (toString n)) (readItems read (n + 1) rest)

/-- A list with one check for every item; a set is read like the list of its members. -/
def readListOf {α : Type} (read : Value → Checked α) : Value → Checked (List α)
  | .list items => readItems read 0 items
  | .set members => readItems read 0 (members.map .scalar)
  | _ => .fault .notList

/-- A key as it is named in the place of a fault. -/
def keyText : Scalar → String
  | .text s => s
  | .brokenText codes => String.ofList (Text.charsOf codes)
  | .bool b => if b then "1" else "0"
  | k => k.shown

/-- A key of a map must be a text. -/
def readKey (k : Scalar) : Checked String :=
  ((readTextScalar k).under "[key]").under (keyText k)

/-- Every entry checked: its key, and its value under the key. -/
def readEntries {α : Type} (read : Value → Checked α) :
    List (Scalar × Value) → Checked (Assoc String α)
  | [] => .valid []
  | (k, v) :: rest =>
    Checked.both (· :: ·) (Checked.both Prod.mk (readKey k) ((read v).under (keyText k)))
      (readEntries read rest)

/-- A map with one check for every entry; of entries that come to one key the last one counts. -/
def readMapOf {α : Type} (read : Value → Checked α) : Value → Checked (Assoc String α)
  | .map fields => (readEntries read fields).map Assoc.ofPairs
  | _ => .fault .notMap

/-! ## 4. Fields -/

/-- The fields of a map, by their keys. -/
abbrev Fields := List (Scalar × Value)

/-- A field that must be there. -/
def required {α : Type} (fields : Fields) (name : String) (read : Value → Checked α) : Checked α :=
  match Value.lookup name fields with
  | some v => (read v).under name
  | none => (Checked.fault .missing).under name

/-- A field that has a default. -/
def optional {α : Type} (fields : Fields) (name : String) (standard : α)
    (read : Value → Checked α) : Checked α :=
  match Value.lookup name fields with
  | some v => (read v).under name
  | none => .valid standard

/-- A field that may be absent or null. -/
def nullable {α : Type} (fields : Fields) (name : String) (read : Value → Checked α) :
    Checked (Option α) :=
  optional fields name none (readNullable read)

/-- A map with known fields. -/
def readRecord {α : Type} (model : String) (read : Fields → Checked α) : Value → Checked α
  | .map fields => read fields
  | _ => .fault (.notRecord model)

end Runbook.Definition
