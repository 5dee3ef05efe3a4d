import Runbook.Number.Shortest
import Runbook.Value

/-!
# How a value is shown in a message

* `quoted`: a text between quotes, single ones unless it holds only single ones, with everything
  that has no printed form written as an escape;
* `Scalar.shown`, `Value.shown`: a value as a part of another one, texts quoted;
* `Value.display`: a value on its own, a text without quotes.
-/

namespace Runbook

/-- A number in hexadecimal digits, with zeros in front up to the given width. -/
def hexText (width n : Nat) : List Char :=
  let digits := Nat.toDigits 16 n
  List.replicate (width - digits.length) '0' ++ digits

/-- A number in decimal digits, with zeros in front up to the given width. -/
def paddedText (width n : Nat) : List Char :=
  let digits := Nat.toDigits 10 n
  List.replicate (width - digits.length) '0' ++ digits

/-- One character between quotes of the given kind. -/
def quotedChar (quote c : Char) : List Char :=
  if c = quote ∨ c = '\\' then ['\\', c]
  else if c = '\n' then ['\\', 'n']
  else if c = '\r' then ['\\', 'r']
  else if c = '\t' then ['\\', 't']
  else if Text.isPrintable c then [c]
  else if c.toNat < 0x100 then '\\' :: 'x' :: hexText 2 c.toNat
  else if c.toNat < 0x10000 then '\\' :: 'u' :: hexText 4 c.toNat
  else '\\' :: 'U' :: hexText 8 c.toNat

/-- One code point between quotes of the given kind; half a pair has no printed form. -/
def quotedCode (quote : Char) (n : Nat) : List Char :=
  if Text.isHalf n then '\\' :: 'u' :: hexText 4 n else quotedChar quote (Char.ofNat n)

/-- The quote around a text: a double one if it holds single quotes and no double ones. -/
def quoteFor (cs : List Char) : Char :=
  if cs.contains '\'' && !cs.contains '"' then '"' else '\''

/-- A text between quotes. -/
def quoted (s : String) : String :=
  let cs := s.toList
  let quote := quoteFor cs
  String.ofList (quote :: cs.flatMap (quotedChar quote) ++ [quote])

/-- Code points between quotes. -/
def quotedCodes (codes : List Nat) : String :=
  let quote := quoteFor (Text.charsOf codes)
  String.ofList (quote :: codes.flatMap (quotedCode quote) ++ [quote])

/-- Bytes between quotes, marked by a letter in front. -/
def quotedBytes (data : List UInt8) : String :=
  let cs := data.map fun b => Char.ofNat b.toNat
  let quote := quoteFor cs
  let one (c : Char) : List Char :=
    if c.toNat < 128 then quotedChar quote c else '\\' :: 'x' :: hexText 2 c.toNat
  String.ofList ('b' :: quote :: cs.flatMap one ++ [quote])

/-- A date as year, month and day. -/
def dateText (year month day : Nat) : String :=
  String.ofList (paddedText 4 year ++ '-' :: paddedText 2 month ++ '-' :: paddedText 2 day)

/-- A moment as date, time of day and distance from universal time. -/
def Moment.text (t : Moment) : String :=
  let clock := paddedText 2 t.hour ++ ':' :: paddedText 2 t.minute ++ ':' :: paddedText 2 t.second
  let fraction := if t.microsecond = 0 then [] else '.' :: paddedText 6 t.microsecond
  let zone := match t.zone with
    | none => []
    | some m =>
      (if m < 0 then '-' else '+') :: paddedText 2 (m.natAbs / 60) ++ ':' ::
        paddedText 2 (m.natAbs % 60)
  dateText t.year t.month t.day ++ " " ++ String.ofList (clock ++ fraction ++ zone)

/-- A moment as the call that makes it, as it is shown inside other values. -/
def Moment.shown (t : Moment) : String :=
  let second := if t.second = 0 ∧ t.microsecond = 0 then [] else [toString t.second]
  let micro := if t.microsecond = 0 then [] else [toString t.microsecond]
  let zone := match t.zone with
    | none => []
    | some m =>
      if m = 0 then ["tzinfo=datetime.timezone.utc"]
      else
        let days := Int.fdiv m 1440
        let seconds := (m - days * 1440) * 60
        let parts := (if days = 0 then [] else ["days=" ++ toString days]) ++
          (if seconds = 0 then [] else ["seconds=" ++ toString seconds])
        ["tzinfo=datetime.timezone(datetime.timedelta(" ++ Text.joinWith ", " parts ++ "))"]
  let parts := [t.year, t.month, t.day, t.hour, t.minute].map toString
  "datetime.datetime(" ++ Text.joinWith ", " (parts ++ second ++ micro ++ zone) ++ ")"

/-- A scalar as it is shown inside other values. -/
def Scalar.shown : Scalar → String
  | .null => "None"
  | .bool true => "True"
  | .bool false => "False"
  | .int i => toString i
  | .real x => x.text
  | .text s => quoted s
  | .brokenText codes => quotedCodes codes
  | .date y m d => "datetime.date(" ++ Text.joinWith ", " ([y, m, d].map toString) ++ ")"
  | .moment t => t.shown
  | .bytes data => quotedBytes data

/-- The members of a set in the order in which they are shown: whole numbers by size, else as they
were put. -/
def shownOrder (members : List Scalar) : List Scalar :=
  match members.mapM fun s => match s with
    | .int i => some i
    | _ => none with
  | some numbers => (numbers.mergeSort fun a b => decide (a ≤ b)).map .int
  | none => members

/-- A set as it is shown; an empty one has no braces. -/
def shownSet (members : List Scalar) : String :=
  if members.isEmpty then "set()"
  else "\x7b" ++ Text.joinWith ", " ((shownOrder members).map Scalar.shown) ++ "\x7d"

namespace Value

mutual

/-- A value as it is shown inside other values. -/
def shown : Value → String
  | .scalar s => s.shown
  | .list items => "[" ++ Text.joinWith ", " (shownItems items) ++ "]"
  | .set members => shownSet members
  | .map fields => "\x7b" ++ Text.joinWith ", " (shownFields fields) ++ "\x7d"

/-- The texts of the items of a list. -/
def shownItems : List Value → List String
  | [] => []
  | v :: rest => shown v :: shownItems rest

/-- The texts of the entries of a map. -/
def shownFields : List (Scalar × Value) → List String
  | [] => []
  | (k, v) :: rest => (k.shown ++ ": " ++ shown v) :: shownFields rest

end

/-- A value on its own: texts, dates and moments without their inner form. -/
def display : Value → String
  | .scalar (.text s) => s
  | .scalar (.brokenText codes) => String.ofList (Text.charsOf codes)
  | .scalar (.date y m d) => dateText y m d
  | .scalar (.moment t) => t.text
  | v => v.shown

end Value

end Runbook
