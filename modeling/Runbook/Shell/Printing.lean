import Runbook.Number.Double
import Runbook.Shell.State

/-!
# Printing in a shell

* `Conversion`: a place in a format that an argument is put in;
* `format`: the output of a format for arguments, and what was wrong with those;
* `echo`: the output of echo.
-/

namespace Runbook.Shell.Printing

/-! ## 1. Formats -/

/-- A conversion in a format. -/
structure Conversion where
  leftAligned : Bool
  zeroPadded : Bool
  plusSign : Bool
  width : Nat
  precision : Option Nat
  kind : Char

/-- A part of a format. -/
inductive Piece where
  | text (cs : Octets)
  | conversion (c : Conversion)

/-- A number at the start of a text, and what follows; none is zero. -/
def decimal (s : List Char) : Nat × List Char :=
  ((s.takeWhile Char.isDigit).foldl (fun n c => 10 * n + (c.toNat - '0'.toNat)) 0,
    s.dropWhile Char.isDigit)

/-- A conversion from behind its percent sign on. -/
def conversionAt? (s : List Char) : Option (Conversion × List Char) :=
  let isFlag (c : Char) : Bool := "-0+ #".toList.contains c
  let flags := s.takeWhile isFlag
  let (width, rest) := decimal (s.dropWhile isFlag)
  let (precision, rest) := match rest with
    | '.' :: rest =>
      let (n, rest) := decimal rest
      (some n, rest)
    | rest => (none, rest)
  match rest with
  | kind :: rest =>
    some (⟨flags.contains '-', flags.contains '0', flags.contains '+', width, precision, kind⟩,
      rest)
  | [] => none

/-- The parts of a format whose escapes have been read. -/
def piecesOf : Nat → List Char → List Piece
  | 0, _ => []
  | fuel + 1, s =>
    match s with
    | [] => []
    | '%' :: '%' :: rest => .text ['%'] :: piecesOf fuel rest
    | '%' :: rest =>
      match conversionAt? rest with
      | some (c, rest) => .conversion c :: piecesOf fuel rest
      | none => [.text ['%']]
    | c :: rest => .text [c] :: piecesOf fuel rest

/-- A text brought to a width. -/
def padded (c : Conversion) (s : Octets) : Octets :=
  let blanks := List.replicate (c.width - s.length) ' '
  if c.leftAligned then s ++ blanks else blanks ++ s

/-- A number brought to a width. -/
def paddedNumber (c : Conversion) (negative : Bool) (digits : Octets) : Octets :=
  let sign := if negative then ['-'] else if c.plusSign then ['+'] else []
  let digits := List.replicate (c.precision.getD 0 - digits.length) '0' ++ digits
  if c.zeroPadded && !c.leftAligned && c.precision.isNone then
    sign ++ List.replicate (c.width - sign.length - digits.length) '0' ++ digits
  else padded c (sign ++ digits)

/-- What is wrong with an argument that should be a number, or with a format. -/
inductive Problem where
  | notNumber (text : Octets)
  | notAllNumber (text : Octets)
  | badConversion (kind : Char)
deriving DecidableEq, Repr

/-- The wording of a problem. -/
def Problem.message (dialect : Dialect) : Problem → String
  | .notNumber text =>
    String.ofList text ++ match dialect with
      | .plain => ": expected numeric value"
      | .bash => ": invalid number"
  | .notAllNumber text =>
    String.ofList text ++ match dialect with
      | .plain => ": not completely converted"
      | .bash => ": invalid number"
  | .badConversion kind =>
    match dialect with
    | .plain => "%" ++ String.singleton kind ++ ": invalid directive"
    | .bash => "\x60" ++ String.singleton kind ++ "': invalid format character"

/-- The digits at the start of a text as a number, and what follows; a zero in front asks for base
eight, and an `x` behind it for base sixteen. -/
def magnitude (s : Octets) : Nat × Octets :=
  match s with
  | '0' :: 'x' :: rest =>
    ((rest.takeWhile fun d => (Text.hexValue? d).isSome).foldl
      (fun n d => 16 * n + (Text.hexValue? d).getD 0) 0,
      rest.dropWhile fun d => (Text.hexValue? d).isSome)
  | '0' :: rest => Escape.octal rest.length rest
  | s => decimal s

/-- The number of an argument; a quote in front of a character asks for the number of that. -/
def numberOf (s : Octets) : Int × Option Problem :=
  let judged (i : Int) (digits rest : Octets) : Int × Option Problem :=
    if s.isEmpty || (rest.isEmpty && !digits.isEmpty) then (i, none)
    else if rest.length = digits.length then (i, some (.notNumber s))
    else (i, some (.notAllNumber s))
  match Text.trimLeft s with
  | '"' :: c :: _ => (c.toNat, none)
  | '\'' :: c :: _ => (c.toNat, none)
  | '-' :: digits => judged (-((magnitude digits).1 : Int)) digits (magnitude digits).2
  | '+' :: digits => judged (magnitude digits).1 digits (magnitude digits).2
  | digits => judged (magnitude digits).1 digits (magnitude digits).2

/-- A number with a point at the start of a text, and what follows. -/
def pointed (s : Octets) : Double × Octets :=
  let whole := s.takeWhile Char.isDigit
  let rest := s.dropWhile Char.isDigit
  match rest with
  | '.' :: more =>
    let fraction := more.takeWhile Char.isDigit
    (Double.ofDecimal false (decimal (whole ++ fraction)).1 (-(fraction.length : Int)),
      more.dropWhile Char.isDigit)
  | rest => (Double.ofDecimal false (decimal whole).1 0, rest)

/-- A number with the given count of digits behind its point. -/
def fixedPlaces (places : Nat) (x : Double) : Octets :=
  match x with
  | .finite _ m e =>
    let (num, den) := Double.ratio m e
    let digits := Nat.toDigits 10 (Double.roundQuotient (num * Nat.pow 10 places) den)
    let digits := List.replicate (places + 1 - digits.length) '0' ++ digits
    let whole := digits.take (digits.length - places)
    if places = 0 then whole else whole ++ '.' :: digits.drop (digits.length - places)
  | _ => "inf".toList

/-- What a conversion makes of an argument: its text, whether the output ends there, and what was
wrong. -/
structure Converted where
  text : Octets
  stops : Bool
  problem : Option Problem

/-- A conversion of an argument. -/
def convert (dialect : Dialect) (c : Conversion) (argument : Octets) : Converted :=
  let (n, problem) := numberOf argument
  let ofDigits (digits : Octets) : Converted := ⟨paddedNumber c false digits, false, problem⟩
  let unsigned := (n % Nat.pow 2 64).toNat
  match c.kind with
  | 's' => ⟨padded c (argument.take (c.precision.getD argument.length)), false, none⟩
  | 'b' =>
    let (text, stopped) := unescape dialect true (argument.length + 1) argument
    ⟨padded c text, stopped, none⟩
  | 'c' => ⟨padded c (argument.take 1), false, none⟩
  | 'x' => ofDigits (Nat.toDigits 16 unsigned)
  | 'X' => ofDigits ((Nat.toDigits 16 unsigned).map Char.toUpper)
  | 'o' => ofDigits (Nat.toDigits 8 unsigned)
  | 'u' => ofDigits (Nat.toDigits 10 unsigned)
  | 'd' => ⟨paddedNumber c (n < 0) (Nat.toDigits 10 n.natAbs), false, problem⟩
  | 'i' => ⟨paddedNumber c (n < 0) (Nat.toDigits 10 n.natAbs), false, problem⟩
  | 'f' =>
    let (isNegative, digits) := match argument with
      | '-' :: digits => (true, digits)
      | '+' :: digits => (false, digits)
      | digits => (false, digits)
    let (x, rest) := pointed digits
    let problem := if rest.isEmpty then none
      else if rest.length = digits.length then some (.notNumber argument)
      else some (.notAllNumber argument)
    let text := fixedPlaces (c.precision.getD 6) x
    ⟨paddedNumber { c with precision := none } isNegative text, false, problem⟩
  | kind => ⟨[], true, some (.badConversion kind)⟩

/-- What was printed so far and is still to be printed. -/
structure Printed where
  text : Octets
  arguments : List Octets
  stops : Bool
  problems : List Problem

/-- The output of the parts of a format, used once. -/
def once (dialect : Dialect) : List Piece → List Octets → Printed
  | [], args => ⟨[], args, false, []⟩
  | .text cs :: rest, args =>
    let more := once dialect rest args
    { more with text := cs ++ more.text }
  | .conversion c :: rest, args =>
    let r := convert dialect c (args.head?.getD [])
    if r.stops then ⟨r.text, [], true, r.problem.toList⟩
    else
      let more := once dialect rest (args.drop 1)
      { more with text := r.text ++ more.text, problems := r.problem.toList ++ more.problems }

/-- The output of the parts of a format, used again as long as arguments are left over. -/
def repeated (dialect : Dialect) (pieces : List Piece) :
    Nat → List Octets → Octets × List Problem
  | 0, _ => ([], [])
  | fuel + 1, args =>
    let p := once dialect pieces args
    if p.stops || p.arguments.isEmpty || p.arguments.length = args.length then (p.text, p.problems)
    else
      let (text, problems) := repeated dialect pieces fuel p.arguments
      (p.text ++ text, p.problems ++ problems)

/-- The output of a format for arguments, and what was wrong. -/
def format (dialect : Dialect) (pattern : Octets) (args : List Octets) : Octets × List Problem :=
  let (text, _) := unescape dialect false (pattern.length + 1) pattern
  repeated dialect (piecesOf (text.length + 1) text) (args.length + 1) args

/-! ## 2. Echo -/

/-- Whether an argument is made of options of echo. -/
def isEchoOption (s : Octets) : Bool :=
  match s with
  | '-' :: c :: rest => (c :: rest).all fun d => d == 'n' || d == 'e' || d == 'E'
  | _ => false

/-- The output of echo. The plain shell knows one option and always reads escapes. -/
def echo (dialect : Dialect) (args : List Octets) : Octets :=
  let join (args : List Octets) : Octets := [' '].intercalate args
  match dialect with
  | .plain =>
    let (quiet, args) := match args with
      | first :: rest => if first = "-n".toList then (true, rest) else (false, args)
      | [] => (false, [])
    let text := join args
    let (out, stopped) := unescape dialect true (text.length + 1) text
    if quiet || stopped then out else out ++ ['\n']
  | .bash =>
    let options := (args.takeWhile isEchoOption).flatten
    let text := join (args.dropWhile isEchoOption)
    if options.contains 'e' then
      let (out, stopped) := unescape dialect true (text.length + 1) text
      if options.contains 'n' || stopped then out else out ++ ['\n']
    else if options.contains 'n' then text
    else text ++ ['\n']

end Runbook.Shell.Printing
