import Runbook.Number.Double
import Runbook.Number.Written
import Runbook.Text.Basic
import Runbook.Yaml.Problem

/-!
# Numbers in YAML

* `isWhole`, `isReal`: the plain scalars that are numbers;
* `wholeOf`, `realOf`: the number of a text. Whole numbers come in the bases two, eight, ten and
  sixteen, and both kinds in base sixty with colons between the digits. Underscores do not count.
-/

namespace Runbook.Yaml

/-! ## 1. Digits -/

/-- A text without a sign at its start, and whether that is a minus. -/
def dropSign : List Char → Bool × List Char
  | '-' :: rest => (true, rest)
  | '+' :: rest => (false, rest)
  | s => (false, s)

/-- A digit or an underscore. -/
def isDigitOrLine (c : Char) : Bool :=
  c.isDigit || c == '_'

/-- The parts of a text between separators. -/
def splitAt (separator : Char) : List Char → List (List Char)
  | [] => [[]]
  | c :: rest =>
    match splitAt separator rest with
    | [] => [[c]]
    | part :: parts => if c = separator then [] :: part :: parts else (c :: part) :: parts

/-- Whether a part of a number in base sixty behind its first colon is one. -/
def isSixtieth (part : List Char) : Bool :=
  match part with
  | [c] => c.isDigit
  | [c, d] => '0' ≤ c && c ≤ '5' && d.isDigit
  | _ => false

/-! ## 2. Whole numbers -/

/-- Whether a text is a whole number in base ten or, with colons, in base sixty. Only in base ten it
may be zero. -/
def isDecimalWhole (s : List Char) : Bool :=
  match splitAt ':' s with
  | first :: more =>
    (first == ['0'] && more.isEmpty) ||
      (first.head?.any (fun c => c.isDigit && c ≠ '0') && first.all isDigitOrLine &&
        more.all isSixtieth)
  | [] => false

/-- Whether a plain scalar is a whole number. -/
def isWhole (s : List Char) : Bool :=
  match (dropSign s).2 with
  | '0' :: 'b' :: c :: rest => (c :: rest).all fun d => d == '0' || d == '1' || d == '_'
  | '0' :: 'x' :: c :: rest => (c :: rest).all fun d => (Text.hexValue? d).isSome || d == '_'
  | '0' :: c :: rest => (c :: rest).all fun d => ('0' ≤ d && d ≤ '7') || d == '_'
  | s => isDecimalWhole s

/-- The number of parts in base sixty, the first of them behind a number read so far. -/
def sixtiethsFrom? (sum : Int) : List (List Char) → Option Int
  | [] => some sum
  | part :: rest => (writtenWhole? 10 part).bind fun n => sixtiethsFrom? (60 * sum + n) rest

/-- A whole number without underscores and without the sign of the whole. The base is marked by its
start, and what follows the mark is a number with a sign of its own. -/
def unsignedOf? : List Char → Option Int
  | '0' :: 'b' :: rest => writtenWhole? 2 rest
  | '0' :: 'x' :: rest => writtenWhole? 16 rest
  | '0' :: rest => writtenWhole? 8 ('0' :: rest)
  | s => if s.contains ':' then sixtiethsFrom? 0 (splitAt ':' s) else writtenWhole? 10 s

/-- The whole number of a text. -/
def wholeOf (s : List Char) : Except Problem Int :=
  match s.filter (· ≠ '_') with
  | [] => .error .emptyNumber
  | s =>
    let (negative, body) := dropSign s
    if body.isEmpty then .error .emptyNumber
    else
      match unsignedOf? body with
      | some n => .ok (if negative then -n else n)
      | none => .error .notNumeric

/-! ## 3. Fractional numbers -/

/-- Whether a text is an exponent with a sign, or empty. -/
def isSignedExponent : List Char → Bool
  | [] => true
  | e :: sign :: c :: rest =>
    (e == 'e' || e == 'E') && (sign == '+' || sign == '-') && (c :: rest).all Char.isDigit
  | _ => false

/-- Whether a text is what follows the whole part of a fractional number: a point and digits, with
an exponent where one is allowed. -/
def isFraction (allowExponent : Bool) : List Char → Bool
  | '.' :: rest =>
    let tail := rest.dropWhile isDigitOrLine
    tail.isEmpty || (allowExponent && isSignedExponent tail)
  | _ => false

/-- Whether a text has a whole part in base ten or sixty in front of its fraction. -/
def isPointed (s : List Char) : Bool :=
  let whole := s.takeWhile fun c => isDigitOrLine c || c == ':'
  match splitAt ':' whole with
  | first :: more =>
    first.head?.any Char.isDigit && first.all isDigitOrLine && more.all isSixtieth &&
      isFraction more.isEmpty (s.drop whole.length)
  | [] => false

/-- Whether a plain scalar is a fractional number. -/
def isReal (s : List Char) : Bool :=
  let unsigned := (dropSign s).2
  isPointed unsigned ||
    (match s with
      | '.' :: c :: rest => c.isDigit && isFraction true ('.' :: c :: rest)
      | _ => false) ||
    [".inf", ".Inf", ".INF"].contains (String.ofList unsigned) ||
    [".nan", ".NaN", ".NAN"].contains (String.ofList s)

/-- The number of a run of digits, of which there is at least one. -/
def digitRun? (digits : List Char) : Option Nat :=
  groupedDigits? 10 0 digits

/-- The number of digits with an optional point and an optional exponent. -/
def decimalOf? (s : List Char) : Option Double :=
  let whole := s.takeWhile Text.isDecimal
  let rest := s.dropWhile Text.isDecimal
  let (fraction, rest) := match rest with
    | '.' :: rest => (rest.takeWhile Text.isDecimal, rest.dropWhile Text.isDecimal)
    | rest => ([], rest)
  match digitRun? (whole ++ fraction) with
  | none => none
  | some digits =>
    match rest with
    | [] => some (.ofDecimal false digits (-fraction.length))
    | 'e' :: rest =>
      let (negative, exponent) := dropSign rest
      if exponent.all Text.isDecimal then
        (digitRun? exponent).map fun e =>
          .ofDecimal false digits ((if negative then -(e : Int) else e) - fraction.length)
      else none
    | _ => none

/-- The number that a word stands for. -/
def namedReal? (s : List Char) : Option Double :=
  if s = "inf".toList || s = "infinity".toList then some (.infinite false)
  else if s = "nan".toList then some .notANumber
  else none

/-- A fractional number with an optional sign; blanks at the ends do not count. -/
def signedReal? (s : List Char) : Option Double :=
  let (negative, body) := dropSign (trimNumber s)
  match decimalOf? body with
  | some x => some (if negative then x.negate else x)
  | none => (namedReal? body).map fun x => if negative then x.negate else x

/-- The number of a text without a base. -/
def signedReal (s : List Char) : Except Problem Double :=
  match signedReal? s with
  | some x => .ok x
  | none => .error .notNumeric

/-- A number times a power of sixty. The power is rounded by itself, and must not be too large. -/
def timesSixty (x : Double) (n : Nat) : Except Problem Double :=
  match Double.ofInt (Nat.pow 60 n), x with
  | .finite _ m' e', .finite negative m e =>
    let (num, den) := Double.ratio (m * m') (e + e')
    .ok (.ofRatio negative num den)
  | .finite .., x => .ok x
  | _, _ => .error .numberTooLarge

/-- The number of parts in base sixty, the last first; each step is rounded. -/
def sumSixtieths (sum : Double) : Nat → List Double → Except Problem Double
  | _, [] => .ok sum
  | n, x :: rest => (timesSixty x n).bind fun y => sumSixtieths (sum.add y) (n + 1) rest

/-- The fractional number of a text; letters may be of either case. -/
def realOf (s : List Char) : Except Problem Double :=
  match (s.filter (· ≠ '_')).flatMap Text.lowerCase with
  | [] => .error .emptyNumber
  | s =>
    let (negative, body) := dropSign s
    let magnitude : Except Problem Double :=
      if body = ".inf".toList then .ok (.infinite false)
      else if body = ".nan".toList then .ok .notANumber
      else if body.contains ':' then
        ((splitAt ':' body).mapM signedReal).bind fun parts =>
          sumSixtieths (.ofInt 0) 0 parts.reverse
      else signedReal body
    magnitude.map fun x => if negative then x.negate else x

end Runbook.Yaml
