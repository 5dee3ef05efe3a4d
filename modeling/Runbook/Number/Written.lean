import Runbook.Text.CharClass

/-!
# Whole numbers as they are written

`writtenWhole?` reads a whole number in a base: blanks around it, a sign, the mark of the base,
and digits with single underscores between them. Decimal digits may be of any script, and letters
are digits from ten on. In base ten there may be `maxDigits` digits and no more.
-/

namespace Runbook

/-- How many digits a whole number in base ten may be written with. -/
def maxDigits : Nat := 4300

/-- The value of a digit below the base. -/
def digitBelow? (base : Nat) (c : Char) : Option Nat :=
  let digit :=
    match Text.decimalValue? c with
    | some d => some d
    | none => Text.hexValue? c
  digit.filter (· < base)

/-- Digits with single underscores between them, as their value behind a value read so far. -/
def groupedDigits? (base : Nat) : Nat → List Char → Option Nat
  | _, [] => none
  | n, [c] => (digitBelow? base c).map (base * n + ·)
  | n, c :: '_' :: rest =>
    (digitBelow? base c).bind fun d => groupedDigits? base (base * n + d) rest
  | n, c :: rest =>
    (digitBelow? base c).bind fun d => groupedDigits? base (base * n + d) rest

/-- The letter that marks a base behind a zero. -/
def baseMark? (base : Nat) : Option Char :=
  if base = 2 then some 'b'
  else if base = 8 then some 'o'
  else if base = 16 then some 'x'
  else none

/-- Digits without the mark of their base, and the underscore that may follow it. -/
def withoutMark (base : Nat) (s : List Char) : List Char :=
  match baseMark? base, s with
  | some mark, '0' :: c :: rest =>
    if c.toLower = mark then
      match rest with
      | '_' :: rest => rest
      | rest => rest
    else s
  | _, _ => s

/-- A text without the blanks around it that may surround a number. -/
def trimNumber (s : List Char) : List Char :=
  ((s.dropWhile Text.isPlainBlank).reverse.dropWhile Text.isPlainBlank).reverse

/-- The whole number that a text writes in a base. -/
def writtenWhole? (base : Nat) (s : List Char) : Option Int :=
  if base = 10 && maxDigits < s.countP Text.isDecimal then none
  else
    match trimNumber s with
    | '-' :: rest => (groupedDigits? base 0 (withoutMark base rest)).map fun n => -(n : Int)
    | '+' :: rest => (groupedDigits? base 0 (withoutMark base rest)).map fun n => (n : Int)
    | rest => (groupedDigits? base 0 (withoutMark base rest)).map fun n => (n : Int)

end Runbook
