import Runbook.Text.CharTable

/-!
# Classes of characters

The classes that the readers and checks of this library speak of, over all of Unicode:

* `isBlank`: white space, the separators U+001C to U+001F and the next-line control included, and
  `isPlainBlank`: the same without those separators;
* `isLetter`, `isDecimal`, `isDigitLike`, `isWordChar`: letters, decimal digits, digits of any kind,
  and the characters of a name (letters, numeric characters, the underscore);
* `decimalValue?`: the value of a decimal digit of any script;
* `hexValue?`: the value of a hexadecimal digit;
* `isPrintable`: what a quoted display shows as it stands;
* `lowerCase`, `lowerOf`: the lower-case form of a character, whole or its first part.

ASCII is decided by arithmetic, the rest by the tables of `Runbook.Text.CharTable`.
-/

namespace Runbook.Text

/-- Whether a code point lies in one of the closed ranges. -/
def inRanges (ranges : List (Nat × Nat)) (n : Nat) : Bool :=
  ranges.any fun range => range.1 ≤ n && n ≤ range.2

/-- White space: what trimming removes and what separates words. -/
def isBlank (c : Char) : Bool :=
  let n := c.toNat
  (9 ≤ n && n ≤ 13) || (28 ≤ n && n ≤ 32) || n == 0x85 || n == 0xA0 || n == 0x1680 ||
    (0x2000 ≤ n && n ≤ 0x200A) || n == 0x2028 || n == 0x2029 || n == 0x202F || n == 0x205F ||
    n == 0x3000

/-- White space without the four separators that only trimming knows: what may stand around the
digits of a number. -/
def isPlainBlank (c : Char) : Bool :=
  isBlank c && !(28 ≤ c.toNat && c.toNat ≤ 31)

/-- Letters of every script. -/
def isLetter (c : Char) : Bool :=
  if c.toNat < 128 then c.isAlpha else inRanges letterRanges c.toNat

/-- The value of a decimal digit of any script; each table range is a run of whole decades. -/
def decimalValue? (c : Char) : Option Nat :=
  if c.toNat < 128 then
    if c.isDigit then some (c.toNat - '0'.toNat) else none
  else
    (decimalRanges.find? fun range => range.1 ≤ c.toNat && c.toNat ≤ range.2).map
      fun range => (c.toNat - range.1) % 10

/-- Decimal digits of every script. -/
def isDecimal (c : Char) : Bool :=
  (decimalValue? c).isSome

/-- Decimal digits, superscripts and the other characters that stand for one digit. -/
def isDigitLike (c : Char) : Bool :=
  isDecimal c || inRanges digitRanges c.toNat

/-- The characters of a name: letters, numeric characters and the underscore. -/
def isWordChar (c : Char) : Bool :=
  if c.toNat < 128 then c.isAlphanum || c == '_'
  else inRanges letterRanges c.toNat || inRanges numericRanges c.toNat

/-- Characters that a quoted display shows as they stand. -/
def isPrintable (c : Char) : Bool :=
  if c.toNat < 128 then 32 ≤ c.toNat && c.toNat < 127
  else !inRanges unprintableRanges c.toNat

/-- The lower-case form of a character; only the dotted capital I has one of two characters. -/
def lowerCase (c : Char) : List Char :=
  if c.toNat < 128 then [c.toLower]
  else if c.toNat == 0x130 then ['i', Char.ofNat 0x307]
  else
    match lowerRuns.find? fun run =>
        run.1 ≤ c.toNat && c.toNat ≤ run.2.1 && (c.toNat - run.1) % run.2.2.1 == 0 with
    | some run => [Char.ofNat (c.toNat + run.2.2.2).toNat]
    | none => [c]

/-- The lower-case form of a character as a single one. -/
def lowerOf (c : Char) : Char :=
  (lowerCase c).head?.getD c

/-- The value of a hexadecimal digit. -/
def hexValue? (c : Char) : Option Nat :=
  if c.isDigit then some (c.toNat - '0'.toNat)
  else if 'a' ≤ c ∧ c ≤ 'f' then some (c.toNat - 'a'.toNat + 10)
  else if 'A' ≤ c ∧ c ≤ 'F' then some (c.toNat - 'A'.toNat + 10)
  else none

/-- The characters of an identifier are ASCII letters, digits and the underscore. -/
def isIdentChar (c : Char) : Bool :=
  c.isAlphanum || c == '_'

/-- An identifier starts with an ASCII letter or an underscore. -/
def isIdentStart (c : Char) : Bool :=
  c.isAlpha || c == '_'

end Runbook.Text
