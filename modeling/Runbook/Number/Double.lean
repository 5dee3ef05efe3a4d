/-!
# Numbers with a 53-bit significand

The fractional numbers of a data document, as exact values `mantissa * 2 ^ exponent`:

* `Double`: a finite number, an infinity or no number;
* `Double.ofRatio`, `Double.ofDecimal`: the nearest one to a fraction or to a decimal, a tie going
  to the even mantissa;
* `Double.add`: the nearest one to a sum;
* `Double.toInt?`, `Double.isZero`: what whole numbers and truth values need.

No machine arithmetic is involved: every operation is exact on `Nat` and `Int` and rounds once.
-/

namespace Runbook

/-- A number with at most 53 significant bits. A finite one is `± mantissa * 2 ^ exponent`. -/
inductive Double where
  | finite (negative : Bool) (mantissa : Nat) (exponent : Int)
  | infinite (negative : Bool)
  | notANumber
deriving DecidableEq, Repr

namespace Double

/-- The least exponent: numbers below `2 ^ (-1022)` have fewer significant bits. -/
def leastExponent : Int := -1074

/-- The greatest exponent of a finite number. -/
def greatestExponent : Int := 971

/-- The quotient rounded to the nearest whole number, a tie going to the even one. -/
def roundQuotient (num den : Nat) : Nat :=
  let q := num / den
  let r := num % den
  if 2 * r < den then q
  else if den < 2 * r then q + 1
  else if q % 2 = 0 then q else q + 1

/-- `num / den / 2 ^ e` as a fraction of whole numbers. -/
def scaled (num den : Nat) (e : Int) : Nat × Nat :=
  if 0 ≤ e then (num, den * Nat.pow 2 e.toNat) else (num * Nat.pow 2 (-e).toNat, den)

/-- The exponent at which the quotient has 53 bits, never below the least one. -/
def fittingExponent (num den : Nat) : Int :=
  let guess : Int := (num.log2 : Int) - (den.log2 : Int) - 52
  let s := scaled num den guess
  let e := if s.1 / s.2 < Nat.pow 2 52 then guess - 1 else guess
  max e leastExponent

/-- The number nearest to `± num / den`. -/
def ofRatio (negative : Bool) (num den : Nat) : Double :=
  if num = 0 then .finite negative 0 leastExponent
  else
    let e := fittingExponent num den
    let s := scaled num den e
    let m := roundQuotient s.1 s.2
    let (m, e) := if m = Nat.pow 2 53 then (Nat.pow 2 52, e + 1) else (m, e)
    if e > greatestExponent then .infinite negative else .finite negative m e

/-- The number of decimal digits of a positive number. -/
def decimalLength (n : Nat) : Nat :=
  (Nat.toDigits 10 n).length

/-- The number nearest to `± digits * 10 ^ exponent`. Exponents far outside the range of finite
numbers are answered without a division. -/
def ofDecimal (negative : Bool) (digits : Nat) (exponent : Int) : Double :=
  if digits = 0 then .finite negative 0 leastExponent
  else
    let magnitude : Int := decimalLength digits + exponent
    if magnitude > 320 then .infinite negative
    else if magnitude < -340 then .finite negative 0 leastExponent
    else if 0 ≤ exponent then ofRatio negative (digits * Nat.pow 10 exponent.toNat) 1
    else ofRatio negative digits (Nat.pow 10 (-exponent).toNat)

/-- Whether the number is zero, of either sign. -/
def isZero : Double → Bool
  | .finite _ m _ => m == 0
  | _ => false

/-- The value as `± num / den`. -/
def ratio (m : Nat) (e : Int) : Nat × Nat :=
  if 0 ≤ e then (m * Nat.pow 2 e.toNat, 1) else (m, Nat.pow 2 (-e).toNat)

/-- The whole number that this number is, if it is one. -/
def toInt? : Double → Option Int
  | .finite negative m e =>
    let (num, den) := ratio m e
    if num % den = 0 then
      some (if negative then -((num / den : Nat) : Int) else ((num / den : Nat) : Int))
    else none
  | _ => none

/-- The numerator of a finite number over `2 ^ 1074`, with its sign. -/
def numerator (negative : Bool) (m : Nat) (e : Int) : Int :=
  let n : Nat := m * Nat.pow 2 (e - leastExponent).toNat
  if negative then -(n : Int) else n

/-- The number nearest to the sum. -/
def add : Double → Double → Double
  | .finite n₁ m₁ e₁, .finite n₂ m₂ e₂ =>
    let s := numerator n₁ m₁ e₁ + numerator n₂ m₂ e₂
    ofRatio (s < 0 || (s == 0 && n₁ && n₂)) s.natAbs (Nat.pow 2 (-leastExponent).toNat)
  | .notANumber, _ => .notANumber
  | _, .notANumber => .notANumber
  | .infinite a, .infinite b => if a = b then .infinite a else .notANumber
  | .infinite a, _ => .infinite a
  | _, .infinite b => .infinite b

/-- The number with the other sign. -/
def negate : Double → Double
  | .finite negative m e => .finite (!negative) m e
  | .infinite negative => .infinite (!negative)
  | .notANumber => .notANumber

/-- The number nearest to a whole number. -/
def ofInt (i : Int) : Double :=
  ofRatio (i < 0) i.natAbs 1

end Double

end Runbook
