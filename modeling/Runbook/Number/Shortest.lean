import Runbook.Number.Double

/-!
# The shortest decimal that reads back

The text of a `Double`: of the decimals with the fewest digits that are nearer to it than to any
other number, the nearest.

* `Double.shortest`: those digits, and where the decimal point stands before them;
* `Double.text`: positional from `0.0001` up to below `10 ^ 16`, with an exponent of at least two
  digits outside of that.
-/

namespace Runbook.Double

/-- The end points of the reals that round to `m * 2 ^ e`, and the number itself, each times
`2 ^ (2 - e)`. Below a power of two the gap is half as wide. -/
def quarterBounds (m : Nat) (e : Int) : Nat × Nat × Nat :=
  let below := if m = Nat.pow 2 52 ∧ e > leastExponent then 1 else 2
  (4 * m - below, 4 * m, 4 * m + 2)

/-- A decimal `digits * 10 ^ exponent` of the given grid inside the interval, nearest to the
number, if there is one. All comparisons are of whole numbers over a common denominator. -/
def onGrid? (m : Nat) (e : Int) (grid : Int) : Option Nat :=
  let (low, mid, high) := quarterBounds m e
  -- the bounds are `x * 2 ^ (e - 2)`, the grid's points `k * 10 ^ grid`
  let up := Nat.pow 2 (e - 2).toNat * Nat.pow 10 (-grid).toNat
  let step := Nat.pow 2 (2 - e).toNat * Nat.pow 10 grid.toNat
  let low := low * up
  let mid := mid * up
  let high := high * up
  let inside (k : Nat) : Bool :=
    let x := k * step
    if m % 2 = 0 then low ≤ x && x ≤ high else low < x && x < high
  let k := mid / step
  let lower := inside k
  let upper := inside (k + 1)
  if lower && upper then
    let below := mid - k * step
    let above := (k + 1) * step - mid
    if below < above then some k
    else if above < below then some (k + 1)
    else if k % 2 = 0 then some k else some (k + 1)
  else if lower then some k
  else if upper then some (k + 1)
  else none

/-- The number of decimal digits before the point of a positive number; negative for a number below
one that starts with zeros behind the point. -/
def pointPosition (m : Nat) (e : Int) : Int :=
  let scaled := m * Nat.pow 2 e.toNat * Nat.pow 10 400 / Nat.pow 2 (-e).toNat
  (decimalLength scaled : Int) - 400

/-- The first grid with a point in the interval, from coarse to fine. -/
def firstGrid (m : Nat) (e : Int) (point : Int) : List Nat → Nat × Int
  | [] => (m, 0)
  | n :: rest =>
    match onGrid? m e (point - (n : Int)) with
    | some k => if k = 0 then firstGrid m e point rest else (k, point - (n : Int))
    | none => firstGrid m e point rest

/-- The digits of the shortest decimal, without trailing zeros, and the position of its point. -/
def shortest (m : Nat) (e : Int) : List Char × Int :=
  let point := pointPosition m e
  let (k, grid) := firstGrid m e point ((List.range 17).map (· + 1))
  let digits := Nat.toDigits 10 k
  let position := grid + (digits.length : Int)
  ((digits.reverse.dropWhile (· == '0')).reverse, position)

/-- The exponent of a decimal in two digits or more, with its sign. -/
def exponentText (x : Int) : List Char :=
  let digits := Nat.toDigits 10 x.natAbs
  (if x < 0 then '-' else '+') :: (if digits.length < 2 then '0' :: digits else digits)

/-- Digits with a point at the given position: positional for positions -3 to 16. -/
def placePoint (digits : List Char) (position : Int) : List Char :=
  if -4 < position ∧ position ≤ 16 then
    if position ≤ 0 then
      ['0', '.'] ++ List.replicate (-position).toNat '0' ++ digits
    else
      let n := position.toNat
      if digits.length ≤ n then digits ++ List.replicate (n - digits.length) '0' ++ ['.', '0']
      else digits.take n ++ '.' :: digits.drop n
  else
    let exponent := 'e' :: exponentText (position - 1)
    match digits with
    | [] => exponent
    | [d] => d :: exponent
    | d :: rest => d :: '.' :: rest ++ exponent

/-- The text of a number. -/
def text : Double → String
  | .notANumber => "nan"
  | .infinite negative => if negative then "-inf" else "inf"
  | .finite negative m e =>
    let body := if m = 0 then ['0', '.', '0'] else
      let (digits, position) := shortest m e
      placePoint digits position
    String.ofList (if negative then '-' :: body else body)

end Runbook.Double
