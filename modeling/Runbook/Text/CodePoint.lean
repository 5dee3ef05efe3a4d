/-!
# Code points

A text that is written with escapes may name code points that are no characters: halves of pairs,
which only together stand for a character.

* `codesOf`: the code points of a text;
* `isHalf`, `isHighHalf`, `isLowHalf`: the halves of pairs;
* `charsOf`: the characters that code points show as, a pair as one and half a pair on its own as
  U+FFFD.
-/

namespace Runbook.Text

/-- Whether a code point is the first half of a pair. -/
def isHighHalf (n : Nat) : Bool := 0xD800 ≤ n && n < 0xDC00

/-- Whether a code point is the second half of a pair. -/
def isLowHalf (n : Nat) : Bool := 0xDC00 ≤ n && n < 0xE000

/-- Whether a code point is half a pair. -/
def isHalf (n : Nat) : Bool := isHighHalf n || isLowHalf n

/-- The character of a pair. -/
def pairChar (high low : Nat) : Char :=
  Char.ofNat (0x10000 + (high - 0xD800) * 0x400 + (low - 0xDC00))

/-- The code points of a text. -/
def codesOf (s : List Char) : List Nat :=
  s.map Char.toNat

/-- The characters that code points show as. -/
def charsOf : List Nat → List Char
  | [] => []
  | [n] => [if isHalf n then Char.ofNat 0xFFFD else Char.ofNat n]
  | n :: m :: rest =>
    if isHighHalf n && isLowHalf m then pairChar n m :: charsOf rest
    else (if isHalf n then Char.ofNat 0xFFFD else Char.ofNat n) :: charsOf (m :: rest)

/-- A character is half of nothing. -/
theorem isHalf_toNat (c : Char) : isHalf c.toNat = false := by
  have h : c.toNat < 0xD800 ∨ 0xDFFF < c.toNat ∧ c.toNat < 0x110000 := c.valid
  rcases h with h | ⟨h, _⟩ <;> simp [isHalf, isHighHalf, isLowHalf] <;> omega

end Runbook.Text
