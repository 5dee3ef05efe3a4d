import Runbook.Yaml.Problem

/-!
# Bytes in base 64

`bytesOf` reads bytes that are written in groups of four digits of six bits each. A last group of
two or three digits is filled up with equals signs; other characters do not count.
-/

namespace Runbook.Yaml

/-- The value of a digit. -/
def sixBits? (c : Char) : Option Nat :=
  if 'A' ≤ c ∧ c ≤ 'Z' then some (c.toNat - 'A'.toNat)
  else if 'a' ≤ c ∧ c ≤ 'z' then some (c.toNat - 'a'.toNat + 26)
  else if c.isDigit then some (c.toNat - '0'.toNat + 52)
  else if c = '+' then some 62
  else if c = '/' then some 63
  else none

/-- Reads on in a group of which `position` digits are read; `bits` are those that no byte holds
yet, and `pads` the equals signs that came last. -/
def groupsFrom (position bits pads : Nat) : List Char → Except Problem (List UInt8)
  | [] => if position = 0 then .ok [] else .error .badBase64
  | c :: rest =>
    if c = '=' then
      if 2 ≤ position then
        if 4 ≤ position + pads + 1 then .ok [] else groupsFrom position bits (pads + 1) rest
      else groupsFrom position bits pads rest
    else
      match sixBits? c with
      | none => groupsFrom position bits pads rest
      | some d =>
        match position with
        | 0 => groupsFrom 1 d 0 rest
        | 1 => (groupsFrom 2 (d % 16) 0 rest).map ((bits * 4 + d / 16).toUInt8 :: ·)
        | 2 => (groupsFrom 3 (d % 4) 0 rest).map ((bits * 16 + d / 4).toUInt8 :: ·)
        | _ => (groupsFrom 0 0 0 rest).map ((bits * 64 + d).toUInt8 :: ·)

/-- The bytes of a text, which holds ASCII characters only. -/
def bytesOf (s : List Char) : Except Problem (List UInt8) :=
  if s.all (·.toNat < 128) then groupsFrom 0 0 0 s else .error .badBase64

end Runbook.Yaml
