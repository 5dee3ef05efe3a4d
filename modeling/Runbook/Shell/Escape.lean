import Runbook.Shell.Octets

/-!
# Backslashes in texts

* `Dialect`: the two languages of shells;
* `unescape`: a text with what its backslashes ask for in their place, as formats and as arguments
  have them;
* `ansiText`: the text of quotes with a dollar sign in front.
-/

namespace Runbook.Shell

/-- The two languages of shells; they differ in messages, in echo and in some compounds. -/
inductive Dialect where
  | plain
  | bash
deriving DecidableEq, Repr

namespace Escape

/-- The value of up to `most` digits in base eight at the start of a text, and what follows. -/
def octal (most : Nat) (s : List Char) : Nat × List Char :=
  let digits := (s.take most).takeWhile fun c => '0' ≤ c && c ≤ '7'
  (digits.foldl (fun n c => 8 * n + (c.toNat - '0'.toNat)) 0, s.drop digits.length)

/-- Whether a character is a digit in base eight. -/
def isOctal (c : Char) : Bool := '0' ≤ c && c ≤ '7'

/-- What an escape of one letter stands for. -/
def letter? : Char → Option Char
  | 'a' => some (Char.ofNat 7)
  | 'b' => some (Char.ofNat 8)
  | 'f' => some (Char.ofNat 12)
  | 'n' => some '\n'
  | 'r' => some '\r'
  | 't' => some '\t'
  | 'v' => some (Char.ofNat 11)
  | '\\' => some '\\'
  | _ => none

/-- A byte with a number; further bits are lost. -/
def byte (n : Nat) : Char := Char.ofNat (n % 256)

/-- An escape from behind its backslash on: what it stands for, and what follows. In an argument a
zero in front of the digits of a number does not count as one of them. -/
def escapeAt? (dialect : Dialect) (isArgument : Bool) (c : Char) (rest : List Char) :
    Option (Char × List Char) :=
  match letter? c with
  | some d => some (d, rest)
  | none =>
    let number (s : List Char) := some (byte (octal 3 s).1, (octal 3 s).2)
    if isOctal c then
      if !isArgument then number (c :: rest)
      else if c = '0' then
        if rest.head?.any isOctal then number rest else some (byte 0, rest)
      else if dialect = .plain then number (c :: rest)
      else none
    else if c = 'e' then some (Char.ofNat 27, rest)
    else if dialect = .plain then none
    else if c = 'x' then
      let digits := (rest.take 2).takeWhile fun d => (Text.hexValue? d).isSome
      if digits.isEmpty then none
      else some (byte (digits.foldl (fun n d => 16 * n + (Text.hexValue? d).getD 0) 0),
        rest.drop digits.length)
    else none

end Escape

/-- A text with its escapes read. An argument ends where `\c` stands, which the second part of the
answer says. -/
def unescape (dialect : Dialect) (isArgument : Bool) : Nat → List Char → Octets × Bool
  | 0, _ => ([], false)
  | fuel + 1, s =>
    let go (cs : List Char) (rest : List Char) : Octets × Bool :=
      let (text, stopped) := unescape dialect isArgument fuel rest
      (cs ++ text, stopped)
    match s with
    | [] => ([], false)
    | '\\' :: c :: rest =>
      if c = 'c' && isArgument then ([], true)
      else
        match Escape.escapeAt? dialect isArgument c rest with
        | some (d, rest) => go [d] rest
        | none => go ['\\', c] rest
    | c :: rest => go [c] rest

/-- The text up to the next single quote, its escapes read, and what follows. -/
def ansiText : Nat → List Char → Option (Octets × List Char)
  | 0, _ => none
  | fuel + 1, s =>
    match s with
    | [] => none
    | '\'' :: rest => some ([], rest)
    | '\\' :: c :: rest =>
      let (cs, rest) :=
        if c = '\'' || c = '"' || c = '?' then ([c], rest)
        else
          match Escape.escapeAt? .bash false c rest with
          | some (d, rest) => ([d], rest)
          | none => (['\\', c], rest)
      (ansiText fuel rest).map fun (text, rest) => (cs ++ text, rest)
    | c :: rest => (ansiText fuel rest).map fun (text, rest) => (c :: text, rest)

end Runbook.Shell
