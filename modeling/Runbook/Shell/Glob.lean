import Runbook.Shell.Octets

/-!
# Patterns of a shell

A pattern is a row of characters, of which quoted ones stand for themselves. Of the others `*`
stands for any text, `?` for any character, and brackets for one of a class.

* `Mark`: a character of a pattern;
* `Glob.accepts`: whether a whole text fits a pattern;
* `Glob.withoutStart`, `withoutEnd`: a text less a start or an end that fits.
-/

namespace Runbook.Shell

/-- A character with what quoting says about it. -/
structure Mark where
  char : Char
  isQuoted : Bool
deriving DecidableEq, Repr

namespace Glob

/-- Whether a mark is a given sign of patterns. -/
def isSign (c : Char) (m : Mark) : Bool :=
  m.char == c && !m.isQuoted

/-- The names of classes in brackets. -/
def namedClass? (name : List Char) : Option (Char → Bool) :=
  match String.ofList name with
  | "alpha" => some Char.isAlpha
  | "digit" => some Char.isDigit
  | "alnum" => some Char.isAlphanum
  | "upper" => some Char.isUpper
  | "lower" => some Char.isLower
  | "space" => some fun c => c == ' ' || (9 ≤ c.toNat && c.toNat ≤ 13)
  | "blank" => some fun c => c == ' ' || c == '\t'
  | "xdigit" => some fun c => (Text.hexValue? c).isSome
  | "punct" => some fun c => 33 ≤ c.toNat && c.toNat ≤ 126 && !c.isAlphanum
  | _ => none

/-- The members of brackets from behind their start on, and what follows them; `isFirst` says that a
closing bracket is a member. -/
def members (isFirst : Bool) : Nat → List Mark → Option ((Char → Bool) × List Mark)
  | 0, _ => none
  | fuel + 1, p =>
    match p with
    | [] => none
    | m :: rest =>
      if isSign ']' m && !isFirst then some (fun _ => false, rest)
      else
        let chars := rest.map (·.char)
        match isSign '[' m, Text.dropStart? [':'] chars with
        | true, some body =>
          let name := body.takeWhile (· ≠ ':')
          match namedClass? name, rest.drop (name.length + 3) with
          | some f, after =>
            (members false fuel after).map fun (g, rest) => (fun c => f c || g c, rest)
          | none, _ => none
        | _, _ =>
          match rest with
          | dash :: last :: after =>
            if isSign '-' dash && !isSign ']' last then
              (members false fuel after).map fun (g, rest) =>
                (fun c => (m.char ≤ c && c ≤ last.char) || g c, rest)
            else (members false fuel rest).map fun (g, rest) => (fun c => c == m.char || g c, rest)
          | _ => (members false fuel rest).map fun (g, rest) => (fun c => c == m.char || g c, rest)

/-- A class in brackets from behind its opening bracket on. -/
def bracket? (p : List Mark) : Option ((Char → Bool) × List Mark) :=
  match p with
  | m :: rest =>
    if isSign '!' m || isSign '^' m then
      (members true (p.length + 1) rest).map fun (f, rest) => (fun c => !f c, rest)
    else members true (p.length + 1) p
  | [] => none

/-- Whether a text fits a pattern; `fuel` is at least the length of both together and one more. -/
def acceptsFrom : Nat → List Mark → List Char → Bool
  | 0, _, _ => false
  | fuel + 1, p, s =>
    match p with
    | [] => s.isEmpty
    | m :: rest =>
      if isSign '*' m then
        acceptsFrom fuel rest s ||
          match s with
          | [] => false
          | _ :: t => acceptsFrom fuel p t
      else
        match s with
        | [] => false
        | c :: t =>
          if isSign '?' m then acceptsFrom fuel rest t
          else
            match isSign '[' m, bracket? rest with
            | true, some (f, rest) => f c && acceptsFrom fuel rest t
            | _, _ => c == m.char && acceptsFrom fuel rest t

/-- Whether a whole text fits a pattern. -/
def accepts (p : List Mark) (s : List Char) : Bool :=
  acceptsFrom (p.length + s.length + 1) p s

/-- A text less its shortest or longest start that fits. -/
def withoutStart (longest : Bool) (p : List Mark) (s : List Char) : List Char :=
  let lengths := List.range (s.length + 1)
  match (if longest then lengths.reverse else lengths).find? fun n => accepts p (s.take n) with
  | some n => s.drop n
  | none => s

/-- A text less its shortest or longest end that fits. -/
def withoutEnd (longest : Bool) (p : List Mark) (s : List Char) : List Char :=
  let lengths := List.range (s.length + 1)
  match (if longest then lengths else lengths.reverse).find? fun n => accepts p (s.drop n) with
  | some n => s.take n
  | none => s

/-- Whether a pattern has a sign, without which it stands for its own text. -/
def hasSign (p : List Mark) : Bool :=
  p.any fun m => isSign '*' m || isSign '?' m || isSign '[' m

end Glob

end Runbook.Shell
