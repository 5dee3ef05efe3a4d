import Runbook.Text.CodePoint
import Runbook.Yaml.Problem
import Runbook.Yaml.Token.Position

/-!
# Texts of scalars

The three ways to write a scalar, each read from a text into the scalar and what follows it:

* `plainText`: without quotes, over several lines if those are indented;
* `quotedText`: in single or double quotes, the latter with escapes, as code points;
* `blockText`: an indented block, its lines kept or folded.

In the first two a single line break becomes a space and further ones are kept.
-/

namespace Runbook.Yaml

/-! ## 1. Plain scalars -/

/-- Whether a character is a bracket or comma of a flow collection. -/
def isFlowMark (c : Char) : Bool :=
  c == ',' || c == '[' || c == ']' || c == '\x7b' || c == '\x7d'

/-- The longest part of a plain scalar without blanks. -/
def plainWord (inFlow : Bool) : List Char → List Char
  | [] => []
  | c :: rest =>
    let ends := isSpaceOrTab c || isBreak c ||
      (c == ':' && (endsWord rest || (inFlow && rest.head?.any isFlowMark))) ||
      (inFlow && (isFlowMark c || c == '?'))
    if ends then [] else c :: plainWord inFlow rest

/-- The further line breaks of a fold, spaces between them skipped; a line that separates documents
ends it, which the last part of the answer says. -/
def foldBreaks : Nat → List Char → List Char × List Char × Bool
  | 0, s => ([], s, false)
  | fuel + 1, s =>
    let s := s.dropWhile (· == ' ')
    match lineBreak? s with
    | none => ([], s, false)
    | some (b, rest) =>
      if isSeparator rest then ([], rest, true)
      else
        let (bs, rest, stopped) := foldBreaks fuel rest
        (b :: bs, rest, stopped)

/-- What a line break and the further ones behind it become. -/
def folded (first : Char) (further : List Char) : List Char :=
  if first ≠ '\n' then first :: further
  else if further.isEmpty then [' ']
  else further

/-- The number of characters since the last line break of the part of `s` that is not `rest`. -/
def columnAfter (s rest : List Char) : Nat :=
  ((s.take (s.length - rest.length)).reverse.takeWhile (!isBreak ·)).length

/-- A plain scalar that goes on behind the blanks `gap`; `indent` is the least column of its further
lines. Answers its text, what follows, and whether a line break was the last that was read. -/
def plainFrom (inFlow : Bool) (indent : Int) :
    Nat → (gap : List Char) → (broken : Bool) → List Char → List Char × List Char × Bool
  | 0, _, broken, s => ([], s, broken)
  | fuel + 1, gap, broken, s =>
    match s.head? == some '#', plainWord inFlow s with
    | true, _ => ([], s, broken)
    | false, [] => ([], s, broken)
    | false, word =>
      let tail := s.drop word.length
      let spaces := tail.takeWhile (· == ' ')
      let afterSpaces := tail.dropWhile (· == ' ')
      match lineBreak? afterSpaces with
      | none =>
        if spaces.isEmpty then (gap ++ word, afterSpaces, false)
        else
          let (text, rest, broken) := plainFrom inFlow indent fuel spaces false afterSpaces
          (gap ++ word ++ text, rest, broken)
      | some (b, nextLine) =>
        if isSeparator nextLine then (gap ++ word, nextLine, true)
        else
          let (bs, start, stopped) := foldBreaks nextLine.length nextLine
          if stopped then (gap ++ word, start, true)
          else if !inFlow && decide ((columnAfter nextLine start : Int) < indent) then
            (gap ++ word, start, true)
          else
            let (text, rest, broken) := plainFrom inFlow indent fuel (folded b bs) true start
            (gap ++ word ++ text, rest, broken)

/-- A plain scalar: its text, what follows it, and whether it ends in front of a new line. -/
def plainText (inFlow : Bool) (indent : Int) (s : List Char) : List Char × List Char × Bool :=
  plainFrom inFlow indent s.length [] false s

/-! ## 2. Quoted scalars -/

/-- The further line breaks of a fold between quotes, blanks between them skipped. -/
def quotedBreaks : Nat → List Char → Except Problem (List Char × List Char)
  | 0, s => .ok ([], s)
  | fuel + 1, s =>
    if isSeparator s then .error .separatorInQuotes
    else
      let s := s.dropWhile isSpaceOrTab
      match lineBreak? s with
      | none => .ok ([], s)
      | some (b, rest) => do
        let (bs, rest) ← quotedBreaks fuel rest
        return (b :: bs, rest)

/-- The character of a one-letter escape. -/
def escaped? : Char → Option Char
  | '0' => some (Char.ofNat 0)
  | 'a' => some (Char.ofNat 7)
  | 'b' => some (Char.ofNat 8)
  | 't' => some '\t'
  | '\t' => some '\t'
  | 'n' => some '\n'
  | 'v' => some (Char.ofNat 11)
  | 'f' => some (Char.ofNat 12)
  | 'r' => some '\r'
  | 'e' => some (Char.ofNat 27)
  | ' ' => some ' '
  | '"' => some '"'
  | '\\' => some '\\'
  | '/' => some '/'
  | 'N' => some (Char.ofNat 0x85)
  | '_' => some (Char.ofNat 0xA0)
  | 'L' => some (Char.ofNat 0x2028)
  | 'P' => some (Char.ofNat 0x2029)
  | _ => none

/-- How many digits the number of a character has behind the letter of its escape. -/
def escapeLength? : Char → Option Nat
  | 'x' => some 2
  | 'u' => some 4
  | 'U' => some 8
  | _ => none

/-- The code point with a number, which must be one. -/
def codePoint (n : Nat) : Except Problem Nat :=
  if 0x7FFFFFFF < n then .error .characterTooLarge
  else if 0x10FFFF < n then .error .noSuchCharacter
  else .ok n

/-- The number of the given count of hexadecimal digits at the start of a text. -/
def hexNumber? : Nat → Nat → List Char → Option (Nat × List Char)
  | 0, n, s => some (n, s)
  | _ + 1, _, [] => none
  | count + 1, n, c :: rest =>
    (Text.hexValue? c).bind fun digit => hexNumber? count (16 * n + digit) rest

/-- What an escape stands for, from behind its backslash on, and what follows it. -/
def escape (s : List Char) : Except Problem (List Nat × List Char) :=
  match s with
  | [] => .error .badEscape
  | c :: rest =>
    match escaped? c, escapeLength? c with
    | some d, _ => .ok ([d.toNat], rest)
    | none, some count =>
      match hexNumber? count 0 rest with
      | none => .error .badEscape
      | some (n, rest) => do
        let code ← codePoint n
        return ([code], rest)
    | none, none =>
      match lineBreak? s with
      | some (_, rest) =>
        (quotedBreaks rest.length rest).map fun (bs, rest) => (Text.codesOf bs, rest)
      | none => .error .badEscape

/-- Puts code points in front of what was read. -/
def prepend (codes : List Nat) (r : Except Problem (List Nat × List Char)) :
    Except Problem (List Nat × List Char) :=
  r.map fun (text, rest) => (codes ++ text, rest)

/-- The code points of a quoted scalar from behind its first quote on, and what follows its last
one. -/
def quotedFrom (double : Bool) : Nat → List Char → Except Problem (List Nat × List Char)
  | 0, _ => .error .unclosedQuote
  | fuel + 1, s =>
    match s with
    | [] => .error .unclosedQuote
    | c :: rest =>
      if double && c = '"' then .ok ([], rest)
      else if double && c = '\\' then do
        let (codes, rest) ← escape rest
        prepend codes (quotedFrom double fuel rest)
      else if !double && c = '\'' then
        match rest with
        | '\'' :: rest => prepend ['\''.toNat] (quotedFrom double fuel rest)
        | _ => .ok ([], rest)
      else if isSpaceOrTab c || isBreak c then
        let blanks := s.takeWhile isSpaceOrTab
        let s := s.dropWhile isSpaceOrTab
        match lineBreak? s with
        | some (b, rest) => do
          let (bs, rest) ← quotedBreaks rest.length rest
          prepend (Text.codesOf (folded b bs)) (quotedFrom double fuel rest)
        | none => prepend (Text.codesOf blanks) (quotedFrom double fuel s)
      else prepend [c.toNat] (quotedFrom double fuel rest)

/-- A quoted scalar, from behind its first quote on: its code points and what follows it. -/
def quotedText (double : Bool) (s : List Char) : Except Problem (List Nat × List Char) :=
  quotedFrom double (s.length + 1) s

/-! ## 3. Blocks -/

/-- What becomes of the line breaks at the end of a block. -/
inductive Chomping where
  | strip
  | clip
  | keep
deriving DecidableEq, Repr

/-- The sign for the end of a block. -/
def chompingOf? : Char → Option Chomping
  | '-' => some .strip
  | '+' => some .keep
  | _ => none

/-- The digit for the indentation of a block, which is not zero. -/
def incrementOf? (c : Char) : Except Problem (Option Nat) :=
  if c.isDigit then
    if c = '0' then .error .badBlockHeader else .ok (some (c.toNat - '0'.toNat))
  else .ok none

/-- The header of a block, a sign and a digit in either order, and what follows it. -/
def blockHeader (s : List Char) : Except Problem (Chomping × Option Nat × List Char) :=
  match s with
  | [] => .ok (.clip, none, [])
  | c :: rest =>
    match chompingOf? c with
    | some chomping =>
      match rest with
      | [] => .ok (chomping, none, [])
      | d :: after => do
        match ← incrementOf? d with
        | some n => return (chomping, some n, after)
        | none => return (chomping, none, rest)
    | none => do
      match ← incrementOf? c with
      | none => return (.clip, none, s)
      | some n =>
        match rest with
        | [] => return (.clip, some n, [])
        | d :: after =>
          match chompingOf? d with
          | some chomping => return (chomping, some n, after)
          | none => return (.clip, some n, rest)

/-- What follows the rest of a line that holds at most a comment. -/
def restOfLine (problem : Problem) (s : List Char) : Except Problem (List Char) :=
  let s := skipComment (s.dropWhile (· == ' '))
  match lineBreak? s with
  | some (_, rest) => .ok rest
  | none => if s.isEmpty then .ok [] else .error problem

/-- The empty lines in front of a block: their breaks, the greatest column that spaces reach, and
what follows. `column` is the column reached so far. -/
def leadingBreaks : (column : Nat) → Nat → List Char → List Char × Nat × List Char
  | _, 0, s => ([], 0, s)
  | column, fuel + 1, s =>
    match s with
    | ' ' :: rest =>
      let (bs, most, rest) := leadingBreaks (column + 1) fuel rest
      (bs, max most (column + 1), rest)
    | _ =>
      match lineBreak? s with
      | none => ([], 0, s)
      | some (b, rest) =>
        let (bs, most, rest) := leadingBreaks 0 fuel rest
        (b :: bs, most, rest)

/-- At most the given number of spaces skipped: how many there were, and what follows. -/
def skipSpaces : Nat → List Char → Nat × List Char
  | limit + 1, ' ' :: rest =>
    let (n, rest) := skipSpaces limit rest
    (n + 1, rest)
  | _, s => (0, s)

/-- The line breaks in front of the next line of a block, the column that is reached on it, and what
follows. -/
def blockBreaks (indent : Nat) : Nat → List Char → List Char × Nat × List Char
  | 0, s => ([], 0, s)
  | fuel + 1, s =>
    let (column, s) := skipSpaces indent s
    match lineBreak? s with
    | none => ([], column, s)
    | some (b, rest) =>
      let (bs, column, rest) := blockBreaks indent fuel rest
      (b :: bs, column, rest)

/-- The lines of a block from the start of one on: the text, the line break at the end of the last
one, the breaks behind it, and what follows. -/
def blockLines (isFolded : Bool) (indent : Nat) :
    Nat → List Char → List Char × List Char × List Char × List Char
  | 0, s => ([], [], [], s)
  | fuel + 1, s =>
    let line := s.takeWhile (!isBreak ·)
    match lineBreak? (skipLine s) with
    | none => (line, [], [], [])
    | some (b, rest) =>
      let (breaks, column, next) := blockBreaks indent (rest.length + 1) rest
      if column = indent && !next.isEmpty then
        let joint :=
          if isFolded && b = '\n' && !s.head?.any isSpaceOrTab && !next.head?.any isSpaceOrTab then
            if breaks.isEmpty then [' '] else []
          else [b]
        let (text, final) := blockLines isFolded indent fuel next
        (line ++ joint ++ breaks ++ text, final)
      else (line, [b], breaks, next)

/-- A block from behind its first sign on: its text and what follows it. `parent` is the column of
the collection that holds it. -/
def blockText (isFolded : Bool) (parent : Int) (s : List Char) :
    Except Problem (List Char × List Char) := do
  let (chomping, increment, s) ← blockHeader s
  if !endsPart s then throw .badBlockHeader
  let s ← restOfLine .badBlockHeader s
  let least := max 1 (parent + 1).toNat
  let (leading, column, indent, s) :=
    match increment with
    | some n =>
      let indent := least + n - 1
      let (bs, column, rest) := blockBreaks indent (s.length + 1) s
      (bs, column, indent, rest)
    | none =>
      let (bs, most, rest) := leadingBreaks 0 (s.length + 1) s
      (bs, columnAfter s rest, max least most, rest)
  let (text, last, trailing, rest) :=
    if column = indent && !s.isEmpty then
      let (text, last, trailing, rest) := blockLines isFolded indent s.length s
      (leading ++ text, last, trailing, rest)
    else ([], [], leading, s)
  return match chomping with
    | .strip => (text, rest)
    | .clip => (text ++ last, rest)
    | .keep => (text ++ last ++ trailing, rest)

end Runbook.Yaml
