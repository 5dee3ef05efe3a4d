import Runbook.Text.Basic

/-!
# Places in a document

* `isBreak`, `lineBreak?`, `endsWord`, `isSeparator`: line breaks and what they delimit;
* `Position`: the text from a place on, with the number, line and column of its first character;
* `Position.forward`: the place some characters on;
* `gap`: the blanks, comments and line breaks in front of a token.
-/

namespace Runbook.Yaml

/-- The characters that break a line. -/
def isBreak (c : Char) : Bool :=
  c == '\r' || c == '\n' || c.toNat == 0x85 || c.toNat == 0x2028 || c.toNat == 0x2029

/-- A space or a tab. -/
def isSpaceOrTab (c : Char) : Bool :=
  c == ' ' || c == '\t'

/-- A line break at the start of a text: what it counts as, and what follows it. The two separators
of Unicode count as themselves, all others as a line feed. -/
def lineBreak? : List Char → Option (Char × List Char)
  | [] => none
  | '\r' :: '\n' :: rest => some ('\n', rest)
  | c :: rest =>
    if isBreak c then
      some (if c.toNat == 0x2028 || c.toNat == 0x2029 then c else '\n', rest)
    else none

/-- Whether a text starts with a blank or a line break, or is at its end. -/
def endsWord : List Char → Bool
  | [] => true
  | c :: _ => isSpaceOrTab c || isBreak c

/-- Whether a text starts with a line break or is at its end. -/
def endsLine : List Char → Bool
  | [] => true
  | c :: _ => isBreak c

/-- Whether a text starts with a space or a line break, or is at its end. -/
def endsPart : List Char → Bool
  | [] => true
  | c :: _ => c == ' ' || isBreak c

/-- Whether a line starts with three such characters on their own. -/
def startsMark (c : Char) (s : List Char) : Bool :=
  match Text.dropStart? [c, c, c] s with
  | some rest => endsWord rest
  | none => false

/-- Whether a line separates documents. -/
def isSeparator (s : List Char) : Bool :=
  startsMark '-' s || startsMark '.' s

/-- A text without the rest of its first line. -/
def skipLine (s : List Char) : List Char :=
  s.dropWhile (!isBreak ·)

/-- A text without a comment at its start. -/
def skipComment : List Char → List Char
  | '#' :: rest => skipLine rest
  | s => s

/-- The text of a document from a place on. -/
structure Position where
  rest : List Char
  index : Nat
  line : Nat
  column : Nat
deriving Repr

namespace Position

/-- The place behind the next character. A byte order mark takes no column, and of a carriage return
with a line feed the line feed breaks the line. -/
def next (p : Position) : Position :=
  match p.rest with
  | [] => p
  | c :: rest =>
    if isBreak c && !(c == '\r' && rest.head? == some '\n') then
      ⟨rest, p.index + 1, p.line + 1, 0⟩
    else ⟨rest, p.index + 1, p.line, if c.toNat == 0xFEFF then p.column else p.column + 1⟩

/-- The place some characters on. -/
def forward (p : Position) : Nat → Position
  | 0 => p
  | n + 1 => p.next.forward n

/-- The place at which a given end of the text starts. -/
def upTo (p : Position) (rest : List Char) : Position :=
  p.forward (p.rest.length - rest.length)

end Position

/-- How many characters come in front of the next token, and whether a line ends among them. -/
def gap (inComment : Bool) : List Char → Nat × Bool
  | [] => (0, false)
  | c :: rest =>
    if isBreak c then
      let (n, _) := gap false rest
      (n + 1, true)
    else if inComment || c = '#' then
      let (n, broken) := gap true rest
      (n + 1, broken)
    else if c = ' ' then
      let (n, broken) := gap false rest
      (n + 1, broken)
    else (0, false)

end Runbook.Yaml
