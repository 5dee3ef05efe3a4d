import Runbook.Text.Basic

/-!
# Cleansing a command

A command is stored without null characters, with single spaces for blanks, and with a backslash
before every metacharacter whose use looks suspicious:

* `normalizeBlanks`: every run of blanks as one space, none at the ends;
* `isSuspicious`: a metacharacter between its neighbours;
* `escapeMetacharacters`: the backslashes put in.

Inside quotes nothing is escaped. A backslash outside single quotes goes with the character behind
it, which keeps a second pass from escaping anything twice.
-/

namespace Runbook.Sanitize

/-! ## 1. Blanks -/

/-- The text without null characters. -/
def withoutNull (s : List Char) : List Char :=
  s.filter (· ≠ Char.ofNat 0)

/-- Every run of blanks as one space; `inRun` says whether one is under way. -/
def collapseBlanks : (inRun : Bool) → List Char → List Char
  | _, [] => []
  | inRun, c :: rest =>
    if Text.isBlank c then
      if inRun then collapseBlanks true rest else ' ' :: collapseBlanks true rest
    else c :: collapseBlanks false rest

/-- Single spaces for blanks, none at the ends. -/
def normalizeBlanks (s : List Char) : List Char :=
  Text.trim (collapseBlanks false s)

/-! ## 2. Metacharacters -/

/-- The characters that mean something to a shell outside quotes. -/
def metacharacters : List Char :=
  ";|&$`()<>".toList

/-- Whether a metacharacter looks suspicious between its neighbours: a doubled semicolon, a pipe
into a word, an ampersand on its own, a command substitution. Redirections and parentheses do not.
-/
def isSuspicious (before : Option Char) (c : Char) (after : Option Char) : Bool :=
  if c = ';' then after == some ';'
  else if c = '|' then
    if before == some '|' || after == some '|' then false
    else after == some ' ' || (after.map Text.isLetter).getD false
  else if c = '&' then before != some '&' && after != some '&'
  else if c = '$' then after == some '('
  else "`".toList.contains c

/-- The state of the scan: whether the next character is escaped, and which quotes are open. -/
structure QuoteState where
  escaped : Bool
  inSingle : Bool
  inDouble : Bool
deriving DecidableEq, Repr

/-- Outside quotes and not escaped. -/
def QuoteState.start : QuoteState := ⟨false, false, false⟩

/-- Whether the next character is read as it stands alone: neither quoted nor escaped. -/
def QuoteState.isActive (q : QuoteState) : Bool :=
  !q.escaped && !q.inSingle && !q.inDouble

/-- The state behind a character. -/
def QuoteState.next (q : QuoteState) (c : Char) : QuoteState :=
  if q.escaped then { q with escaped := false }
  else if c = '\\' ∧ q.inSingle = false then { q with escaped := true }
  else if c = '\'' ∧ q.inDouble = false then { q with inSingle := !q.inSingle }
  else if c = '"' ∧ q.inSingle = false then { q with inDouble := !q.inDouble }
  else q

/-- The text with a backslash before every active metacharacter that is suspicious; `before` is the
character in front of it. -/
def escapeFrom (before : Option Char) (q : QuoteState) : List Char → List Char
  | [] => []
  | c :: rest =>
    if q.isActive && metacharacters.contains c && isSuspicious before c rest.head? then
      '\\' :: c :: escapeFrom (some c) (q.next c) rest
    else c :: escapeFrom (some c) (q.next c) rest

/-- The text with every suspicious metacharacter escaped. -/
def escapeMetacharacters (s : List Char) : List Char :=
  escapeFrom none .start s

end Runbook.Sanitize
