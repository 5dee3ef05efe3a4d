import Runbook.Yaml.Token.Name

/-!
# Cutting a document into tokens

The columns of collections in block style are kept on a stack, and a collection ends where a line
starts to the left of its column. A key in front of a colon is known to be one only when the colon
is read, so each place where a key may have started is remembered until the line ends:

* `KeyPlace`: such a place;
* `Lexer`: the state between two tokens;
* `Lexer.step`: the next token, with the tokens that come in front of it;
* `Token.ofText`: the tokens of a document.
-/

namespace Runbook.Yaml

/-- A place where a key may have started: how many tokens came before it, and whether nothing but a
key may stand there. -/
structure KeyPlace where
  number : Nat
  required : Bool
  index : Nat
  line : Nat
  column : Nat
deriving Repr

/-- The greatest length of a key on one line with its colon. -/
def maxKeyLength : Nat := 1024

/-- Whether no key can have started at a place any more: its line has ended, or it is too far back.
-/
def KeyPlace.isStale (k : KeyPlace) (here : Position) : Bool :=
  k.line ≠ here.line || maxKeyLength < here.index - k.index

/-- The state between two tokens. `flow` is the number of open brackets, `indent` the column of the
innermost block collection, `indents` those around it, and `keys` the places of possible keys by the
number of brackets around them. -/
structure Lexer where
  place : Position
  flow : Nat
  indent : Int
  indents : List Int
  keyAllowed : Bool
  keys : List (Nat × KeyPlace)
  tokens : Array Token

namespace Lexer

/-! ## 1. Parts of a step -/

/-- Adds a token. -/
def emit (l : Lexer) (t : Token) : Lexer :=
  { l with tokens := l.tokens.push t }

/-- Goes on with the given end of the text. -/
def upTo (l : Lexer) (rest : List Char) : Lexer :=
  { l with place := l.place.upTo rest }

/-- Goes on some characters later. -/
def forward (l : Lexer) (n : Nat) : Lexer :=
  { l with place := l.place.forward n }

/-- Passes over what stands in front of the next token. A new line allows a key outside brackets. -/
def skipGap (l : Lexer) : Lexer :=
  let isMarked := l.place.index = 0 && l.place.rest.head?.any (·.toNat == 0xFEFF)
  let l := if isMarked then l.forward 1 else l
  let (n, broken) := gap false l.place.rest
  { l.forward n with keyAllowed := l.keyAllowed || (broken && l.flow = 0) }

/-- Forgets the places of keys whose line has ended or that are too far back. -/
def dropStaleKeys (l : Lexer) : Except Problem Lexer :=
  if l.keys.any fun k => k.2.isStale l.place && k.2.required then .error .keyWithoutColon
  else .ok { l with keys := l.keys.filter fun k => !k.2.isStale l.place }

/-- Closes the block collections to the right of a column; `stack` is the stack of columns. -/
def closeBlocks (column : Int) (l : Lexer) : (stack : List Int) → Lexer
  | [] => l
  | outer :: stack =>
    if column < l.indent then
      closeBlocks column { l.emit .blockEnd with indent := outer, indents := stack } stack
    else l

/-- Closes the block collections to the right of a column; between brackets columns do not count. -/
def unwind (l : Lexer) (column : Int) : Lexer :=
  if l.flow ≠ 0 then l else closeBlocks column l l.indents

/-- Forgets the place of a key between the brackets that are open now. -/
def removeKey (l : Lexer) : Except Problem Lexer :=
  if l.keys.any fun k => k.1 = l.flow && k.2.required then .error .keyWithoutColon
  else .ok { l with keys := l.keys.filter fun k => k.1 ≠ l.flow }

/-- Remembers that a key may start here. -/
def saveKey (l : Lexer) : Except Problem Lexer :=
  if l.keyAllowed then do
    let required := l.flow = 0 && l.indent == (l.place.column : Int)
    let k : KeyPlace :=
      ⟨l.tokens.size, required, l.place.index, l.place.line, l.place.column⟩
    let l ← l.removeKey
    return { l with keys := (l.flow, k) :: l.keys }
  else .ok l

/-- Opens a block collection at a column, unless one is open there, and says whether it did. -/
def openBlock (l : Lexer) (column : Nat) : Lexer × Bool :=
  if l.indent < (column : Int) then
    ({ l with indent := column, indents := l.indent :: l.indents }, true)
  else (l, false)

/-- Opens a block collection here, its start a token in front of the next one. -/
def openBlockHere (l : Lexer) (start : Token) : Lexer :=
  match l.openBlock l.place.column with
  | (l, true) => l.emit start
  | (l, false) => l

/-! ## 2. Tokens -/

/-- The start or the end of a document; all block collections end. -/
def documentMark (l : Lexer) (t : Token) : Except Problem Lexer := do
  let l ← (l.unwind (-1)).removeKey
  return { (l.emit t).forward 3 with keyAllowed := false }

/-- A directive. -/
def directiveLine (l : Lexer) : Except Problem Lexer := do
  let l ← (l.unwind (-1)).removeKey
  let (d, rest) ← directive (l.place.rest.drop 1)
  return { (l.emit (.directive d)).upTo rest with keyAllowed := false }

/-- An opening bracket, which may be the start of a key. -/
def openBracket (l : Lexer) (t : Token) : Except Problem Lexer := do
  let l ← l.saveKey
  return { (l.emit t).forward 1 with flow := l.flow + 1, keyAllowed := true }

/-- A closing bracket. -/
def closeBracket (l : Lexer) (t : Token) : Except Problem Lexer := do
  let l ← l.removeKey
  return { (l.emit t).forward 1 with flow := l.flow - 1, keyAllowed := false }

/-- A comma between brackets. -/
def comma (l : Lexer) : Except Problem Lexer := do
  let l ← l.removeKey
  return { (l.emit .flowEntry).forward 1 with keyAllowed := true }

/-- The dash of an entry. -/
def dash (l : Lexer) : Except Problem Lexer := do
  if l.flow = 0 && !l.keyAllowed then throw .entryNotAllowed
  let l := if l.flow = 0 then l.openBlockHere .blockSequenceStart else l
  let l ← l.removeKey
  return { (l.emit .blockEntry).forward 1 with keyAllowed := true }

/-- The question mark of a key. -/
def question (l : Lexer) : Except Problem Lexer := do
  if l.flow = 0 && !l.keyAllowed then throw .keyNotAllowed
  let l := if l.flow = 0 then l.openBlockHere .blockMappingStart else l
  let l ← l.removeKey
  return { (l.emit .key).forward 1 with keyAllowed := l.flow = 0 }

/-- The colon of a value. If a key has started on the line, its token and that of a mapping which it
opens are put in front of it. -/
def colon (l : Lexer) : Except Problem Lexer :=
  match l.keys.find? fun k => k.1 = l.flow with
  | some (_, k) =>
    let l := { l with keys := l.keys.filter fun k => k.1 ≠ l.flow, keyAllowed := false,
                      tokens := l.tokens.insertIdxIfInBounds k.number .key }
    let l :=
      if l.flow = 0 then
        match l.openBlock k.column with
        | (l, true) =>
          { l with tokens := l.tokens.insertIdxIfInBounds k.number .blockMappingStart }
        | (l, false) => l
      else l
    .ok ((l.emit .value).forward 1)
  | none => do
    if l.flow = 0 && !l.keyAllowed then throw .valueNotAllowed
    let l := if l.flow = 0 then l.openBlockHere .blockMappingStart else l
    let l ← l.removeKey
    return { (l.emit .value).forward 1 with keyAllowed := l.flow = 0 }

/-- A token that may be the start of a key, given with what follows it. -/
def keyToken (l : Lexer) (t : Token) (rest : List Char) : Except Problem Lexer := do
  let l ← l.saveKey
  return { (l.emit t).upTo rest with keyAllowed := false }

/-- A block of lines as a scalar. -/
def block (l : Lexer) (isFolded : Bool) : Except Problem Lexer := do
  let l ← l.removeKey
  let (text, rest) ← blockText isFolded l.indent (l.place.rest.drop 1)
  return { (l.emit (.scalar (Text.codesOf text) false)).upTo rest with keyAllowed := true }

/-- A quoted scalar. -/
def quote (l : Lexer) (double : Bool) : Except Problem Lexer := do
  let (codes, rest) ← quotedText double (l.place.rest.drop 1)
  l.keyToken (.scalar codes false) rest

/-- Whether a plain scalar can start with a character in front of a text. -/
def startsPlain (inFlow : Bool) (c : Char) (rest : List Char) : Bool :=
  !(isSpaceOrTab c || isBreak c || "-?:,[]\x7b\x7d#&*!|>'\"%@`".toList.contains c) ||
    (!endsWord rest && (c == '-' || (!inFlow && (c == '?' || c == ':'))))

/-- A plain scalar. It allows a key behind it if a line ends with it. -/
def plain (l : Lexer) : Except Problem Lexer := do
  let (text, rest, broken) := plainText (l.flow ≠ 0) (l.indent + 1) l.place.rest
  let l ← l.keyToken (.scalar (Text.codesOf text) true) rest
  return { l with keyAllowed := broken }

/-! ## 3. Steps -/

/-- The token that starts with `c`, the next character of the text. -/
def token (l : Lexer) (c : Char) (rest : List Char) : Except Problem Lexer :=
  let atLineStart := l.place.column = 0
  let inFlow := l.flow ≠ 0
  if c = '%' && atLineStart then l.directiveLine
  else if atLineStart && startsMark '-' (c :: rest) then l.documentMark .documentStart
  else if atLineStart && startsMark '.' (c :: rest) then l.documentMark .documentEnd
  else if c = '[' then l.openBracket .flowSequenceStart
  else if c = '\x7b' then l.openBracket .flowMappingStart
  else if c = ']' then l.closeBracket .flowSequenceEnd
  else if c = '\x7d' then l.closeBracket .flowMappingEnd
  else if c = ',' then l.comma
  else if c = '-' && endsWord rest then l.dash
  else if c = '?' && (inFlow || endsWord rest) then l.question
  else if c = ':' && (inFlow || endsWord rest) then l.colon
  else if c = '*' then do
    let (name, rest) ← anchorName rest
    l.keyToken (.alias name) rest
  else if c = '&' then do
    let (name, rest) ← anchorName rest
    l.keyToken (.anchor name) rest
  else if c = '!' then do
    let (t, rest) ← tagText (c :: rest)
    l.keyToken (.tag t) rest
  else if c = '|' && !inFlow then l.block false
  else if c = '>' && !inFlow then l.block true
  else if c = '\'' then l.quote false
  else if c = '"' then l.quote true
  else if startsPlain inFlow c rest then l.plain
  else .error .strayCharacter

/-- The next token, with the ends of the collections in front of it; `none` at the end of the text,
once all collections have ended. -/
def step (l : Lexer) : Except Problem (Lexer × Bool) := do
  let l ← l.skipGap.dropStaleKeys
  match l.place.rest with
  | [] =>
    let l ← (l.unwind (-1)).removeKey
    return (l, true)
  | c :: rest =>
    let l ← (l.unwind l.place.column).token c rest
    return (l, false)

/-- How many tokens are settled: those in front of every place where a key may have started. -/
def settled (l : Lexer) : Nat :=
  (l.keys.filter fun k => !k.2.isStale l.place).foldl (fun n k => min n k.2.number) l.tokens.size

/-- The tokens from a state on that are settled before something is wrong, and what is wrong. -/
def run : Nat → Lexer → List Token × Option Problem
  | 0, l => (l.tokens.toList, none)
  | fuel + 1, l =>
    match l.step with
    | .error problem => (l.tokens.toList.take l.settled, some problem)
    | .ok (l, true) => (l.tokens.toList, none)
    | .ok (l, false) => run fuel l

/-- The state in front of the first token. -/
def start (text : List Char) : Lexer :=
  ⟨⟨text, 0, 0, 0⟩, 0, -1, [], true, [], #[]⟩

end Lexer

/-- The tokens of a document that are settled before the first place that is no token, and what is
wrong there. Each step reads a character, so one step for each and a last one are enough. -/
def Token.ofText (text : List Char) : List Token × Option Problem :=
  (Lexer.start text).run (text.length + 1)

end Runbook.Yaml
