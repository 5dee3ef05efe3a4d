import Runbook.Pattern.Basic

/-!
# Reading a pattern

A pattern from its text, or what is wrong with the text:

* `Problem`: a text is malformed, or it is refused for a bound or for what stands in front of it;
* `Escape`, `readEscape?`: what a backslash and the characters behind it stand for;
* `readClass?`: the inside of a character class;
* `readQuantifier`: how often an item is to be matched;
* `Modes`, `Front`, `Groups`: what the letters in front of a pattern or a group switch on, and the
  groups read so far;
* `Pattern.read`: a whole pattern, and `Pattern.ofText?` where it does not matter what is wrong.

An anchor cannot be repeated, and a repetition cannot be repeated again without a group around it. A
brace that opens no bounds stands for itself. A group that gives nothing back once it has matched is
read as any other group.
-/

namespace Runbook.Pattern

/-! ## 1. Problems -/

/-- Why a text that may be well-formed gives no pattern: a bound is too large to count up to, a bound
has more digits than a number is read from, or classes of ASCII and of all characters are both asked
for in front. -/
inductive Refusal where
  | uncountable
  | unreadable
  | contradiction
deriving DecidableEq, Repr

/-- Why a text gives no pattern. -/
inductive Problem where
  | malformed
  | refused (r : Refusal)
deriving DecidableEq, Repr

/-- What was read; if nothing was, the text is malformed. -/
def orMalformed {α : Type} : Option α → Except Problem α
  | some a => .ok a
  | none => .error .malformed

/-! ## 2. Escapes -/

/-- What an escape stands for. -/
inductive Escape where
  | char (c : Char)
  | set (s : CharSet)
  | anchor (a : Anchor)
  | again (n : Nat)
deriving DecidableEq, Repr

/-- The classes that have a letter. -/
def classLetter? : Char → Option CharSet
  | 'd' => some .digit
  | 'D' => some (.complement .digit)
  | 's' => some .blank
  | 'S' => some (.complement .blank)
  | 'w' => some .word
  | 'W' => some (.complement .word)
  | _ => none

/-- The control characters that have a letter. -/
def controlLetter? : Char → Option Char
  | 'a' => some (Char.ofNat 7)
  | 'f' => some (Char.ofNat 12)
  | 'n' => some '\n'
  | 'r' => some '\r'
  | 't' => some '\t'
  | 'v' => some (Char.ofNat 11)
  | _ => none

/-- The anchors that have a letter. -/
def anchorLetter? : Char → Option Anchor
  | 'A' => some .start
  | 'b' => some .wordEdge
  | 'B' => some .noWordEdge
  | 'Z' => some .finish
  | _ => none

/-- The value of a digit in hexadecimal. -/
def hexDigit? (c : Char) : Option Nat :=
  if c.isDigit then some (c.toNat - 48)
  else if 'a' ≤ c ∧ c ≤ 'f' then some (c.toNat - 87)
  else if 'A' ≤ c ∧ c ≤ 'F' then some (c.toNat - 55)
  else none

/-- Exactly `n` hexadecimal digits. -/
def hexDigits? : Nat → Nat → List Char → Option (Nat × List Char)
  | 0, value, s => some (value, s)
  | n + 1, value, c :: rest => (hexDigit? c).bind fun d => hexDigits? n (16 * value + d) rest
  | _ + 1, _, [] => none

/-- An octal digit. -/
def isOctal (c : Char) : Bool := '0' ≤ c && c ≤ '7'

/-- The value of octal digits. -/
def octalValue (digits : List Char) : Nat :=
  digits.foldl (fun n c => 8 * n + (c.toNat - 48)) 0

/-- A number behind a backslash that starts with a digit other than zero, outside of a class: three
octal digits are a character, and up to two digits else are a group. -/
def readReference? (c : Char) (rest : List Char) : Option (Escape × List Char) :=
  match rest with
  | d :: more =>
    if !d.isDigit then some (.again (c.toNat - 48), rest)
    else
      match more with
      | e :: left =>
        if isOctal c && isOctal d && isOctal e then
          let n := octalValue [c, d, e]
          if n ≤ 255 then some (.char (Char.ofNat n), left)
          else none
        else some (.again (10 * (c.toNat - 48) + (d.toNat - 48)), more)
      | [] => some (.again (10 * (c.toNat - 48) + (d.toNat - 48)), more)
  | [] => some (.again (c.toNat - 48), [])

/-- The escape behind a backslash, inside a class or outside of one. Letters without a meaning are
no escapes. -/
def readEscape? (inClass : Bool) : List Char → Option (Escape × List Char)
  | [] => none
  | 'x' :: rest => (hexDigits? 2 0 rest).map fun (n, rest) => (.char (Char.ofNat n), rest)
  | 'u' :: rest => (hexDigits? 4 0 rest).map fun (n, rest) => (.char (Char.ofNat n), rest)
  | 'U' :: rest => do
    let (n, rest) ← hexDigits? 8 0 rest
    if n ≤ 0x10FFFF then some (.char (Char.ofNat n), rest) else none
  | c :: rest =>
    match classLetter? c, controlLetter? c, anchorLetter? c with
    | some set, _, _ => some (.set set, rest)
    | _, some control, _ => some (.char control, rest)
    | _, _, some edge =>
      if !inClass then some (.anchor edge, rest)
      else if c = 'b' then some (.char (Char.ofNat 8), rest)
      else none
    | none, none, none =>
      if c = '0' || (inClass && isOctal c) then
        let more := (rest.take 2).takeWhile isOctal
        let value := octalValue (c :: more)
        if value ≤ 255 then some (.char (Char.ofNat value), rest.drop more.length) else none
      else if !inClass && c.isDigit then readReference? c rest
      else if c.isAlphanum then none
      else some (.char c, rest)

/-! ## 3. Classes -/

/-- One member of a class: a single character or a class with a letter. -/
def readMember? : List Char → Option (Escape × List Char)
  | [] => none
  | '\\' :: rest => readEscape? true rest
  | c :: rest => some (.char c, rest)

/-- The set of a member. -/
def memberSet : Escape → Option CharSet
  | .char c => some (.one c)
  | .set s => some s
  | .anchor _ => none
  | .again _ => none

/-- The members of a class joined to those read so far. -/
def joined : Option CharSet → CharSet → CharSet
  | none, s => s
  | some a, s => .union a s

/-- The inside of a class up to its closing bracket; a bracket that comes first is a member. -/
def readMembers? : Nat → Option CharSet → List Char → Option (CharSet × List Char)
  | 0, _, _ => none
  | fuel + 1, sofar, s =>
    match sofar, s with
    | _, [] => none
    | some set, ']' :: rest => some (set, rest)
    | sofar, s => do
      let (first, rest) ← readMember? s
      let set ← memberSet first
      match rest with
      | '-' :: ']' :: rest => some (joined (some (joined sofar set)) (.one '-'), rest)
      | '-' :: rest =>
        let (last, rest) ← readMember? rest
        match first, last with
        | .char a, .char b =>
          if a ≤ b then readMembers? fuel (some (joined sofar (.range a b))) rest else none
        | _, _ => none
      | rest => readMembers? fuel (some (joined sofar set)) rest

/-- A class behind its opening bracket. -/
def readClass? : List Char → Option (CharSet × List Char)
  | '^' :: rest =>
    (readMembers? (rest.length + 1) none rest).map fun (set, rest) => (.complement set, rest)
  | s => readMembers? (s.length + 1) none s

/-! ## 4. Quantifiers -/

/-- The value of decimal digits. -/
def decimalOf (digits : List Char) : Nat :=
  digits.foldl (fun n c => 10 * n + (c.toNat - 48)) 0

/-- The number that every bound is below. -/
def boundLimit : Nat := 4294967295

/-- The most digits that a number is read from. -/
def digitLimit : Nat := 4300

/-- A bound from its digits. -/
def readBound (digits : List Char) : Except Problem Nat :=
  if digitLimit < digits.length then .error (.refused .unreadable)
  else if boundLimit ≤ decimalOf digits then .error (.refused .uncountable)
  else .ok (decimalOf digits)

/-- What stands at a place where a quantifier may stand. -/
inductive Quantifier where
  | none
  | bounds (least : Nat) (most : Option Nat) (rest : List Char)

/-- The bounds with the given digits; without digits there is no most. A backslash that ends the text
is noticed before the bounds are. -/
def boundsOf (low high rest : List Char) : Except Problem Quantifier := do
  if rest = ['\\'] then throw .malformed
  let least ← readBound low
  if high.isEmpty then return .bounds least none rest
  let most ← readBound high
  if most < least then throw .malformed
  return .bounds least (some most) rest

/-- Bounds behind an opening brace; what is no bounds stands for itself. -/
def readBounds (s : List Char) : Except Problem Quantifier :=
  if s.head? = some '\x7d' then .ok .none
  else
    let low := s.takeWhile Char.isDigit
    let rest := s.dropWhile Char.isDigit
    let (high, rest) := match rest with
      | ',' :: rest => (rest.takeWhile Char.isDigit, rest.dropWhile Char.isDigit)
      | rest => (low, rest)
    match rest with
    | '\x7d' :: rest => boundsOf low high rest
    | _ => .ok .none

/-- A quantifier, if one stands here. -/
def readQuantifier : List Char → Except Problem Quantifier
  | '*' :: rest => .ok (.bounds 0 none rest)
  | '+' :: rest => .ok (.bounds 1 none rest)
  | '?' :: rest => .ok (.bounds 0 (some 1) rest)
  | '\x7b' :: rest => readBounds rest
  | _ => .ok .none

/-- A mark behind a quantifier says how eagerly it takes, not whether it matches. -/
def skipEagerness : List Char → List Char
  | '?' :: rest => rest
  | '+' :: rest => rest
  | s => s

/-! ## 5. Modes and groups -/

/-- What letters switch on: no difference between cases, lines as texts of their own, a point for
every character, blanks and remarks between items, and classes of ASCII. -/
structure Modes where
  caseless : Bool
  byLine : Bool
  pointForAll : Bool
  spaced : Bool
  ascii : Bool
deriving DecidableEq, Repr

/-- The modes of a pattern that asks for none. -/
def Modes.standard : Modes := ⟨false, false, false, false, false⟩

/-- The modes after one letter switches its mode. -/
def Modes.switch (m : Modes) (isOn : Bool) : Char → Option Modes
  | 'i' => some { m with caseless := isOn }
  | 'm' => some { m with byLine := isOn }
  | 's' => some { m with pointForAll := isOn }
  | 'x' => some { m with spaced := isOn }
  | 'a' => if isOn then some { m with ascii := true } else none
  | 'u' => if isOn then some { m with ascii := false } else none
  | _ => none

/-- Whether letters ask for classes of ASCII and also for classes of all characters. -/
def isContradictory (letters : List Char) : Bool := letters.contains 'a' && letters.contains 'u'

/-- The modes after letters; at most one of them says what classes are. -/
def Modes.switchAll (m : Modes) (isOn : Bool) (letters : List Char) : Option Modes :=
  if isContradictory letters then none
  else letters.foldlM (fun m c => m.switch isOn c) m

/-- Letters that switch modes on and, behind a dash, off, and what follows them. -/
def readSwitches? (m : Modes) (s : List Char) : Option (Modes × Bool × List Char) := do
  let m' ← m.switchAll true (s.takeWhile Char.isAlpha)
  match s.dropWhile Char.isAlpha with
  | '-' :: rest =>
    let off := rest.takeWhile Char.isAlpha
    if off.isEmpty || (s.takeWhile Char.isAlpha).any off.contains then none
    else return (← m'.switchAll false off, true, rest.dropWhile Char.isAlpha)
  | rest => return (m', false, rest)

/-- The set of a character in the given modes. -/
def Modes.one (m : Modes) (c : Char) : CharSet :=
  if m.caseless then .caseless (.one (Text.lowerOf c)) else .one c

/-- A class with its members in either case, where that makes no difference. -/
def Modes.inEitherCase (m : Modes) : CharSet → CharSet
  | .complement s => .complement (m.inEitherCase s)
  | s => if m.caseless then .caseless s else s

/-- The letters, digits and blanks of ASCII in the place of all. -/
def inAscii : CharSet → CharSet
  | .digit => .range '0' '9'
  | .blank => .union (.one ' ') (.range '\t' '\r')
  | .word => .union (.union (.range 'a' 'z') (.range 'A' 'Z')) (.union (.range '0' '9') (.one '_'))
  | .union a b => .union (inAscii a) (inAscii b)
  | .complement a => .complement (inAscii a)
  | .caseless a => .caseless (inAscii a)
  | s => s

/-- A class in the given modes. -/
def Modes.set (m : Modes) (s : CharSet) : CharSet :=
  m.inEitherCase (if m.ascii then inAscii s else s)

/-- What a point stands for. -/
def Modes.point (m : Modes) : CharSet :=
  if m.pointForAll then .union .notLineFeed (.one '\n') else .notLineFeed

/-- What stands in front of a pattern: the letters there, and the modes that they switch on. -/
structure Front where
  letters : List Char
  modes : Modes
deriving DecidableEq, Repr

/-- The groups read so far: how many, their names, and those that are not closed yet. -/
structure Groups where
  count : Nat
  names : List (String × Nat)
  opened : List Nat
deriving DecidableEq, Repr

/-- Whether a group can be asked for again. -/
def Groups.canAsk (g : Groups) (n : Nat) : Bool :=
  1 ≤ n && n ≤ g.count && !g.opened.contains n

/-- A new group, perhaps with a name that is not taken. -/
def Groups.open? (g : Groups) (name : Option String) : Option Groups :=
  let n := g.count + 1
  match name with
  | none => some ⟨n, g.names, n :: g.opened⟩
  | some name =>
    if g.names.any (·.1 = name) then none else some ⟨n, (name, n) :: g.names, n :: g.opened⟩

/-- A name in front of a closing sign, and what follows the sign. -/
def readName? (closing : Char) (s : List Char) : Option (String × List Char) :=
  let name := s.takeWhile Text.isWordChar
  match name, s.dropWhile Text.isWordChar with
  | c :: _, d :: rest =>
    if d = closing && !Text.isDigitLike c then some (String.ofList name, rest) else none
  | _, _ => none

/-- What an opening parenthesis opens. -/
inductive Opening where
  | group (name : Option String)
  | plain (modes : Modes)
  | around (isBehind isNegated : Bool)
  | again (name : String)
  | remark
deriving DecidableEq, Repr

/-- What the marks behind an opening parenthesis make of it, and what follows them. -/
def readOpening? (m : Modes) (s : List Char) : Option (Opening × List Char) :=
  match s with
  | '?' :: ':' :: rest => some (.plain m, rest)
  | '?' :: '>' :: rest => some (.plain m, rest)
  | '?' :: '=' :: rest => some (.around false false, rest)
  | '?' :: '!' :: rest => some (.around false true, rest)
  | '?' :: '<' :: '=' :: rest => some (.around true false, rest)
  | '?' :: '<' :: '!' :: rest => some (.around true true, rest)
  | '?' :: '#' :: rest =>
    match rest.dropWhile (· ≠ ')') with
    | _ :: rest => some (.remark, rest)
    | [] => none
  | '?' :: 'P' :: '<' :: rest =>
    (readName? '>' rest).map fun (name, rest) => (.group (some name), rest)
  | '?' :: 'P' :: '=' :: rest =>
    (readName? ')' rest).map fun (name, rest) => (.again name, rest)
  | '?' :: rest => do
    let (modes, _, rest) ← readSwitches? m rest
    match rest with
    | ':' :: rest => return (.plain modes, rest)
    | _ => none
  | rest => some (.group none, rest)

/-! ## 6. Sequences and alternatives -/

/-- An item of a sequence, and whether it can be repeated. -/
inductive Item where
  | single (p : Pattern)
  | fixed (p : Pattern)

/-- The pattern of an item. -/
def Item.pattern : Item → Pattern
  | .single p => p
  | .fixed p => p

/-- The pattern of items that were read in reverse. -/
def patternOf (items : List Item) : Pattern :=
  sequence (items.reverse.map Item.pattern)

/-- An assertion about the text around a position. -/
def around (isBehind isNegated : Bool) (p : Pattern) : Pattern :=
  if isBehind then .behind isNegated (widths p).1 p else .ahead isNegated p

/-- Whether all that is asserted of the text in front of a position has one width. -/
def isMeasured : Pattern → Bool
  | .seq p q => isMeasured p && isMeasured q
  | .alt p q => isMeasured p && isMeasured q
  | .repeated p _ _ => isMeasured p
  | .ahead _ p => isMeasured p
  | .behind _ width p => widths p = (width, some width) && isMeasured p
  | .group _ p => isMeasured p
  | _ => true

/-- Whether a character is blank where blanks are passed over. -/
def isPassedOver (c : Char) : Bool := " \t\n\r\x0b\x0c".toList.contains c

/-- A pattern that was read, the groups up to there, and what follows. -/
abbrev Reading := Except Problem (Pattern × Groups × List Char)

mutual

/-- Alternatives up to a closing parenthesis or the end. -/
def readAlternatives (m : Modes) : Nat → Groups → List Char → Reading
  | 0, _, _ => .error .malformed
  | fuel + 1, g, s => do
    let (p, g, rest) ← readSequence m fuel g [] s
    match rest with
    | '|' :: rest =>
      let (q, g, rest) ← readAlternatives m fuel g rest
      return (.alt p q, g, rest)
    | rest => return (p, g, rest)

/-- The items of a sequence, those read so far in reverse. -/
def readSequence (m : Modes) : Nat → Groups → List Item → List Char → Reading
  | 0, _, _, _ => .error .malformed
  | fuel + 1, g, items, s => do
    match ← readQuantifier s with
    | .bounds least most rest =>
      match items with
      | .single p :: before =>
        readSequence m fuel g (.fixed (.repeated p least most) :: before) (skipEagerness rest)
      | _ => .error .malformed
    | .none =>
      match s with
      | [] => return (patternOf items, g, [])
      | '|' :: _ => return (patternOf items, g, s)
      | ')' :: _ => return (patternOf items, g, s)
      | '.' :: rest => readSequence m fuel g (.single (.char m.point) :: items) rest
      | '^' :: rest =>
        let anchor := if m.byLine then Anchor.everyLineStart else .start
        readSequence m fuel g (.fixed (.anchor anchor) :: items) rest
      | '$' :: rest =>
        let anchor := if m.byLine then Anchor.everyLineEnd else .lineEnd
        readSequence m fuel g (.fixed (.anchor anchor) :: items) rest
      | '[' :: rest =>
        let (set, rest) ← orMalformed (readClass? rest)
        readSequence m fuel g (.single (.char (m.set set)) :: items) rest
      | '(' :: rest =>
        let (opening, rest) ← orMalformed (readOpening? m rest)
        readGroup m fuel g items opening rest
      | '\\' :: rest =>
        let (escape, rest) ← orMalformed (readEscape? false rest)
        match escape with
        | .char c => readSequence m fuel g (.single (.char (m.one c)) :: items) rest
        | .set set => readSequence m fuel g (.single (.char (m.set set)) :: items) rest
        | .anchor a => readSequence m fuel g (.fixed (.anchor a) :: items) rest
        | .again n =>
          if g.canAsk n then readSequence m fuel g (.single (.again n) :: items) rest
          else .error .malformed
      | c :: rest =>
        if m.spaced && c = '#' then readSequence m fuel g items (rest.dropWhile (· ≠ '\n'))
        else if m.spaced && isPassedOver c then readSequence m fuel g items rest
        else readSequence m fuel g (.single (.char (m.one c)) :: items) rest

/-- What is opened, up to its closing parenthesis, and the items behind it. -/
def readGroup (m : Modes) : Nat → Groups → List Item → Opening → List Char → Reading
  | 0, _, _, _, _ => .error .malformed
  | fuel + 1, g, items, opening, s =>
    match opening with
    | .remark => readSequence m fuel g items s
    | .again name => do
      let (_, n) ← orMalformed (g.names.find? fun entry => entry.1 = name)
      if g.canAsk n then readSequence m fuel g (.single (.again n) :: items) s
      else .error .malformed
    | .plain modes => do
      let (p, g, rest) ← readAlternatives modes fuel g s
      match rest with
      | ')' :: rest => readSequence m fuel g (.single p :: items) rest
      | _ => .error .malformed
    | .around isBehind isNegated => do
      let (p, g, rest) ← readAlternatives m fuel g s
      match rest with
      | ')' :: rest =>
        readSequence m fuel g (.single (around isBehind isNegated p) :: items) rest
      | _ => .error .malformed
    | .group name => do
      let opened ← orMalformed (g.open? name)
      let (p, g, rest) ← readAlternatives m fuel opened s
      match rest with
      | ')' :: rest =>
        let g := { g with opened := g.opened.filter (· ≠ opened.count) }
        readSequence m fuel g (.single (.group opened.count p) :: items) rest
      | _ => .error .malformed

end

/-- The letters in front of a whole pattern with the modes that they switch on, and what follows
them; remarks there are passed over, and so are blanks once a letter says so. -/
def readFront? : Nat → Front → List Char → Option (Front × List Char)
  | 0, f, s => some (f, s)
  | fuel + 1, f, s =>
    match s with
    | '(' :: '?' :: rest =>
      match rest with
      | '#' :: remark =>
        match remark.dropWhile (· ≠ ')') with
        | _ :: rest => readFront? fuel f rest
        | [] => none
      | c :: _ =>
        if !c.isAlpha || c = 'P' then some (f, s)
        else do
          let (modes, isOff, left) ← readSwitches? f.modes rest
          match isOff, left with
          | false, ')' :: left =>
            readFront? fuel ⟨f.letters ++ rest.takeWhile Char.isAlpha, modes⟩ left
          | _, _ => some (f, s)
      | [] => some (f, s)
    | c :: rest =>
      if f.modes.spaced && c = '#' then readFront? fuel f (rest.dropWhile (· ≠ '\n'))
      else if f.modes.spaced && isPassedOver c then readFront? fuel f rest
      else some (f, s)
    | [] => some (f, [])

/-- The pattern that a text writes. Every call reads a character or ends a sequence or a group, so
three times as many units of fuel as characters are enough. What stands in front is held against the
text only when its parentheses are known to be closed, and the widths only when all else is right. -/
def read (s : String) : Except Problem Pattern := do
  let (front, text) ← orMalformed (readFront? (s.length + 1) ⟨[], .standard⟩ s.toList)
  let (p, _, rest) ← readAlternatives front.modes (3 * text.length + 3) ⟨0, [], []⟩ text
  if isContradictory front.letters then throw (.refused .contradiction)
  if !rest.isEmpty || !isMeasured p then throw .malformed
  return p

/-- The pattern that a text writes, if it writes one. -/
def ofText? (s : String) : Option Pattern := (read s).toOption

/-- A pattern that is known to be one; what is none matches nothing. -/
def ofKnownText (s : String) : Pattern :=
  (ofText? s).getD (.char (.complement (.union .notLineFeed (.one '\n'))))

end Runbook.Pattern
