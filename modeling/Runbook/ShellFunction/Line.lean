import Runbook.Text.Basic

/-!
# Lines of a shell function

A body is read line by line, and one line is recognised as a whole. Each function here says what
kind a trimmed line is and takes it apart:

* `isOneLine`: a whole conditional, loop or choice on one line;
* `inlineCondition?`, `forHead?`, `whileHead?`, `caseSelector?`: the first lines of compounds;
* `inlineArm?`: an arm with its command on one line;
* `assignment?`, `localAssignment`: assignments;
* `unquote`: a value without the quotes around it.
-/

namespace Runbook.ShellFunction

/-- A line, trimmed. -/
abbrev Line := List Char

/-- The trimmed lines of a body. -/
def linesOfBody (body : String) : List Line :=
  (Text.linesOf body.toList).map Text.trim

/-! ## 1. Ends of a line -/

/-- What comes before a semicolon and the keyword that end a line, blanks between them allowed. -/
def beforeClosing? (keyword s : List Char) : Option (List Char) :=
  (Text.dropEnd? keyword s).bind fun t => Text.dropEnd? [';'] (Text.trimRight t)

/-- The text without the quotes around it, if it stands in quotes of one kind. -/
def unquote (s : List Char) : List Char :=
  match Text.trim s with
  | q :: rest =>
    if q = '"' || q = '\'' then
      match Text.dropEnd? [q] rest with
      | some inner => inner
      | none => q :: rest
    else q :: rest
  | [] => []

/-- The text without the blanks at its ends; of a text of blanks alone the last one is kept. -/
def trimKeepingOne (s : List Char) : List Char :=
  match Text.trim s with
  | [] => (s.getLast?).toList
  | t => t

/-- The text without one character at its start, if it is there. -/
def dropOptional (c : Char) : List Char → List Char
  | [] => []
  | d :: rest => if d = c then rest else d :: rest

/-- The characters of a name at the start of a text, at least one, and what follows them. -/
def takeName? (s : List Char) : Option (List Char × List Char) :=
  match s.takeWhile Text.isWordChar with
  | [] => none
  | name => some (name, s.dropWhile Text.isWordChar)

/-! ## 2. Compounds on one line -/

/-- Whether the line is a conditional or a loop from its keyword to its end. -/
def isOneLineOf (keyword : List Char) (line : Line) : Bool :=
  match Text.dropStart? keyword line with
  | some (b :: rest) =>
    Text.isBlank b &&
      ((beforeClosing? "fi".toList rest).isSome || (beforeClosing? "done".toList rest).isSome)
  | _ => false

/-- Whether the line is a choice from its keyword to its end. -/
def isOneLineCase (line : Line) : Bool :=
  match Text.dropStart? "case".toList line with
  | some (b :: rest) =>
    Text.isBlank b &&
      match Text.dropEnd? "esac".toList rest with
      | some inner => !((b :: inner).getLast?.any Text.isWordChar)
      | none => false
  | _ => false

/-- Whether a compound stands on one line. -/
def isOneLine (line : Line) : Bool :=
  isOneLineOf "if".toList line || isOneLineOf "for".toList line ||
    isOneLineOf "while".toList line || isOneLineCase line

/-! ## 3. First lines of compounds -/

/-- The condition of a conditional whose first line ends with its `then`. -/
def inlineCondition? (line : Line) : Option (List Char) :=
  (Text.dropStart? "if".toList line).bind fun r =>
    (beforeClosing? "then".toList r).bind fun x =>
      match x with
      | [] => none
      | b :: rest => if Text.isBlank b && !rest.isEmpty then some (trimKeepingOne rest) else none

/-- What a loop goes over or goes by, and whether its first line ends with its `do`. -/
def loopHead (s : List Char) : List Char × Bool :=
  match beforeClosing? "do".toList s with
  | some (c :: rest) => (Text.trimRight (c :: rest), true)
  | _ => (s, false)

/-- The variable and the items of a loop over items, and whether its first line ends with `do`. -/
def forHead? (line : Line) : Option (List Char × List Char × Bool) :=
  ((Text.dropStart? "for".toList line).bind Text.skipBlanks?).bind fun r =>
    (takeName? r).bind fun (name, r) =>
      ((Text.skipBlanks? r).bind fun r =>
        (Text.dropStart? "in".toList r).bind Text.skipBlanks?).bind fun items =>
          if items.isEmpty then none else some (name, loopHead items)

/-- The condition of a loop by a condition, and whether its first line ends with `do`. -/
def whileHead? (line : Line) : Option (List Char × Bool) :=
  ((Text.dropStart? "while".toList line).bind Text.skipBlanks?).bind fun condition =>
    if condition.isEmpty then none else some (loopHead condition)

/-- The variable that a choice goes by. It may have a dollar sign, braces and quotes. -/
def caseSelector? (line : Line) : Option (List Char) :=
  ((Text.dropStart? "case".toList line).bind Text.skipBlanks?).bind fun r =>
    (takeName? (dropOptional '\x7b' (dropOptional '$' (dropOptional '"' r)))).bind fun (name, r) =>
      if Text.skipBlanks? (dropOptional '"' (dropOptional '\x7d' r)) = some "in".toList then
        some name
      else none

/-! ## 4. Arms and assignments -/

/-- Whether a character can stand in the pattern of an arm on one line. -/
def isPatternChar (c : Char) : Bool :=
  !Text.isBlank c && c ≠ '(' && c ≠ ')'

/-- The pattern and the command of an arm on one line. -/
def inlineArm? (line : Line) : Option (List Char × List Char) :=
  match line.takeWhile isPatternChar, line.dropWhile isPatternChar with
  | [], _ => none
  | p, ')' :: rest =>
    match Text.dropEnd? ";;".toList rest with
    | some (c :: text) => some (p, trimKeepingOne (c :: text))
    | _ => none
  | _, _ => none

/-- Whether a value stands in quotes as a whole, with no such quote inside. -/
def isQuotedBy (q : Char) : List Char → Bool
  | [] => false
  | c :: rest =>
    c == q && match Text.dropEnd? [q] rest with
      | some inner => !inner.contains q
      | none => false

/-- The name and the value of an assignment: the value stands in quotes or has no blanks. -/
def assignment? (line : Line) : Option (List Char × List Char) :=
  match line with
  | [] => none
  | c :: rest =>
    if Text.isIdentStart c then
      match rest.dropWhile Text.isWordChar with
      | '=' :: value =>
        if isQuotedBy '"' value || isQuotedBy '\'' value || value.all (!Text.isBlank ·) then
          some (c :: rest.takeWhile Text.isWordChar, unquote value)
        else none
      | _ => none
    else none

/-- The name and the value of a local declaration, given without its keyword; without an equals sign
the value is empty. -/
def localAssignment (s : List Char) : List Char × List Char :=
  let declaration := Text.trim s
  match declaration.dropWhile (· ≠ '=') with
  | _ :: value => (Text.trim (declaration.takeWhile (· ≠ '=')), unquote value)
  | [] => (declaration, [])

end Runbook.ShellFunction
