import Runbook.ShellFunction.Line
import Runbook.ShellFunction.Statement

/-!
# Reading blocks of a shell function

Statements are read line by line. The keywords of a compound stand on lines of their own; `then` and
`do` may also end the line before.

* `ReadError`: why a body cannot be read, with its wording;
* `BlockKind`, `Ending`, `endingOf?`: where a block stands, and the lines that end it there;
* `readBlock`, `readStatement` and their companions: each answers what it read and the lines left,
  which are fewer;
* `Statement.ofText`: the statements of a body.
-/

namespace Runbook.ShellFunction

/-! ## 1. Errors -/

/-- Why a body cannot be read; each names the first line of the compound that is at fault. -/
inductive ReadError where
  | malformedIf (header : Line)
  | missingFi (header : Line)
  | invalidCase (header : Line)
  | missingEsac (header : Line)
  | invalidFor (header : Line)
  | invalidWhile (header : Line)
  | missingDo (keyword : String) (header : Line)
  | missingDone (header : Line)
deriving DecidableEq, Repr

/-- The wording of an error. -/
def ReadError.message : ReadError → String
  | .malformedIf header => "Malformed if statement: " ++ String.ofList header
  | .missingFi header => "Missing 'fi' for: " ++ String.ofList header
  | .invalidCase header => "Invalid case statement: " ++ String.ofList header
  | .missingEsac header => "Missing 'esac' for: " ++ String.ofList header
  | .invalidFor header => "Invalid for loop: " ++ String.ofList header
  | .invalidWhile header => "Invalid while loop: " ++ String.ofList header
  | .missingDo keyword header => "Missing 'do' in " ++ keyword ++ " loop: " ++ String.ofList header
  | .missingDone header => "Missing 'done' for: " ++ String.ofList header

/-! ## 2. Where blocks end -/

/-- Where a block stands. -/
inductive BlockKind where
  | body
  | thenBlock
  | elseBlock
  | arm
  | loopBody
deriving DecidableEq, Repr

/-- The line that ends a block. The end of an arm may follow a last command, and the line that goes
on with another condition is the first line of a conditional of its own. -/
inductive Ending where
  | otherwise
  | otherwiseIf (header : Line)
  | fi
  | armEnd (command : List Char)
  | esac
  | done
deriving DecidableEq, Repr

/-- How a line ends a block of the given kind, if it does. -/
def endingOf? (kind : BlockKind) (line : Line) : Option Ending :=
  match kind with
  | .body => none
  | .thenBlock =>
    if line = "else".toList then some .otherwise
    else if line = "fi".toList then some .fi
    else if line = "elif".toList || Text.startsWith "elif ".toList line then
      some (.otherwiseIf (line.drop 2))
    else none
  | .elseBlock => if line = "fi".toList then some .fi else none
  | .arm =>
    match Text.dropEnd? ";;".toList line with
    | some text => some (.armEnd (Text.trim text))
    | none => if line = "esac".toList then some .esac else none
  | .loopBody => if line = "done".toList then some .done else none

/-- The statements that an ending line brings itself. -/
def Ending.statements : Ending → List Statement
  | .armEnd (c :: text) => [.command (String.ofList (c :: text))]
  | .armEnd [] => []
  | .otherwise => []
  | .otherwiseIf _ => []
  | .fi => []
  | .esac => []
  | .done => []

/-! ## 3. What a reader answers -/

/-- A block and the lines behind the line that ended it; without such a line none are left. -/
structure Block (lines : List Line) where
  statements : List Statement
  ending : Option Ending
  rest : List Line
  rest_le : rest.length ≤ lines.length
  rest_lt : ending.isSome → rest.length < lines.length

/-- What was read, and the lines left: at most those that were there. -/
structure Reading (α : Type) (lines : List Line) where
  value : α
  rest : List Line
  rest_le : rest.length ≤ lines.length

/-- The block with a statement in front, read from lines of which the block's are an end. -/
def Block.after {lines : List Line} (s : List Statement) (b : Block lines) (all : List Line)
    (h : lines.length ≤ all.length) : Block all :=
  ⟨s ++ b.statements, b.ending, b.rest, Nat.le_trans b.rest_le h,
    fun e => Nat.lt_of_lt_of_le (b.rest_lt e) h⟩

/-- The reading with another value, read from lines of which the reading's are an end. -/
def Reading.after {α β : Type} {lines : List Line} (f : α → β) (r : Reading α lines)
    (all : List Line) (h : lines.length ≤ all.length) : Reading β all :=
  ⟨f r.value, r.rest, Nat.le_trans r.rest_le h⟩

/-- The lines of the body of a loop, whose `do` may have a line of its own. -/
def loopBody? (inlineDo : Bool) (lines : List Line) :
    Option {body : List Line // body.length ≤ lines.length} :=
  if inlineDo then some ⟨lines, Nat.le_refl _⟩
  else
    match lines with
    | [] => none
    | line :: rest => if line = "do".toList then some ⟨rest, by simp⟩ else none

/-- The condition of a conditional and the lines behind its `then`, which may have a line of its
own. -/
def thenBlock? (header : Line) (lines : List Line) :
    Option (List Char × {body : List Line // body.length ≤ lines.length}) :=
  match inlineCondition? header with
  | some condition => some (condition, ⟨lines, Nat.le_refl _⟩)
  | none =>
    match lines with
    | [] => none
    | line :: rest =>
      if line = "then".toList then some (Text.trim (header.drop 3), ⟨rest, by simp⟩) else none

/-- The text of the lines read between two points, blank lines left out. -/
def sourceBetween (lines rest : List Line) : String :=
  Text.joinWith "\n" (((lines.take (lines.length - rest.length)).filter (!·.isEmpty)).map
    String.ofList)

/-- The statement of a line that starts no compound. -/
def simpleStatement (line : Line) : Statement :=
  match Text.dropStart? "local ".toList line with
  | some declaration =>
    let (name, value) := localAssignment declaration
    .assignment (String.ofList name) (String.ofList value) true
  | none =>
    match assignment? line with
    | some (name, value) => .assignment (String.ofList name) (String.ofList value) false
    | none => .command (String.ofList line)

/-- Whether a line is skipped: it is blank or a comment. -/
def isSkipped (line : Line) : Bool :=
  line.isEmpty || Text.startsWith ['#'] line

/-! ## 4. Readers -/

mutual

/-- A block of the given kind. -/
def readBlock (kind : BlockKind) (lines : List Line) : Except ReadError (Block lines) :=
  match lines with
  | [] => .ok ⟨[], none, [], Nat.le_refl _, by simp⟩
  | line :: rest =>
    match endingOf? kind line with
    | some ending => .ok ⟨ending.statements, some ending, rest, by simp, by simp⟩
    | none =>
      if isSkipped line then do
        let b ← readBlock kind rest
        return b.after [] (line :: rest) (by simp)
      else do
        let r ← readStatement line rest
        let b ← readBlock kind r.rest
        return b.after [r.value] (line :: rest) (Nat.le_succ_of_le r.rest_le)
termination_by 3 * lines.length
decreasing_by
  · simp only [List.length_cons]; omega
  · simp only [List.length_cons]; omega
  · have := r.rest_le; simp only [List.length_cons]; omega

/-- A statement from its first line on, `rest` being the lines behind that. -/
def readStatement (line : Line) (rest : List Line) : Except ReadError (Reading Statement rest) :=
  if isOneLine line then .ok ⟨.command (String.ofList line), rest, Nat.le_refl _⟩
  else if Text.startsWith "if ".toList line then readConditional line rest
  else if Text.startsWith "case ".toList line then
    match caseSelector? line with
    | none => .error (.invalidCase line)
    | some selector => do
      let r ← readArms line rest
      return r.after (.choice (String.ofList selector)) rest (Nat.le_refl _)
  else if Text.startsWith "for ".toList line then
    match forHead? line with
    | none => .error (.invalidFor line)
    | some (name, items, inlineDo) =>
      match loopBody? inlineDo rest with
      | none => .error (.missingDo "for" line)
      | some ⟨body, h⟩ => do
        let b ← readBlock .loopBody body
        match b.ending with
        | none => .error (.missingDone line)
        | some _ =>
          return ⟨.forLoop (String.ofList name) (String.ofList items)
              (sourceBetween (line :: rest) b.rest) b.statements,
            b.rest, Nat.le_trans b.rest_le h⟩
  else if Text.startsWith "while ".toList line then
    match whileHead? line with
    | none => .error (.invalidWhile line)
    | some (condition, inlineDo) =>
      match loopBody? inlineDo rest with
      | none => .error (.missingDo "while" line)
      | some ⟨body, h⟩ => do
        let b ← readBlock .loopBody body
        match b.ending with
        | none => .error (.missingDone line)
        | some _ =>
          return ⟨.whileLoop (String.ofList condition) b.statements, b.rest,
            Nat.le_trans b.rest_le h⟩
  else .ok ⟨simpleStatement line, rest, Nat.le_refl _⟩
termination_by 3 * rest.length + 2

/-- A conditional with the given first line. A further condition makes a conditional of its own in
the other block, which ends where the whole ends. -/
def readConditional (header : Line) (rest : List Line) :
    Except ReadError (Reading Statement rest) :=
  match thenBlock? header rest with
  | none => .error (.malformedIf header)
  | some (condition, ⟨body, h⟩) => do
    let t ← readBlock .thenBlock body
    match _he : t.ending with
    | some (.otherwiseIf next) =>
      let r ← readConditional next t.rest
      return r.after (fun nested => .conditional (String.ofList condition) t.statements
        (some [nested])) rest (Nat.le_trans t.rest_le h)
    | some .otherwise =>
      let e ← readBlock .elseBlock t.rest
      match e.ending with
      | none => .error (.missingFi header)
      | some _ =>
        return ⟨.conditional (String.ofList condition) t.statements (some e.statements), e.rest,
          Nat.le_trans e.rest_le (Nat.le_trans t.rest_le h)⟩
    | some _ =>
      return ⟨.conditional (String.ofList condition) t.statements none, t.rest,
        Nat.le_trans t.rest_le h⟩
    | none => .error (.missingFi header)
termination_by 3 * rest.length + 1
decreasing_by
  · omega
  · have := t.rest_lt (by simp [_he]); omega
  · have := t.rest_lt (by simp [_he]); omega

/-- The arms of a choice with the given first line. A line that is no arm is passed over. -/
def readArms (header : Line) (lines : List Line) :
    Except ReadError (Reading (List (String × List Statement)) lines) :=
  match lines with
  | [] => .error (.missingEsac header)
  | line :: rest =>
    if line = "esac".toList then .ok ⟨[], rest, by simp⟩
    else
      match inlineArm? line with
      | some (p, text) => do
        let r ← readArms header rest
        return r.after ((String.ofList (unquote p), [.command (String.ofList text)]) :: ·)
          (line :: rest) (by simp)
      | none =>
        match Text.dropEnd? [')'] line with
        | none => do
          let r ← readArms header rest
          return r.after id (line :: rest) (by simp)
        | some p => do
          let b ← readBlock .arm rest
          let arm := (String.ofList (unquote p), b.statements)
          match b.ending with
          | some .esac => return ⟨[arm], b.rest, Nat.le_succ_of_le b.rest_le⟩
          | some _ =>
            let r ← readArms header b.rest
            return r.after (arm :: ·) (line :: rest) (Nat.le_succ_of_le b.rest_le)
          | none => .error (.missingEsac header)
termination_by 3 * lines.length + 1
decreasing_by
  · simp only [List.length_cons]; omega
  · simp only [List.length_cons]; omega
  · simp only [List.length_cons]; omega
  · have := b.rest_le; simp only [List.length_cons]; omega

end

/-- The statements of a body. -/
def Statement.ofText (body : String) : Except ReadError (List Statement) :=
  (readBlock .body (linesOfBody body)).map (·.statements)

end Runbook.ShellFunction
