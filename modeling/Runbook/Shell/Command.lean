import Runbook.Shell.Token

/-!
# Commands of a shell script

* `Redirection`: a channel turned to a file, to another channel or to a text;
* `Command`: simple commands and what is built of them;
* `ScriptLines`: the commands of a script line by line, as far as it can be read;
* `ScriptLines.ofScript`: the lines of a script.

A shell carries out a line before it reads the next one, so a script that cannot be read to its end
still has commands in front of that place.
-/

namespace Runbook.Shell

/-- Where a redirection turns a channel. -/
inductive RedirectionKind where
  | input
  | output
  | append
  | copy
  | text (addsNewline : Bool)
deriving DecidableEq, Repr

/-- A redirection of a channel; that of both outputs at once has no number. -/
structure Redirection where
  channel : Option Nat
  kind : RedirectionKind
  target : Word
deriving Repr

/-- A command. A simple one knows its line. -/
inductive Command where
  | simple (line : Nat) (assignments : List (String × Word)) (words : List Word)
      (redirections : List Redirection)
  | background (body : Command)
  | redirected (body : Command) (redirections : List Redirection)
  | pipeline (isNegated : Bool) (parts : List Command)
  | both (first second : Command)
  | either (first second : Command)
  | sequence (parts : List Command)
  | conditional (branches : List (Command × Command)) (otherwise : Option Command)
  | loop (isUntil : Bool) (condition body : Command)
  | forEach (name : String) (items : Option (List Word)) (body : Command)
  | choice (subject : Word) (arms : List (List Word × Command))
  | subshell (body : Command)
  | function (name : String) (body : Command)
  | test (parts : List Token)
  | arithmetic (operand : Word)
  | arithmeticLoop (start condition step : Word) (body : Command)
deriving Repr

/-- The command that does nothing. -/
def Command.nothing : Command := .sequence []

/-- Where and why a script cannot be read on. -/
structure ReadFailure where
  error : ReadError
  line : Nat
deriving Repr

/-- The commands of a script line by line, and what keeps it from being read to its end. -/
structure ScriptLines where
  commands : List Command
  failure : Option ReadFailure

namespace CommandReader

/-- A reader of a part of a script. -/
abbrev Reader (α : Type) := List Token → Except ReadFailure (α × List Token)

/-- The word of a token that has nothing but unquoted text. -/
def bareWord? : List Token → Option String
  | ⟨.word w, _, _⟩ :: _ => w.literal?
  | _ => none

/-- Whether a token is a given operator. -/
def isOperator (o : String) : List Token → Bool
  | ⟨.operator o', _, _⟩ :: _ => o = o'
  | _ => false

/-- The words with a meaning of their own. -/
def reservedWords : List String :=
  ["!", "case", "do", "done", "elif", "else", "esac", "fi", "for", "if", "in", "then", "until",
    "while", "\x7b", "\x7d"]

/-- The words that end a list of commands. -/
def closingWords : List String :=
  ["then", "elif", "else", "fi", "do", "done", "esac", "\x7d"]

/-- Whether a list of commands ends here. -/
def isClosed (ts : List Token) : Bool :=
  match ts with
  | [] => true
  | ⟨.done, _, _⟩ :: _ => true
  | ⟨.operator o, _, _⟩ :: _ => o = ")" || o = ";;"
  | _ =>
    match bareWord? ts with
    | some w => closingWords.contains w
    | none => false

/-- What kind of token one is, in a message. -/
def kindOf (t : Token) : String :=
  let quote (s : String) : String := "\"" ++ s ++ "\""
  match t.lexeme with
  | .word w =>
    match w.literal? with
    | some s => if reservedWords.contains s then quote s else "word"
    | none => "word"
  | .operator "\n" => "newline"
  | .operator o =>
    if o.toList.head?.any (fun c => c = '<' || c = '>') then "redirection" else quote o
  | .number _ => "redirection"
  | .bad _ => "end of file"
  | .done => "end of file"

/-- The failure of a token that cannot stand where it stands, perhaps in the place of another. -/
def unexpected {α : Type} (expected : Option String) (ts : List Token) : Except ReadFailure α :=
  match ts with
  | [] => .error ⟨.unexpected "" "end of file" expected, 1⟩
  | ⟨.bad e, line, _⟩ :: _ => .error ⟨e, line⟩
  | t :: _ => .error ⟨.unexpected t.text (kindOf t) expected, t.line⟩

/-- One given word. -/
def expectWord (w : String) : Reader Unit := fun ts =>
  if bareWord? ts = some w then .ok ((), ts.drop 1)
  else unexpected (some ("\"" ++ w ++ "\"")) ts

/-- One given operator. -/
def expectOperator (o : String) : Reader Unit := fun ts =>
  if isOperator o ts then .ok ((), ts.drop 1)
  else unexpected (some ("\"" ++ o ++ "\"")) ts

/-- The tokens behind ends of lines. -/
def skipNewlines : List Token → List Token
  | ⟨.operator "\n", _, _⟩ :: rest => skipNewlines rest
  | ts => ts

/-- A failure where something has to follow on the same line: the end of the script counts as that
of its last line. -/
def onSameLine {α : Type} (r : Except ReadFailure α) : Except ReadFailure α :=
  match r with
  | .error ⟨.unexpected "" kind expected, line⟩ =>
    .error ⟨.unexpected "newline" kind expected, line⟩
  | r => r

/-- Whether a text can name a variable. -/
def isName (name : String) : Bool :=
  name.toList.head?.any Text.isIdentStart && name.toList.all Text.isIdentChar

/-- The commands after whose failure the plain shell ends. -/
def specialCommands : List String :=
  [":", ".", "break", "continue", "eval", "exec", "exit", "export", "readonly", "return", "set",
    "shift", "times", "trap", "unset"]

/-! ## 1. Redirections -/

/-- What an operator of a redirection does, and the channel that it stands for by itself. -/
def redirectionOf? : String → Option (RedirectionKind × Option Nat)
  | "<" => some (.input, some 0)
  | "<>" => some (.input, some 0)
  | ">" => some (.output, some 1)
  | ">|" => some (.output, some 1)
  | ">>" => some (.append, some 1)
  | "<&" => some (.copy, some 0)
  | ">&" => some (.copy, some 1)
  | "&>" => some (.output, none)
  | "&>>" => some (.append, none)
  | "<<" => some (.text false, some 0)
  | "<<<" => some (.text true, some 0)
  | _ => none

/-- A redirection from its operator on. -/
def redirectionFrom (number : Option Nat) (ts : List Token) :
    Except ReadFailure (Option (Redirection × List Token)) :=
  match ts with
  | ⟨.operator o, _, _⟩ :: rest =>
    match redirectionOf? o with
    | none => .ok none
    | some (kind, channel) =>
      match rest with
      | ⟨.word w, _, _⟩ :: rest =>
        .ok (some (⟨if number.isSome then number else channel, kind, w⟩, rest))
      | ts => onSameLine (unexpected none ts)
  | _ => .ok none

/-- A redirection, if there is one here. -/
def redirection? (ts : List Token) : Except ReadFailure (Option (Redirection × List Token)) :=
  match ts with
  | ⟨.number n, _, _⟩ :: rest => redirectionFrom (some n) rest
  | ts => redirectionFrom none ts

/-- The redirections behind a command. -/
def redirections : Nat → Reader (List Redirection)
  | 0, ts => .ok ([], ts)
  | fuel + 1, ts => do
    match ← redirection? ts with
    | none => return ([], ts)
    | some (r, rest) =>
      let (rs, rest) ← redirections fuel rest
      return (r :: rs, rest)

/-! ## 2. Simple commands -/

/-- The name and the value of a word that assigns. -/
def assignment? (w : Word) : Option (String × Word) :=
  match w with
  | .text cs false :: rest =>
    match cs with
    | [] => none
    | c :: _ =>
      if Text.isIdentStart c then
        match cs.dropWhile Text.isIdentChar with
        | '=' :: value =>
          some (String.ofList (cs.takeWhile Text.isIdentChar),
            if value.isEmpty then rest else .text value false :: rest)
        | _ => none
      else none
  | _ => none

/-- A simple command: assignments, words and redirections. -/
def simple (line : Nat) (assignments : List (String × Word)) (words : List Word)
    (rs : List Redirection) : Nat → Reader Command
  | 0, ts => unexpected none ts
  | fuel + 1, ts => do
    match ← redirection? ts with
    | some (r, rest) => simple line assignments words (rs ++ [r]) fuel rest
    | none =>
      match ts with
      | ⟨.word w, _, _⟩ :: rest =>
        match words, assignment? w with
        | [], some a => simple line (assignments ++ [a]) [] rs fuel rest
        | _, _ => simple line assignments (words ++ [w]) rs fuel rest
      | _ =>
        if assignments.isEmpty && words.isEmpty && rs.isEmpty then unexpected none ts
        else return (.simple line assignments words rs, ts)

/-- The tokens up to the word that closes a test. -/
def testParts : List Token → Option (List Token × List Token)
  | [] => none
  | t :: rest =>
    if bareWord? [t] = some "]]" then some ([], rest)
    else (testParts rest).map fun (parts, rest) => (t :: parts, rest)

/-- The words up to the end of a list of words. -/
def wordList : List Token → List Word × List Token
  | ⟨.word w, _, _⟩ :: rest =>
    let (ws, rest) := wordList rest
    (w :: ws, rest)
  | ts => ([], ts)

/-- The patterns of an arm, with bars between them. -/
def patterns : Nat → Reader (List Word)
  | 0, ts => unexpected none ts
  | fuel + 1, ts =>
    match ts with
    | ⟨.word w, _, _⟩ :: rest =>
      if isOperator "|" rest then do
        let (ws, rest) ← patterns fuel (rest.drop 1)
        return (w :: ws, rest)
      else do
        let ((), rest) ← expectOperator ")" rest
        return ([w], rest)
    | ts => unexpected (some "\")\"") ts

/-- The text between two parentheses on each side as a word, and the tokens behind them. -/
def arithmeticText (ts : List Token) : Option (Octets × List Token) :=
  match ts with
  | ⟨.operator "(", _, _⟩ :: ⟨.operator "(", _, after⟩ :: rest =>
    match upToClosing '(' ')' 0 .bare false after with
    | some (text, ')' :: behind) =>
      some (text, (rest.dropWhile fun t => behind.length < t.after.length).drop 1)
    | _ => none
  | _ => none

/-- A text as the word of an expression. -/
def expressionOf (text : Octets) : Word :=
  match readParts .bash .document (2 * text.length + 2) text with
  | .ok (w, _) => w
  | .error _ => [.text text true]

/-! ## 3. Compounds -/

mutual

/-- A list of commands that stands inside a compound: line ends separate commands and may stand in
front of them. Only a list that may be empty can be closed where it starts. -/
def innerList (dialect : Dialect) (mayBeEmpty : Bool) : Nat → Reader (List Command)
  | 0, ts => unexpected none ts
  | fuel + 1, ts => do
    let ts := skipNewlines ts
    if (mayBeEmpty && isClosed ts) || (ts.head?.any fun t => t.lexeme matches .done) then
      return ([], ts)
    let (c, rest) ← andOr dialect fuel ts
    if isOperator "&" rest then
      let (cs, rest) ← innerList dialect true fuel (rest.drop 1)
      return (.background c :: cs, rest)
    else if isOperator ";" rest || isOperator "\n" rest then
      let (cs, rest) ← innerList dialect true fuel (rest.drop 1)
      return (c :: cs, rest)
    else return ([c], rest)

/-- The commands of a line that is no part of a compound. -/
def lineList (dialect : Dialect) : Nat → Reader (List Command)
  | 0, ts => unexpected none ts
  | fuel + 1, ts => do
    let (c, rest) ← andOr dialect fuel ts
    let isBackground := isOperator "&" rest
    let c := if isBackground then .background c else c
    let behind := rest.drop 1
    if isBackground || isOperator ";" rest then
      if isOperator "\n" behind || (behind.head?.any fun t => t.lexeme matches .done) then
        return ([c], behind)
      else
        let (cs, rest) ← lineList dialect fuel behind
        return (c :: cs, rest)
    else if isOperator "\n" rest || (rest.head?.any fun t => t.lexeme matches .done) then
      return ([c], rest)
    else unexpected none rest

/-- Pipelines that depend on each other's outcome. -/
def andOr (dialect : Dialect) : Nat → Reader Command
  | 0, ts => unexpected none ts
  | fuel + 1, ts => do
    let (first, rest) ← pipeline dialect fuel ts
    andOrTail dialect first fuel rest

/-- The pipelines behind a first command. -/
def andOrTail (dialect : Dialect) (first : Command) : Nat → Reader Command
  | 0, ts => unexpected none ts
  | fuel + 1, ts =>
    if isOperator "&&" ts then do
      let (second, rest) ← pipeline dialect fuel (skipNewlines (ts.drop 1))
      andOrTail dialect (.both first second) fuel rest
    else if isOperator "||" ts then do
      let (second, rest) ← pipeline dialect fuel (skipNewlines (ts.drop 1))
      andOrTail dialect (.either first second) fuel rest
    else .ok (first, ts)

/-- Commands that pass their output on; a mark in front turns the outcome round. -/
def pipeline (dialect : Dialect) : Nat → Reader Command
  | 0, ts => unexpected none ts
  | fuel + 1, ts =>
    if bareWord? ts = some "!" then do
      let (parts, rest) ← pipelineParts dialect fuel (ts.drop 1)
      return (.pipeline true parts, rest)
    else do
      let (parts, rest) ← pipelineParts dialect fuel ts
      return (match parts with
        | [c] => c
        | parts => .pipeline false parts, rest)

/-- The commands of a pipeline. A bar with a mark behind it passes errors on, too. -/
def pipelineParts (dialect : Dialect) : Nat → Reader (List Command)
  | 0, ts => unexpected none ts
  | fuel + 1, ts => do
    let (c, rest) ← command dialect fuel ts
    if isOperator "|" rest then
      let (cs, rest) ← pipelineParts dialect fuel (skipNewlines (rest.drop 1))
      return (c :: cs, rest)
    else if isOperator "|&" rest then
      let (cs, rest) ← pipelineParts dialect fuel (skipNewlines (rest.drop 1))
      return (.redirected c [⟨some 2, .copy, [.text ['1'] false]⟩] :: cs, rest)
    else return ([c], rest)

/-- A command with the redirections behind it. -/
def command (dialect : Dialect) : Nat → Reader Command
  | 0, ts => unexpected none ts
  | fuel + 1, ts => do
    let compound (r : Except ReadFailure (Command × List Token)) := do
      let (c, rest) ← r
      let (rs, rest) ← redirections rest.length rest
      return (if rs.isEmpty then c else .redirected c rs, rest)
    match dialect, arithmeticText ts with
    | .bash, some (text, rest) => compound (.ok (.arithmetic (expressionOf text), rest))
    | _, _ =>
      if isOperator "(" ts then compound do
        let (body, rest) ← innerList dialect false fuel (ts.drop 1)
        let ((), rest) ← expectOperator ")" rest
        return (.subshell (.sequence body), rest)
      else
        match bareWord? ts with
        | some "if" => compound do
          let (branches, otherwise, rest) ← branchesFrom dialect fuel (ts.drop 1)
          return (.conditional branches otherwise, rest)
        | some "while" => compound (loop dialect false fuel (ts.drop 1))
        | some "until" => compound (loop dialect true fuel (ts.drop 1))
        | some "for" => compound (forEach dialect fuel (ts.drop 1))
        | some "case" => compound (choice dialect fuel (ts.drop 1))
        | some "\x7b" => compound do
          let (body, rest) ← innerList dialect false fuel (ts.drop 1)
          let ((), rest) ← expectWord "\x7d" rest
          return (.sequence body, rest)
        | some name => named dialect name fuel ts
        | none => simple (ts.head?.elim 1 (·.line)) [] [] [] (ts.length + 1) ts

/-- A command that starts with a word of no other use: a test in double brackets, a function or a
simple command. -/
def named (dialect : Dialect) (name : String) : Nat → Reader Command
  | 0, ts => unexpected none ts
  | fuel + 1, ts => do
    let rest := ts.drop 1
    if reservedWords.contains name then unexpected none ts
    else if name = "[[" && dialect = .bash then
      match testParts rest with
      | some (parts, rest) =>
        let (rs, rest) ← redirections rest.length rest
        return (if rs.isEmpty then .test parts else .redirected (.test parts) rs, rest)
      | none => unexpected none (ts.getLast?.toList)
    else if name = "function" && dialect = .bash then
      match bareWord? rest with
      | some name =>
        let rest := rest.drop 1
        let rest := if isOperator "(" rest then rest.drop 2 else rest
        let (body, rest) ← command dialect fuel (skipNewlines rest)
        return (.function name body, rest)
      | none => unexpected none rest
    else if isOperator "(" rest && (assignment? [.text name.toList false]).isNone then
      let ((), behind) ← onSameLine (expectOperator ")" (rest.drop 1))
      if dialect = .plain && (!isName name || specialCommands.contains name) then
        .error ⟨.badFunctionName, rest.head?.elim 1 (·.line)⟩
      else
        let (body, rest) ← command dialect fuel (skipNewlines behind)
        return (.function name body, rest)
    else simple (ts.head?.elim 1 (·.line)) [] [] [] (ts.length + 1) ts

/-- The conditions of a conditional with their blocks, and the block for when none holds. -/
def branchesFrom (dialect : Dialect) :
    Nat → List Token →
      Except ReadFailure (List (Command × Command) × Option Command × List Token)
  | 0, ts => unexpected none ts
  | fuel + 1, ts => do
    let (condition, rest) ← innerList dialect false fuel ts
    let ((), rest) ← expectWord "then" rest
    let (body, rest) ← innerList dialect false fuel rest
    let branch := (Command.sequence condition, Command.sequence body)
    match bareWord? rest with
    | some "elif" =>
      let (branches, otherwise, rest) ← branchesFrom dialect fuel (rest.drop 1)
      return (branch :: branches, otherwise, rest)
    | some "else" =>
      let (otherwise, rest) ← innerList dialect false fuel (rest.drop 1)
      let ((), rest) ← expectWord "fi" rest
      return ([branch], some (.sequence otherwise), rest)
    | _ =>
      let ((), rest) ← expectWord "fi" rest
      return ([branch], none, rest)

/-- A loop by a condition, from behind its first word on. -/
def loop (dialect : Dialect) (isUntil : Bool) : Nat → Reader Command
  | 0, ts => unexpected none ts
  | fuel + 1, ts => do
    let (condition, rest) ← innerList dialect false fuel ts
    let (body, rest) ← doBlock dialect fuel rest
    return (.loop isUntil (.sequence condition) body, rest)

/-- The body of a loop. -/
def doBlock (dialect : Dialect) : Nat → Reader Command
  | 0, ts => unexpected none ts
  | fuel + 1, ts => do
    let ((), rest) ← expectWord "do" ts
    let (body, rest) ← innerList dialect false fuel rest
    let ((), rest) ← expectWord "done" rest
    return (.sequence body, rest)

/-- A loop over items or by an expression, from behind its first word on. -/
def forEach (dialect : Dialect) : Nat → Reader Command
  | 0, ts => unexpected none ts
  | fuel + 1, ts =>
    match dialect, arithmeticText ts with
    | .bash, some (text, rest) => do
      let parts := text.splitOn ';'
      let part (n : Nat) : Word := expressionOf (parts[n]?.getD [])
      let rest := if isOperator ";" rest then rest.drop 1 else rest
      let (body, rest) ← doBlock dialect fuel (skipNewlines rest)
      return (.arithmeticLoop (part 0) (part 1) (part 2) body, rest)
    | _, _ =>
      match (bareWord? ts).filter isName with
      | none =>
        match ts with
        | ⟨.bad e, line, _⟩ :: _ => .error ⟨e, line⟩
        | ts => .error ⟨.badLoopVariable, ts.head?.elim 1 (·.line)⟩
      | some name => do
        let rest := skipNewlines (ts.drop 1)
        if bareWord? rest = some "in" then
          let (items, rest) := wordList (rest.drop 1)
          if isOperator ";" rest || isOperator "\n" rest then
            let (body, rest) ← doBlock dialect fuel (skipNewlines (rest.drop 1))
            return (.forEach name (some items) body, rest)
          else unexpected none rest
        else
          let rest := if isOperator ";" rest then skipNewlines (rest.drop 1) else rest
          let (body, rest) ← doBlock dialect fuel rest
          return (.forEach name none body, rest)

/-- A choice by a word, from behind its first word on. -/
def choice (dialect : Dialect) : Nat → Reader Command
  | 0, ts => unexpected none ts
  | fuel + 1, ts =>
    match ts with
    | ⟨.word subject, _, _⟩ :: rest => do
      let ((), rest) ← expectWord "in" (skipNewlines rest)
      let (arms, rest) ← arms dialect fuel (skipNewlines rest)
      return (.choice subject arms, rest)
    | _ => unexpected (some "word") ts

/-- The arms of a choice up to its last word. -/
def arms (dialect : Dialect) : Nat → Reader (List (List Word × Command))
  | 0, ts => unexpected none ts
  | fuel + 1, ts =>
    if bareWord? ts = some "esac" then .ok ([], ts.drop 1)
    else do
      let start := if isOperator "(" ts then ts.drop 1 else ts
      let (ps, rest) ← patterns start.length start
      let (body, rest) ← innerList dialect true fuel rest
      let arm := (ps, Command.sequence body)
      if bareWord? rest = some "esac" then return ([arm], rest.drop 1)
      else
        let ((), rest) ← expectOperator ";;" rest
        let (more, rest) ← arms dialect fuel (skipNewlines rest)
        return (arm :: more, rest)

end

/-- The commands of a script from a line on. -/
def linesFrom (dialect : Dialect) : Nat → List Token → ScriptLines
  | 0, _ => ⟨[], none⟩
  | fuel + 1, ts =>
    match skipNewlines ts with
    | [] => ⟨[], none⟩
    | ⟨.done, _, _⟩ :: _ => ⟨[], none⟩
    | t :: rest =>
      match lineList dialect (8 * (t :: rest).length + 8) (t :: rest) with
      | .error failure => ⟨[], some failure⟩
      | .ok (cs, rest) =>
        let more := linesFrom dialect fuel rest
        ⟨.sequence cs :: more.commands, more.failure⟩

end CommandReader

/-! ## 4. Scripts -/

mutual

/-- What keeps the commands in a word from being read. -/
def failureIn (dialect : Dialect) : Nat → Word → Option ReadFailure
  | 0, _ => none
  | _ + 1, [] => none
  | fuel + 1, p :: rest =>
    let failure := match p with
      | .output script _ => (linesWithin dialect fuel script).failure
      | .parameter _ _ operands _ => operands.findSome? (failureIn dialect fuel)
      | .arithmetic operand _ => failureIn dialect fuel operand
      | .text .. => none
      | .senseless _ => none
    failure.or (failureIn dialect fuel rest)

/-- The lines of a script, which can be read only if the commands in its words can. -/
def linesWithin (dialect : Dialect) : Nat → Octets → ScriptLines
  | 0, _ => ⟨[], none⟩
  | fuel + 1, script =>
    let ts := (Token.ofScript dialect script).map fun t =>
      match t.lexeme with
      | .word w =>
        match failureIn dialect fuel w with
        | some failure => { t with lexeme := .bad failure.error }
        | none => t
      | _ => t
    CommandReader.linesFrom dialect (ts.length + 1) ts

end

/-- The lines of a script. -/
def ScriptLines.ofScript (dialect : Dialect) (script : Octets) : ScriptLines :=
  linesWithin dialect (script.length + 1) script

end Runbook.Shell
