import Runbook.Shell.Word

/-!
# Tokens of a shell script

* `Lexeme`, `Token`: a word, an operator, or the number in front of a redirection, with the line on
  which it ends and the text behind it;
* `Token.ofScript`: the tokens of a script. The last one is its end or what cannot be read. A
  document that is written behind the line that asks for it becomes the word behind its operator.
-/

namespace Runbook.Shell

/-- A part of a script. The end of a line is the operator `"\n"`. -/
inductive Lexeme where
  | word (w : Word)
  | operator (name : String)
  | number (n : Nat)
  | bad (error : ReadError)
  | done
deriving Repr

/-- A part of a script, the line that it ends on, and the text behind it. -/
structure Token where
  lexeme : Lexeme
  line : Nat
  after : Octets
deriving Repr

/-- The operators, a longer one before those that start it. -/
def operators : Dialect → List String
  | .plain =>
    ["<<-", "&&", "||", ";;", "<<", ">>", "<&", ">&", "<>", ">|", ";", "&", "|", "<", ">", "(", ")",
      "\n"]
  | .bash =>
    ["<<<", "<<-", "&>>", "&&", "||", ";;", "<<", ">>", "<&", ">&", "<>", ">|", "&>", "|&", ";",
      "&", "|", "<", ">", "(", ")", "\n"]

/-- The operator at the start of a text. -/
def operatorAt? (dialect : Dialect) (s : List Char) : Option (String × List Char) :=
  (operators dialect).findSome? fun o => (Text.dropStart? o.toList s).map fun rest => (o, rest)

/-- The number in front of a redirection at the start of a text; the plain shell takes one digit. -/
def numberAt? (dialect : Dialect) (s : List Char) : Option (Nat × List Char) :=
  let digits := s.takeWhile Char.isDigit
  if digits.isEmpty || (dialect = .plain && digits.length ≠ 1) then none
  else
    match s.dropWhile Char.isDigit with
    | c :: rest =>
      if c = '<' || c = '>' then
        some (digits.foldl (fun n d => 10 * n + (d.toNat - '0'.toNat)) 0, c :: rest)
      else none
    | [] => none

/-- The text of a word without its quotes, and whether it has any. -/
def unquotedText (w : Word) : List Char × Bool :=
  w.foldr (fun p (cs, quoted) => match p with
    | .text part q => (part ++ cs, quoted || q)
    | _ => (cs, quoted)) ([], false)

/-- The lines up to one that holds the mark alone, tabs at the start of a line left out if asked
for, and what follows that line. -/
def documentLines (mark : List Char) (dropTabs : Bool) : Nat → List Char → List Char × List Char
  | 0, s => ([], s)
  | fuel + 1, s =>
    if s.isEmpty then ([], [])
    else
      let line := s.takeWhile (· ≠ '\n')
      let line := if dropTabs then line.dropWhile (· == '\t') else line
      let rest := (s.dropWhile (· ≠ '\n')).drop 1
      if line = mark then ([], rest)
      else
        let (lines, after) := documentLines mark dropTabs fuel rest
        (line ++ '\n' :: lines, after)

/-- The tokens of a script from a place on; `lines` is the number of the script's line ends and one
more, and a token's line is that less the line ends behind it. -/
def tokensFrom (dialect : Dialect) (lines : Nat) : Nat → List Char → List Token
  | 0, s => [⟨.done, lines, s⟩]
  | fuel + 1, s =>
    let token (l : Lexeme) (after : List Char) : Token := ⟨l, lines - after.count '\n', after⟩
    let failed (e : ReadError) : List Token := [token (.bad e) []]
    match s with
    | [] => [token .done []]
    | ' ' :: rest => tokensFrom dialect lines fuel rest
    | '\t' :: rest => tokensFrom dialect lines fuel rest
    | '\\' :: '\n' :: rest => tokensFrom dialect lines fuel rest
    | '#' :: rest => tokensFrom dialect lines fuel (rest.dropWhile (· ≠ '\n'))
    | s =>
      match numberAt? dialect s, operatorAt? dialect s with
      | some (n, rest), _ => token (.number n) rest :: tokensFrom dialect lines fuel rest
      | none, some (o, rest) =>
        if o = "<<" || o = "<<-" then
          let start := rest.dropWhile fun c => c == ' ' || c == '\t'
          match readParts dialect .word (2 * start.length + 2) start with
          | .error e => failed e
          | .ok ([], _) => token (.operator "<<") rest :: tokensFrom dialect lines fuel rest
          | .ok (w, rest) =>
            let (mark, isQuoted) := unquotedText w
            let (body, after) :=
              documentLines mark (o = "<<-") s.length ((rest.dropWhile (· ≠ '\n')).drop 1)
            let document : Except ReadError (Word × List Char) :=
              if isQuoted then .ok ([Part.text body true], [])
              else readParts dialect .document (2 * body.length + 2) body
            match document with
            | .error e => failed e
            | .ok (document, _) =>
              token (.operator "<<") rest :: token (.word document) rest ::
                tokensFrom dialect lines fuel (rest.takeWhile (· ≠ '\n') ++ '\n' :: after)
        else token (.operator o) rest :: tokensFrom dialect lines fuel rest
      | none, none =>
        match readParts dialect .word (2 * s.length + 2) s with
        | .error e => failed e
        | .ok (w, rest) => token (.word w) rest :: tokensFrom dialect lines fuel rest

/-- The tokens of a script. -/
def Token.ofScript (dialect : Dialect) (script : Octets) : List Token :=
  tokensFrom dialect (script.count '\n' + 1) (2 * script.length + 2) script

/-- The text of a token in a message. -/
def Token.text (t : Token) : String :=
  match t.lexeme with
  | .word w => String.ofList (unquotedText w).1
  | .operator "\n" => "newline"
  | .operator name => name
  | .number n => toString n
  | .bad _ => ""
  | .done => ""

end Runbook.Shell
