import Runbook.Shell.Command

/-!
# Messages about scripts

How a shell says that a script cannot be read: `ReadFailure.message`.
-/

namespace Runbook.Shell

/-- How the plain shell says that a script cannot be read. -/
def ReadError.plainMessage : ReadError → String
  | .unclosed (.quote _) => "Unterminated quoted string"
  | .unclosed .backquote => "EOF in backquote substitution"
  | .unclosed .brace => "Missing '\x7d'"
  | .unclosed .parenthesis => "end of file unexpected (expecting \")\")"
  | .unclosed .parentheses => "Missing '))'"
  | .unexpected _ kind none => kind ++ " unexpected"
  | .unexpected _ kind (some expected) => kind ++ " unexpected (expecting " ++ expected ++ ")"
  | .badLoopVariable => "Bad for loop variable"
  | .badFunctionName => "Bad function name"

/-- The sign that closes what is not closed. -/
def Closing.sign : Closing → String
  | .quote mark => String.singleton mark
  | .backquote => "\x60"
  | .brace => "\x7d"
  | .parenthesis => ")"
  | .parentheses => ")"

/-- How a shell says that a script cannot be read. The other shell names where it stood, and repeats
the line of a token that cannot stand there. -/
def ReadFailure.message (dialect : Dialect) (name place : String) (script : Octets)
    (f : ReadFailure) : String :=
  let lines := script.splitOn '\n'
  match dialect with
  | .plain =>
    name ++ ": " ++ toString f.line ++ ": " ++ (if place = "eval: " then place else "") ++
      "Syntax error: " ++ f.error.plainMessage ++ "\n"
  | .bash =>
    let start (line : Nat) : String := name ++ ": " ++ place ++ "line " ++ toString line ++ ": "
    match f.error with
    | .unclosed what =>
      start f.line ++ "unexpected EOF while looking for matching \x60" ++ what.sign ++ "'\n"
    | .badLoopVariable => start f.line ++ "syntax error\n"
    | .badFunctionName => start f.line ++ "syntax error\n"
    | .unexpected "" _ _ =>
      start (lines.length + 1) ++ "syntax error: unexpected end of file\n"
    | .unexpected token _ _ =>
      start f.line ++ "syntax error near unexpected token \x60" ++ token ++ "'\n" ++
        start f.line ++ "\x60" ++ String.ofList (lines[f.line - 1]?.getD []) ++ "'\n"

end Runbook.Shell
