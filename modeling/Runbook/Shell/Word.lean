import Runbook.Shell.Escape

/-!
# Words of a shell script

A word is a row of parts: literal text, uses of parameters, and the output of commands or the values
of expressions put in their place. Each part knows whether it stands in quotes, which keeps it from
being split and from being a pattern.

* `ReadError`: why a script cannot be read;
* `ParameterUse`, `Part`, `Word`;
* `readParts`: the parts of a text up to where its mode ends it;
* `Word.literal?`: the text of a word that has nothing but unquoted text.
-/

namespace Runbook.Shell

/-- What is missing at the end of a script. -/
inductive Closing where
  | quote (mark : Char)
  | backquote
  | brace
  | parenthesis
  | parentheses
deriving DecidableEq, Repr

/-- Why a script cannot be read: something in it is not closed, a token stands where none of its
kind can stand, perhaps in the place of a certain one, or the name of a loop or a function is none.
-/
inductive ReadError where
  | unclosed (what : Closing)
  | unexpected (token kind : String) (expected : Option String)
  | badLoopVariable
  | badFunctionName
deriving DecidableEq, Repr

/-- What is made of a parameter. Those with `orEmpty` treat an empty value like none. -/
inductive ParameterUse where
  | value
  | length
  | instead (orEmpty : Bool)
  | assign (orEmpty : Bool)
  | alternative (orEmpty : Bool)
  | demand (orEmpty : Bool)
  | withoutStart (longest : Bool)
  | withoutEnd (longest : Bool)
  | replace (all : Bool)
  | slice
  | recase (toUpper all : Bool)
deriving DecidableEq, Repr

/-- Whether the operand of a use is a pattern, in which quotes count even inside quotes. -/
def ParameterUse.takesPattern : ParameterUse → Bool
  | .withoutStart _ => true
  | .withoutEnd _ => true
  | .replace _ => true
  | _ => false

/-- A part of a word. A parameter has one operand for most uses and two for a replacement; of one
that cannot be made sense of, the text is kept. -/
inductive Part where
  | text (cs : Octets) (isQuoted : Bool)
  | parameter (name : String) (use : ParameterUse) (operands : List (List Part)) (isQuoted : Bool)
  | output (script : Octets) (isQuoted : Bool)
  | arithmetic (operand : List Part) (isQuoted : Bool)
  | senseless (text : Octets)
deriving Repr

/-- A row of parts. -/
abbrev Word := List Part

/-- The text of a word that has nothing but unquoted text. -/
def Word.literal? : Word → Option String
  | [.text cs false] => some (String.ofList cs)
  | _ => none

/-- Puts a part in front of a word; literal texts of one kind are joined. -/
def Word.cons (p : Part) (w : Word) : Word :=
  match p, w with
  | .text a q, .text b r :: rest => if q = r then .text (a ++ b) q :: rest else p :: w
  | _, _ => p :: w

/-! ## 1. Brackets -/

/-- Whether a character is inside quotes of some kind. -/
inductive Quoting where
  | bare
  | single
  | double
deriving DecidableEq, Repr

/-- The text up to the bracket that closes the one before it, and what follows. Brackets in quotes
do not count; `depth` is the number of further open ones, and `skip` says that the next character is
escaped. -/
def upToClosing (opening closing : Char) (depth : Nat) (q : Quoting) (skip : Bool) :
    List Char → Option (List Char × List Char)
  | [] => none
  | c :: rest =>
    let go (depth : Nat) (q : Quoting) (skip : Bool) :=
      (upToClosing opening closing depth q skip rest).map fun (a, b) => (c :: a, b)
    if skip then go depth q false
    else
      match q with
      | .single => go depth (if c = '\'' then .bare else .single) false
      | .double =>
        if c = '\\' then go depth .double true
        else go depth (if c = '"' then .bare else .double) false
      | .bare =>
        if c = '\\' then go depth .bare true
        else if c = '\'' then go depth .single false
        else if c = '"' then go depth .double false
        else if c = opening then go (depth + 1) .bare false
        else if c = closing then
          match depth with
          | 0 => some ([], rest)
          | depth + 1 => go depth .bare false
        else go depth .bare false

/-- The text up to the next backquote, and what follows. A backslash takes the meaning from another
one, from a backquote and from a dollar sign. -/
def upToBackquote : List Char → Option (List Char × List Char)
  | [] => none
  | '\x60' :: rest => some ([], rest)
  | '\\' :: c :: rest =>
    (upToBackquote rest).map fun (a, b) =>
      (if c = '\x60' || c = '\\' || c = '$' then c :: a else '\\' :: c :: a, b)
  | c :: rest => (upToBackquote rest).map fun (a, b) => (c :: a, b)

/-! ## 2. Parts -/

/-- What a text is read as, which says where it ends and what is special in it. -/
inductive Mode where
  | word
  | quoted
  | operand
  | document
deriving DecidableEq, Repr

/-- Whether text in this mode counts as quoted. -/
def Mode.isQuoted : Mode → Bool
  | .word => false
  | .operand => false
  | .quoted => true
  | .document => true

/-- Whether a backslash takes the meaning from a character in this mode. -/
def Mode.escapes (m : Mode) (c : Char) : Bool :=
  !m.isQuoted || c = '$' || c = '\x60' || c = '\\' || (c = '"' && m = .quoted)

/-- The characters that end a word. -/
def endsShellWord (c : Char) : Bool :=
  " \t\n;&|<>()".toList.contains c

/-- The characters that name a parameter on their own. -/
def isSpecialName (c : Char) : Bool :=
  c.isDigit || "@*#?$!-".toList.contains c

/-- The name of a parameter at the start of a text. -/
def parameterName? (s : List Char) : Option (String × List Char) :=
  match s with
  | [] => none
  | c :: rest =>
    if Text.isIdentStart c then
      some (String.ofList (s.takeWhile Text.isIdentChar), s.dropWhile Text.isIdentChar)
    else if isSpecialName c then some (String.singleton c, rest)
    else none

/-- A text up to its first slash that no backslash stands in front of, and what follows the slash.
-/
def cutAtSlash : List Char → List Char × List Char
  | [] => ([], [])
  | '/' :: rest => ([], rest)
  | '\\' :: c :: rest =>
    let (a, b) := cutAtSlash rest
    ('\\' :: c :: a, b)
  | c :: rest =>
    let (a, b) := cutAtSlash rest
    (c :: a, b)

/-- The use of a parameter that a text behind its name asks for, and the texts of its operands. -/
def parameterUse? (dialect : Dialect) (s : List Char) : Option (ParameterUse × List (List Char)) :=
  match s with
  | [] => some (.value, [])
  | ':' :: '-' :: rest => some (.instead true, [rest])
  | ':' :: '=' :: rest => some (.assign true, [rest])
  | ':' :: '+' :: rest => some (.alternative true, [rest])
  | ':' :: '?' :: rest => some (.demand true, [rest])
  | '-' :: rest => some (.instead false, [rest])
  | '=' :: rest => some (.assign false, [rest])
  | '+' :: rest => some (.alternative false, [rest])
  | '?' :: rest => some (.demand false, [rest])
  | '#' :: '#' :: rest => some (.withoutStart true, [rest])
  | '#' :: rest => some (.withoutStart false, [rest])
  | '%' :: '%' :: rest => some (.withoutEnd true, [rest])
  | '%' :: rest => some (.withoutEnd false, [rest])
  | _ =>
    match dialect, s with
    | .plain, _ => none
    | .bash, '/' :: '/' :: rest => some (.replace true, [(cutAtSlash rest).1, (cutAtSlash rest).2])
    | .bash, '/' :: rest => some (.replace false, [(cutAtSlash rest).1, (cutAtSlash rest).2])
    | .bash, ':' :: rest => some (.slice, [rest])
    | .bash, ['^', '^'] => some (.recase true true, [])
    | .bash, ['^'] => some (.recase true false, [])
    | .bash, [',', ','] => some (.recase false true, [])
    | .bash, [','] => some (.recase false false, [])
    | .bash, _ => none

mutual

/-- The parts of a text up to where its mode ends it, and what follows. -/
def readParts (dialect : Dialect) (mode : Mode) :
    Nat → List Char → Except ReadError (Word × List Char)
  | 0, _ => .ok ([], [])
  | fuel + 1, s =>
    match s with
    | [] => if mode = .quoted then .error (.unclosed (.quote '"')) else .ok ([], [])
    | c :: rest =>
      let literal (cs : List Char) (isQuoted : Bool) (rest : List Char) := do
        let (w, rest) ← readParts dialect mode fuel rest
        return (Word.cons (.text cs isQuoted) w, rest)
      if mode = .word && endsShellWord c then .ok ([], s)
      else if mode = .quoted && c = '"' then .ok ([], rest)
      else if c = '\\' then
        match rest with
        | [] => literal ['\\'] mode.isQuoted []
        | d :: rest =>
          if d = '\n' then readParts dialect mode fuel rest
          else if mode.escapes d then literal [d] true rest
          else literal ['\\', d] true rest
      else if c = '\'' && !mode.isQuoted then
        match rest.dropWhile (· ≠ '\'') with
        | [] => .error (.unclosed (.quote '\''))
        | _ :: after => literal (rest.takeWhile (· ≠ '\'')) true after
      else if c = '"' && !mode.isQuoted then do
        let (inner, rest) ← readParts dialect .quoted fuel rest
        let (w, rest) ← readParts dialect mode fuel rest
        let inner := if inner.isEmpty then [.text [] true] else inner
        return (inner.foldr Word.cons w, rest)
      else if c = '\x60' then
        match upToBackquote rest with
        | none => .error (.unclosed .backquote)
        | some (script, rest) => do
          let (w, rest) ← readParts dialect mode fuel rest
          return (.output script mode.isQuoted :: w, rest)
      else if c = '$' then
        match dialect, mode.isQuoted, rest with
        | .bash, false, '\'' :: body =>
          match ansiText (body.length + 1) body with
          | none => .error (.unclosed (.quote '\''))
          | some (text, rest) => literal text true rest
        | .bash, false, '"' :: _ => readParts dialect mode fuel rest
        | _, _, _ => do
          match ← readDollar dialect mode.isQuoted fuel rest with
          | none => literal ['$'] mode.isQuoted rest
          | some (p, rest) =>
            let (w, rest) ← readParts dialect mode fuel rest
            return (p :: w, rest)
      else literal [c] mode.isQuoted rest

/-- The part that a dollar sign starts, if it starts one. -/
def readDollar (dialect : Dialect) (isQuoted : Bool) :
    Nat → List Char → Except ReadError (Option (Part × List Char))
  | 0, _ => .ok none
  | fuel + 1, s =>
    match s with
    | '(' :: rest =>
      match upToClosing '(' ')' 0 .bare false rest with
      | none =>
        .error (.unclosed (if rest.head? = some '(' then .parentheses else .parenthesis))
      | some (script, rest) =>
        match script with
        | '(' :: body =>
          match upToClosing '(' ')' 0 .bare false body with
          | some (expression, []) => do
            let (operand, _) ← readParts dialect .document fuel expression
            return some (.arithmetic operand isQuoted, rest)
          | _ => .ok (some (.output script isQuoted, rest))
        | _ => .ok (some (.output script isQuoted, rest))
    | '\x7b' :: rest =>
      match upToClosing '\x7b' '\x7d' 0 .bare false rest with
      | none => .error (.unclosed .brace)
      | some (body, rest) => do
        let p ← readBraced dialect isQuoted fuel body
        return some (p, rest)
    | _ =>
      match parameterName? s with
      | some (name, rest) => .ok (some (.parameter name .value [] isQuoted, rest))
      | none => .ok none

/-- The use of a parameter that is written in braces. -/
def readBraced (dialect : Dialect) (isQuoted : Bool) : Nat → List Char → Except ReadError Part
  | 0, body => .ok (.senseless body)
  | fuel + 1, body =>
    match parameterName? body with
    | none => .ok (.senseless body)
    | some (name, tail) =>
      match name, parameterName? tail with
      | "#", some (name, []) => .ok (.parameter name .length [] isQuoted)
      | _, _ =>
        match parameterUse? dialect tail with
        | none => .ok (.senseless body)
        | some (use, texts) => do
          let mode : Mode := if isQuoted && !use.takesPattern then .document else .operand
          let operands ← readOperands dialect mode fuel texts
          return .parameter name use operands isQuoted

/-- Operands of a parameter. -/
def readOperands (dialect : Dialect) (mode : Mode) :
    Nat → List (List Char) → Except ReadError (List Word)
  | 0, _ => .ok []
  | _ + 1, [] => .ok []
  | fuel + 1, text :: rest => do
    let (w, _) ← readParts dialect mode fuel text
    let ws ← readOperands dialect mode fuel rest
    return w :: ws

end

end Runbook.Shell
