import Runbook.Shell.Field

/-!
# Tests of a shell

The test command decides by its arguments whether something holds of files, texts or numbers:

* `unary?`, `binary?`: single tests;
* `Test.decideBy`: a test with negation, conjunction, disjunction and parentheses;
* `Test.decide`: a whole test, for which one shell goes by the number of arguments first.

The reader stands on an argument, and what it answers stands on the last one that it took.
-/

namespace Runbook.Shell.Test

/-- Why a test cannot be decided. -/
inductive Fault where
  | notWhole (text : Octets)
  | unexpected (operator : Octets)
  | argumentMissing (operator : Octets)
  | notUnary (operator : Octets)
  | notBinary (operator : Octets)
  | tooMany
  | unclosed
deriving DecidableEq, Repr

/-- The wording of a fault. -/
def Fault.message (dialect : Dialect) : Fault → String
  | .notWhole text =>
    match dialect with
    | .plain => "Illegal number: " ++ String.ofList text
    | .bash => String.ofList text ++ ": integer expression expected"
  | .unexpected operator => String.ofList operator ++ ": unexpected operator"
  | .argumentMissing operator =>
    match dialect with
    | .plain => String.ofList operator ++ ": argument expected"
    | .bash => "argument expected"
  | .notUnary operator => String.ofList operator ++ ": unary operator expected"
  | .notBinary operator => String.ofList operator ++ ": binary operator expected"
  | .tooMany => "too many arguments"
  | .unclosed => "closing paren expected"

/-! ## 1. Single tests -/

/-- The operators with one operand. -/
def isUnary (dialect : Dialect) (o : Octets) : Bool :=
  match o with
  | ['-', c] =>
    "bcdefghknprstuwxzLOSG".toList.contains c || (dialect = .bash && (c = 'v' || c = 'a'))
  | _ => false

/-- The outcome of a test with one operand, if the operator is one. -/
def unary? (operator : String) (operand : Octets) : Shell (Option Bool) := do
  let path ← Shell.pathOf operand
  let isFile := !operand.isEmpty && (← Shell.fileAt? path).isSome
  let isDirectory := !operand.isEmpty && (← Shell.isDirectory path)
  let isThere := isFile || isDirectory
  match operator with
  | "-n" => return some (!operand.isEmpty)
  | "-z" => return some operand.isEmpty
  | "-f" => return some (isFile && path ≠ "/dev/null")
  | "-d" => return some isDirectory
  | "-e" => return some isThere
  | "-a" => return some isThere
  | "-r" => return some isThere
  | "-w" => return some isThere
  | "-x" => return some (isDirectory || (isFile && (← get).disk.programs.contains path))
  | "-s" => return some (isDirectory || !((← Shell.fileAt? path).getD []).isEmpty)
  | "-O" => return some isThere
  | "-G" => return some isThere
  | "-c" => return some (path = "/dev/null")
  | "-v" => return some ((← Shell.valueOf? (String.ofList operand)).isSome)
  | _ => return if isUnary .plain operator.toList then some false else none

/-- A comparison of numbers, if the operator is one. -/
def comparison? : String → Option (Int → Int → Bool)
  | "-eq" => some (· == ·)
  | "-ne" => some (· != ·)
  | "-lt" => some fun a b => a < b
  | "-le" => some fun a b => a ≤ b
  | "-gt" => some fun a b => b < a
  | "-ge" => some fun a b => b ≤ a
  | _ => none

/-- The outcome of a comparison of two texts, if the operator is one. -/
def textComparison? (operator : String) (a b : Octets) : Option Bool :=
  match operator with
  | "=" => some (a == b)
  | "==" => some (a == b)
  | "!=" => some (a != b)
  | "<" => some (a < b)
  | ">" => some (b < a)
  | _ => none

/-- The outcome of a comparison of two files, if the operator is one. -/
def fileComparison? (operator : String) (a b : Octets) : Shell (Option Bool) := do
  let first ← Shell.pathOf a
  let second ← Shell.pathOf b
  let isThere (path : String) : Shell Bool := do
    return (← Shell.fileAt? path).isSome || (← Shell.isDirectory path)
  let onlyIn (x y : String) : Shell Bool := do
    return (← get).dialect = .bash && (← isThere x) && !(← isThere y)
  match operator with
  | "-ef" => return some (first = second && (← isThere first))
  | "-nt" => return some (← onlyIn first second)
  | "-ot" => return some (← onlyIn second first)
  | _ => return none

/-- Whether an argument is an operator with two operands; the plain shell has one sign for equal. -/
def isBinary (dialect : Dialect) (o : Octets) : Bool :=
  let name := String.ofList o
  (comparison? name).isSome || ["=", "!=", "<", ">", "-nt", "-ot", "-ef"].contains name ||
    (dialect = .bash && name = "==")

/-- A whole number with blanks around it. -/
def wholeIn? (s : Octets) : Option Int := wholeOf? (Text.trim s)

/-- The outcome of a test with two operands. -/
def binary (operator : String) (a b : Octets) : Shell (Except Fault Bool) := do
  match textComparison? operator a b, comparison? operator with
  | some holds, _ => return .ok holds
  | none, some compare =>
    match wholeIn? a, wholeIn? b with
    | some x, some y => return .ok (compare x y)
    | none, _ => return .error (.notWhole a)
    | some _, none => return .error (.notWhole b)
  | none, none =>
    return match ← fileComparison? operator a b with
      | some holds => .ok holds
      | none => .error (.unexpected operator.toList)

/-! ## 2. Compound tests -/

/-- What an argument is in its place. -/
inductive Kind where
  | finish
  | operand
  | not
  | both
  | either
  | opening
  | closing
  | unary
  | binary
deriving DecidableEq, Repr

/-- What the first of the arguments is in its place: an operator with one operand is an operand
itself if nothing follows it, or an operator with two operands and one more argument. -/
def kindOf (dialect : Dialect) (args : List Octets) : Kind :=
  match args with
  | [] => .finish
  | a :: rest =>
    if a = ['!'] then .not
    else if a = "-a".toList then .both
    else if a = "-o".toList then .either
    else if a = ['('] then if rest.isEmpty then .operand else .opening
    else if a = [')'] then .closing
    else if isBinary dialect a then .binary
    else if isUnary dialect a then
      match rest with
      | [] => .operand
      | [_] => .unary
      | o :: _ :: _ => if isBinary dialect o then .operand else .unary
    else .operand

/-- How a test came out, and the arguments from the last one on that it took. -/
abbrev Step := Except Fault (Bool × List Octets)

mutual

/-- A disjunction. -/
def disjunction (dialect : Dialect) : Nat → List Octets → Shell Step
  | 0, _ => return .error .tooMany
  | fuel + 1, args => do
    match ← conjunction dialect fuel args with
    | .error e => return .error e
    | .ok (a, args) =>
      if kindOf dialect (args.drop 1) = .either then
        match ← disjunction dialect fuel (args.drop 2) with
        | .ok (b, args) => return .ok (a || b, args)
        | .error e => return .error e
      else return .ok (a, args)

/-- A conjunction. -/
def conjunction (dialect : Dialect) : Nat → List Octets → Shell Step
  | 0, _ => return .error .tooMany
  | fuel + 1, args => do
    match ← negation dialect fuel args with
    | .error e => return .error e
    | .ok (a, args) =>
      if kindOf dialect (args.drop 1) = .both then
        match ← conjunction dialect fuel (args.drop 2) with
        | .ok (b, args) => return .ok (a && b, args)
        | .error e => return .error e
      else return .ok (a, args)

/-- A test, perhaps negated. -/
def negation (dialect : Dialect) : Nat → List Octets → Shell Step
  | 0, _ => return .error .tooMany
  | fuel + 1, args => do
    if kindOf dialect args = .not then
      match ← negation dialect fuel (if args.length ≤ 1 then [] else args.drop 1) with
      | .ok (holds, rest) => return .ok (!holds, if rest.isEmpty then args else rest)
      | .error e => return .error e
    else primary dialect fuel args

/-- A single test, or one in parentheses. -/
def primary (dialect : Dialect) : Nat → List Octets → Shell Step
  | 0, _ => return .error .tooMany
  | fuel + 1, args => do
    match kindOf dialect args, args with
    | .finish, _ => return .ok (false, [])
    | _, [] => return .ok (false, [])
    | .opening, _ :: rest =>
      if kindOf dialect rest = .closing then return .ok (false, rest)
      match ← disjunction dialect fuel rest with
      | .error e => return .error e
      | .ok (holds, last) =>
        if kindOf dialect (last.drop 1) = .closing then return .ok (holds, last.drop 1)
        else return .error .unclosed
    | .unary, o :: rest =>
      match rest with
      | [] => return .error (.argumentMissing o)
      | operand :: _ => return .ok ((← unary? (String.ofList o) operand).getD false, rest)
    | _, a :: rest =>
      match rest with
      | o :: more =>
        if kindOf dialect rest = .binary then
          match more with
          | [] => return .error (.argumentMissing o)
          | b :: _ =>
            match ← binary (String.ofList o) a b with
            | .ok holds => return .ok (holds, more)
            | .error e => return .error e
        else return .ok (!a.isEmpty, args)
      | [] => return .ok (!a.isEmpty, args)

end

/-! ## 3. Whole tests -/

/-- A test whose arguments are read from left to right. -/
def decideBy (dialect : Dialect) (args : List Octets) : Shell (Except Fault Bool) := do
  match ← disjunction dialect (4 * args.length + 8) args with
  | .error e => return .error e
  | .ok (holds, last :: _ :: _) =>
    return match dialect with
      | .plain => if args.isEmpty then .ok holds else .error (.unexpected last)
      | .bash => .error .tooMany
  | .ok (holds, _) => return .ok holds

/-- A test in the plain shell: three or four arguments may be a negated or bracketed test. -/
def decidePlain : Nat → List Octets → Shell (Except Fault Bool)
  | 0, _ => return .error .tooMany
  | fuel + 1, args => do
    let isComparison := match args with
      | [_, o, _] => isBinary .plain o
      | _ => false
    match args with
    | [a, o, b] => if isComparison then return (← binary (String.ofList o) a b)
    | _ => pure ()
    if args.length = 3 || args.length = 4 then
      if args.head? = some ['('] && args.getLast? = some [')'] then
        return (← decideBy .plain (args.drop 1).dropLast)
      if args.head? = some ['!'] then
        match ← decidePlain fuel (args.drop 1) with
        | .ok holds => return .ok (!holds)
        | .error e => return .error e
    if args.isEmpty then return .ok false else decideBy .plain args

/-- A test in the other shell, which goes by the number of arguments. -/
def decideBash : Nat → List Octets → Shell (Except Fault Bool)
  | 0, _ => return .error .tooMany
  | fuel + 1, args => do
    let negated (rest : List Octets) : Shell (Except Fault Bool) := do
      match ← decideBash fuel rest with
      | .ok holds => return .ok (!holds)
      | .error e => return .error e
    match args with
    | [] => return .ok false
    | [a] => return .ok (!a.isEmpty)
    | [o, a] =>
      if o = ['!'] then negated [a]
      else if isUnary .bash o then return .ok ((← unary? (String.ofList o) a).getD false)
      else return .error (.notUnary o)
    | [a, o, b] =>
      if isBinary .bash o then binary (String.ofList o) a b
      else if o = "-a".toList then return .ok (!a.isEmpty && !b.isEmpty)
      else if o = "-o".toList then return .ok (!a.isEmpty || !b.isEmpty)
      else if a = ['!'] then negated [o, b]
      else if a = ['('] && b = [')'] then return .ok (!o.isEmpty)
      else return .error (.notBinary o)
    | a :: rest =>
      if rest.length = 3 && a = ['!'] then negated rest else decideBy .bash args

/-- The outcome of a whole test. -/
def decide (args : List Octets) : Shell (Except Fault Bool) := do
  match (← get).dialect with
  | .plain => decidePlain (args.length + 1) args
  | .bash => decideBash (args.length + 1) args

end Runbook.Shell.Test
