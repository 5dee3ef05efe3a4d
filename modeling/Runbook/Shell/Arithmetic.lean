import Runbook.Shell.State

/-!
# Arithmetic of a shell

Whole numbers of 64 bits with the operators of C, of which the plain shell lacks some:

* `Problem`: why an expression has no value;
* `itemsOf`: the parts of an expression;
* `expression` and its companions: its value, and what assignments in it make of variables;
* `evaluate`: the value of a text in a shell.
-/

namespace Runbook.Shell.Arithmetic

/-- How many numbers 64 bits tell apart. -/
def wordSize : Nat := Nat.pow 2 64

/-- A number brought into the range of 64 bits. -/
def wrap (i : Int) : Int := i.bmod wordSize

/-- Why an expression has no value: it divides by zero, something is missing in it or too much, or a
variable in it is no number. -/
inductive Problem where
  | divisionByZero
  | missing (what : String)
  | notNumber (text : Octets)
deriving DecidableEq, Repr

/-- A part of an expression. -/
inductive Item where
  | number (i : Int)
  | name (n : String)
  | operator (o : String)
deriving DecidableEq, Repr

/-- The operators of both shells, a longer one before those that start it. -/
def sharedOperators : List String :=
  ["<<=", ">>=", "<<", ">>", "<=", ">=", "==", "!=", "&&", "||", "+=", "-=", "*=", "/=", "%=", "&=",
    "|=", "^=", "+", "-", "*", "/", "%", "<", ">", "=", "!", "~", "&", "|", "^", "?", ":", "(", ")"]

/-- The operators, a longer one before those that start it. -/
def operatorsOf : Dialect → List String
  | .plain => sharedOperators
  | .bash => ["**", "++", "--"] ++ sharedOperators ++ [","]

/-- The number of a text of digits, in base eight or sixteen if it is marked so. -/
def numberOf? (digits : List Char) : Option Int :=
  let inBase (base : Nat) (ds : List Char) : Option Int :=
    (ds.foldlM (fun n c =>
      ((Text.hexValue? c).filter (· < base)).map (base * n + ·)) 0).map fun n => wrap n
  match digits with
  | '0' :: 'x' :: rest => if rest.isEmpty then none else inBase 16 rest
  | '0' :: 'X' :: rest => if rest.isEmpty then none else inBase 16 rest
  | '0' :: rest => inBase 8 rest
  | digits => inBase 10 digits

/-- The parts of an expression; what is no part of one is taken as an operator. -/
def itemsOf (dialect : Dialect) : Nat → List Char → List Item
  | 0, _ => []
  | fuel + 1, s =>
    match s with
    | [] => []
    | c :: rest =>
      if c == ' ' || c == '\t' || c == '\n' || c == '"' then itemsOf dialect fuel rest
      else if c.isDigit then
        let digits := s.takeWhile Char.isAlphanum
        match numberOf? digits with
        | some n => .number n :: itemsOf dialect fuel (s.dropWhile Char.isAlphanum)
        | none =>
          let isPart (d : Char) : Bool := if c = '0' then '0' ≤ d && d ≤ '7' else d.isDigit
          .number ((numberOf? (s.takeWhile isPart)).getD 0) ::
            itemsOf dialect fuel (s.dropWhile isPart)
      else if Text.isIdentStart c then
        let name := String.ofList (s.takeWhile Text.isIdentChar)
        .name name :: itemsOf dialect fuel (s.dropWhile Text.isIdentChar)
      else
        match (operatorsOf dialect).findSome? fun o =>
            (Text.dropStart? o.toList s).map fun rest => (o, rest) with
        | some (o, rest) => .operator o :: itemsOf dialect fuel rest
        | none => .operator (String.singleton c) :: itemsOf dialect fuel rest

/-- How strongly an operator with two operands binds. -/
def strength? : String → Option Nat
  | "||" => some 1
  | "&&" => some 2
  | "|" => some 3
  | "^" => some 4
  | "&" => some 5
  | "==" => some 6
  | "!=" => some 6
  | "<" => some 7
  | ">" => some 7
  | "<=" => some 7
  | ">=" => some 7
  | "<<" => some 8
  | ">>" => some 8
  | "+" => some 9
  | "-" => some 9
  | "*" => some 10
  | "/" => some 10
  | "%" => some 10
  | "**" => some 11
  | _ => none

/-- A truth value as a number. -/
def ofBool (b : Bool) : Int := if b then 1 else 0

/-- The bits of two numbers put together. -/
def bitwise (f : Nat → Nat → Nat) (a b : Int) : Int :=
  wrap (f (a % wordSize).toNat (b % wordSize).toNat)

/-- The value of an operator with two operands. -/
def compute (o : String) (a b : Int) : Except Problem Int :=
  match o with
  | "||" => .ok (ofBool (a ≠ 0 || b ≠ 0))
  | "&&" => .ok (ofBool (a ≠ 0 && b ≠ 0))
  | "|" => .ok (bitwise (· ||| ·) a b)
  | "^" => .ok (bitwise (· ^^^ ·) a b)
  | "&" => .ok (bitwise (· &&& ·) a b)
  | "==" => .ok (ofBool (a = b))
  | "!=" => .ok (ofBool (a ≠ b))
  | "<" => .ok (ofBool (a < b))
  | ">" => .ok (ofBool (b < a))
  | "<=" => .ok (ofBool (a ≤ b))
  | ">=" => .ok (ofBool (b ≤ a))
  | "<<" => .ok (wrap (a * Nat.pow 2 (b % 64).toNat))
  | ">>" => .ok (a / Nat.pow 2 (b % 64).toNat)
  | "+" => .ok (wrap (a + b))
  | "-" => .ok (wrap (a - b))
  | "*" => .ok (wrap (a * b))
  | "/" => if b = 0 then .error .divisionByZero else .ok (wrap (a.tdiv b))
  | "%" => if b = 0 then .error .divisionByZero else .ok (a.tmod b)
  | "**" => if b < 0 then .error (.missing "EOF") else .ok (wrap (Int.pow a b.toNat))
  | _ => .error (.missing "EOF")

/-- A value, the variables set so far, and what is left of an expression. -/
abbrev Step := Except Problem (Int × Assoc String Int × List Item)

/-- The operator that an assigning one applies first; the plain one applies none. -/
def assigning? (o : String) : Option (Option String) :=
  if o = "=" then some none
  else if ["+=", "-=", "*=", "/=", "%=", "&=", "|=", "^=", "<<=", ">>="].contains o then
    some (some (String.ofList (o.toList.dropLast)))
  else none

/-- The value of a variable. -/
def valueIn (known vars : Assoc String Int) (name : String) : Int :=
  ((vars.get? name).or (known.get? name)).getD 0

mutual

/-- An expression with assignments and conditionals. The variables in it are known as numbers. -/
def expression (known : Assoc String Int) : Nat → Assoc String Int → List Item → Step
  | 0, _, _ => .error (.missing "EOF")
  | fuel + 1, vars, items =>
    let general : Step := do
      let (a, vars, rest) ← binary known 1 fuel vars items
      match rest with
      | .operator "?" :: rest =>
        let (b, vars, rest) ← expression known fuel vars rest
        match rest with
        | .operator ":" :: rest =>
          let (c, vars, rest) ← expression known fuel vars rest
          return (if a ≠ 0 then b else c, vars, rest)
        | _ => throw (.missing "':'")
      | rest => return (a, vars, rest)
    match items with
    | .name n :: .operator o :: rest =>
      match assigning? o with
      | some change => do
        let (b, vars, rest) ← expression known fuel vars rest
        let value ← match change with
          | none => pure b
          | some op => compute op (valueIn known vars n) b
        return (value, vars.put n value, rest)
      | none => general
    | _ => general

/-- An expression of operators that bind at least so strongly. -/
def binary (known : Assoc String Int) (least : Nat) : Nat → Assoc String Int → List Item → Step
  | 0, _, _ => .error (.missing "EOF")
  | fuel + 1, vars, items => do
    let (a, vars, rest) ← unary known fuel vars items
    binaryTail known least a fuel vars rest

/-- The operators and operands behind a first operand. -/
def binaryTail (known : Assoc String Int) (least : Nat) (a : Int) :
    Nat → Assoc String Int → List Item → Step
  | 0, _, _ => .error (.missing "EOF")
  | fuel + 1, vars, items =>
    match items with
    | .operator o :: rest =>
      match strength? o with
      | some strength =>
        if least ≤ strength then do
          let (b, vars, rest) ←
            binary known (if o = "**" then strength else strength + 1) fuel vars rest
          let value ← compute o a b
          binaryTail known least value fuel vars rest
        else .ok (a, vars, items)
      | none => .ok (a, vars, items)
    | _ => .ok (a, vars, items)

/-- An operand with the operators around it. -/
def unary (known : Assoc String Int) : Nat → Assoc String Int → List Item → Step
  | 0, _, _ => .error (.missing "EOF")
  | fuel + 1, vars, items =>
    let value := valueIn known vars
    match items with
    | .number i :: rest => .ok (i, vars, rest)
    | .name n :: .operator "++" :: rest => .ok (value n, vars.put n (wrap (value n + 1)), rest)
    | .name n :: .operator "--" :: rest => .ok (value n, vars.put n (wrap (value n - 1)), rest)
    | .name n :: rest => .ok (value n, vars, rest)
    | .operator "++" :: .name n :: rest =>
      .ok (wrap (value n + 1), vars.put n (wrap (value n + 1)), rest)
    | .operator "--" :: .name n :: rest =>
      .ok (wrap (value n - 1), vars.put n (wrap (value n - 1)), rest)
    | .operator "(" :: rest => do
      let (a, vars, rest) ← expression known fuel vars rest
      match rest with
      | .operator ")" :: rest => return (a, vars, rest)
      | _ => throw (.missing "')'")
    | .operator "-" :: rest => do
      let (a, vars, rest) ← unary known fuel vars rest
      return (wrap (-a), vars, rest)
    | .operator "+" :: rest => unary known fuel vars rest
    | .operator "!" :: rest => do
      let (a, vars, rest) ← unary known fuel vars rest
      return (ofBool (a = 0), vars, rest)
    | .operator "~" :: rest => do
      let (a, vars, rest) ← unary known fuel vars rest
      return (-a - 1, vars, rest)
    | _ => .error (.missing "primary")

end

/-- The number that the text of a variable is, with an optional sign. -/
def valueOf? (s : Octets) : Option Int :=
  match Text.trim s with
  | [] => some 0
  | '-' :: digits => (numberOf? digits).map (-·)
  | '+' :: digits => numberOf? digits
  | digits => numberOf? digits

/-- The variables in an expression as numbers. In the plain shell each of them has to be one. -/
def variablesIn (s : State) : List Item → Except Problem (Assoc String Int)
  | [] => .ok []
  | .name n :: rest => do
    let more ← variablesIn s rest
    let text := (s.bindings.get? n).getD []
    match s.dialect, valueOf? text with
    | _, some i => return more.put n i
    | .bash, none => return more.put n 0
    | .plain, none => throw (.notNumber text)
  | _ :: rest => variablesIn s rest

/-- The value of an expression; an empty one is zero. -/
def evaluate (text : Octets) : Shell (Except Problem Int) := do
  let s ← get
  let items := itemsOf s.dialect (text.length + 1) text
  if items.isEmpty then return .ok 0
  let outcome : Step := do expression (← variablesIn s items) (20 * items.length + 20) [] items
  match outcome with
  | .error problem => return .error problem
  | .ok (value, after, []) =>
    for (n, v) in after do Shell.assign n (toString v).toList
    return .ok value
  | .ok _ => return .error (.missing "EOF")

/-- How a shell says that an expression has no value. -/
def Problem.message (dialect : Dialect) (text : Octets) : Problem → String
  | .notNumber value => "Illegal number: " ++ String.ofList value
  | .divisionByZero =>
    match dialect with
    | .plain => "arithmetic expression: division by zero: \"" ++ String.ofList text ++ "\""
    | .bash =>
      let token := (text.reverse.takeWhile Text.isIdentChar).reverse
      String.ofList text ++ ": division by 0 (error token is \"" ++ String.ofList token ++ "\")"
  | .missing what =>
    match dialect with
    | .plain =>
      "arithmetic expression: expecting " ++ what ++ ": \"" ++ String.ofList text ++ "\""
    | .bash =>
      let token := text.reverse.take 1
      String.ofList text ++ ": syntax error: operand expected (error token is \""
        ++ String.ofList token ++ "\")"

end Runbook.Shell.Arithmetic
