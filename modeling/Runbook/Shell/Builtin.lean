import Runbook.Shell.Arithmetic
import Runbook.Shell.Printing
import Runbook.Shell.Redirect
import Runbook.Shell.Test
import Runbook.Shell.Utility

/-!
# Commands of the shell itself

The commands that a shell carries out without starting a program:

* leaving: `exit`, `return`, `break`, `continue`, and signals with their traps;
* variables and options: `export`, `readonly`, `local`, `unset`, `set`, `shift`, `read`;
* places, tests and descriptions: `cd`, `test`, `type`.

`Builtin.find?` finds one by its name; those that run other commands are not among them.
-/

namespace Runbook.Shell.Builtin

open Utility (Program)

/-- One status in the plain shell and another one in the other. -/
def byDialect (plain bash : Nat) : Shell Nat := do
  return match (← get).dialect with
    | .plain => plain
    | .bash => bash

/-- Complains; the plain shell ends there, and the other goes on with a status. -/
def failHard (text : String) (status : Nat) : Shell Nat := do
  Shell.blame text
  match (← get).dialect with
  | .plain => throw (.exit 2)
  | .bash => return status

/-! ## 1. Leaving -/

/-- The exit code that an argument of a leaving command asks for. -/
def statusOf (name : String) (args : List Octets) : Shell Nat := do
  match args with
  | [] => return (← get).status
  | a :: _ =>
    match (← get).dialect, Test.wholeIn? a with
    | .bash, some i => return (i % 256).toNat
    | .plain, some i =>
      if 0 ≤ i then return (i % 256).toNat
      Shell.blame (name ++ ": Illegal number: " ++ String.ofList a)
      throw (.exit 2)
    | .plain, none =>
      Shell.blame (name ++ ": Illegal number: " ++ String.ofList a)
      throw (.exit 2)
    | .bash, none =>
      Shell.blame (name ++ ": " ++ String.ofList a ++ ": numeric argument required")
      if name = "exit" then throw (.exit 2) else return 2

/-- How many loops an argument speaks of. -/
def levelsOf (args : List Octets) : Nat :=
  max 1 ((args.head?.bind channelNumber?).getD 1)

/-- Leaves loops, or goes on with the next round of one; without a loop nothing happens. -/
def leaveLoop (name : String) (leave : Nat → Leave) : Program := fun args => do
  let s ← get
  if s.loops = 0 then
    if s.dialect = .bash then
      Shell.blame (name ++ ": only meaningful in a \x60for', \x60while', or \x60until' loop")
    return 0
  throw (leave (min s.loops (levelsOf args)))

/-- Leaves a function or a file; one of the shells does not leave a script so. -/
def leaveFunction : Program := fun args => do
  let s ← get
  if s.dialect = .bash && s.locals.isEmpty && !s.sourced then
    Shell.blame "return: can only \x60return' from a function or sourced script"
    return 2
  throw (.fromFunction (← statusOf "return" args))

/-- The signals by name. -/
def signals : List (String × Nat) :=
  [("EXIT", 0), ("HUP", 1), ("INT", 2), ("QUIT", 3), ("ILL", 4), ("TRAP", 5), ("ABRT", 6),
    ("BUS", 7), ("FPE", 8), ("KILL", 9), ("USR1", 10), ("SEGV", 11), ("USR2", 12), ("PIPE", 13),
    ("ALRM", 14), ("TERM", 15), ("CHLD", 17), ("CONT", 18), ("STOP", 19), ("URG", 23),
    ("WINCH", 28)]

/-- The number of a signal, given by its number or its name; one shell also knows a longer name. -/
def signalOf? (dialect : Dialect) (cs : Octets) : Option Nat :=
  match channelNumber? cs with
  | some n => some n
  | none =>
    let name := match dialect with
      | .plain => cs
      | .bash => (Text.dropStart? "SIG".toList cs).getD cs
    (signals.find? fun entry => entry.1.toList = name).map (·.2)

/-- What a shell calls a process that a signal has ended; an interrupted one goes without. -/
def endingName? : Nat → Option String
  | 1 => some "Hangup"
  | 3 => some "Quit"
  | 4 => some "Illegal instruction"
  | 5 => some "Trace/breakpoint trap"
  | 6 => some "Aborted"
  | 7 => some "Bus error"
  | 8 => some "Floating point exception"
  | 9 => some "Killed"
  | 10 => some "User defined signal 1"
  | 11 => some "Segmentation fault"
  | 12 => some "User defined signal 2"
  | 14 => some "Alarm clock"
  | 15 => some "Terminated"
  | _ => none

/-- Whether a signal does nothing to a process that does not wait for it. -/
def isHarmless (signal : Nat) : Bool := [0, 17, 18, 23, 28].contains signal

/-- Sends a signal to the shell or to one that it was started from. -/
def kill : Program := fun args => do
  let s ← get
  let (signal, targets) := match args with
    | ['-', 's'] :: name :: rest => (signalOf? s.dialect name, rest)
    | ['-', '-'] :: rest => (some 15, rest)
    | ('-' :: name) :: rest => (signalOf? s.dialect name, rest)
    | args => (some 15, args)
  match signal, targets with
  | some n, target :: _ =>
    match channelNumber? target with
    | some process =>
      if s.jobs.contains process then
        unless isHarmless n do
          modify fun s => { s with jobs := s.jobs.put process (128 + n) }
        return 0
      let isOwn := process = 0 || s.processes.head? = some process
      if !isOwn && !s.processes.contains process then
        Shell.blame (match s.dialect with
          | .plain => "kill: No such process\n"
          | .bash => "kill: (" ++ String.ofList target ++ ") - No such process")
        return 1
      match isOwn, s.traps.get? n with
      | true, some action =>
        if n = 9 then
          throw (.killed process n)
        modify fun s => { s with pending := s.pending ++ [action] }
        return 0
      | _, _ =>
        if isHarmless n then return 0
        throw (.killed (if process = 0 then s.processes.head?.getD 0 else process) n)
    | none =>
      match s.dialect with
      | .plain =>
        Shell.blame ("kill: Illegal number: " ++ String.ofList target)
        return 2
      | .bash =>
        Shell.blame ("kill: " ++ String.ofList target ++ ": arguments must be process or job IDs")
        return 1
  | none, _ =>
    let name := String.ofList ((args.head?.getD []).drop 1)
    match s.dialect with
    | .plain =>
      Shell.blame ("kill: Illegal option -" ++ String.ofList (name.toList.take 1))
      return 2
    | .bash =>
      Shell.blame ("kill: " ++ name ++ ": invalid signal specification")
      return 1
  | _, [] =>
    match s.dialect with
    | .plain =>
      Shell.blame ("kill: Usage: kill [-s sigspec | -signum | -sigspec] [pid | job]... or\n" ++
        "kill -l [exitstatus]")
    | .bash =>
      Shell.complain ("kill: usage: kill [-s sigspec | -n signum | -sigspec] pid | jobspec ... " ++
        "or kill -l [sigspec]\n")
    return 2

/-- Answers how a background process ended; all of them have. -/
def wait : Program := fun args => do
  match args.getLast?.map channelNumber? with
  | none => return 0
  | some none => return 127
  | some (some process) => return ((← get).jobs.get? process).getD 127

/-- Sets what is done at signals, or forgets it. -/
def trap : Program := fun args => do
  let args := if args.head? = some "--".toList then args.drop 1 else args
  match args with
  | [] => return 0
  | action :: names =>
    let dialect := (← get).dialect
    let isReset := action = ['-'] || (names.isEmpty && (signalOf? dialect action).isSome)
    let names := if names.isEmpty then [action] else names
    let mut status := 0
    for name in names do
      match signalOf? dialect name with
      | some n =>
        if isReset then modify fun s => { s with traps := s.traps.filter fun t => t.1 ≠ n }
        else modify fun s => { s with traps := s.traps.put n action }
      | none =>
        Shell.blame (match dialect with
          | .plain => "trap: " ++ String.ofList name ++ ": bad trap"
          | .bash => "trap: " ++ String.ofList name ++ ": invalid signal specification")
        status := 1
    return status

/-! ## 2. Variables -/

/-- The name and the value of an argument that gives one. -/
def bindingOf (a : Octets) : String × Option Octets :=
  let name := String.ofList (a.takeWhile (· ≠ '='))
  match a.dropWhile (· ≠ '=') with
  | _ :: value => (name, some value)
  | [] => (name, none)

/-- Sets the variables of arguments that give values, and does something else with each name. -/
def declare (command : String) (mark : String → Shell Unit) : Program := fun args => do
  for a in args.filter fun a => a.head? ≠ some '-' do
    let (name, value) := bindingOf a
    if !CommandReader.isName name then
      match (← get).dialect with
      | .plain =>
        Shell.blame (command ++ ": " ++ name ++ ": bad variable name")
        throw (.exit 2)
      | .bash =>
        Shell.blame (command ++ ": \x60" ++ String.ofList a ++ "': not a valid identifier")
        return 1
    if let some value := value then Shell.assign name value
    mark name
  return 0

/-- Lets programs know variables. -/
def exportAll : Program :=
  declare "export" fun name => modify fun s =>
    { s with exported := if s.exported.contains name then s.exported else s.exported ++ [name] }

/-- Fixes variables. -/
def fixAll : Program :=
  declare "readonly" fun name => modify fun s => { s with fixed := s.fixed ++ [name] }

/-- Gives a function variables of its own. -/
def makeLocal : Program := fun args => do
  match (← get).locals with
  | [] =>
    match (← get).dialect with
    | .plain =>
      Shell.blame "local: not in a function"
      throw (.exit 2)
    | .bash =>
      Shell.blame "local: can only be used in a function"
      return 1
  | _ :: _ =>
    for a in args.filter fun a => a.head? ≠ some '-' do
      let (name, value) := bindingOf a
      modify fun s => match s.locals with
        | frame :: outer =>
          if frame.contains name then s
          else { s with locals := frame.put name (s.bindings.get? name) :: outer }
        | [] => s
      match value with
      | some value => Shell.assign name value
      | none =>
        if (← get).dialect = .bash then
          modify fun s => { s with bindings := s.bindings.filter (·.1 ≠ name) }
    return 0

/-- Declares variables, which inside of a function are its own. -/
def declareAny : Program := fun args => do
  if (← get).locals.isEmpty then declare "declare" (fun _ => pure ()) args else makeLocal args

/-- Forgets variables and functions. -/
def unset : Program := fun args => do
  let names := (args.filter fun a => a.head? ≠ some '-').map String.ofList
  let onlyFunctions := args.head? = some "-f".toList
  let s ← get
  if !onlyFunctions then
    if let some name := names.find? s.fixed.contains then
      return (← match s.dialect with
        | .plain => failHard ("unset: " ++ name ++ ": is read only") 2
        | .bash => failHard ("unset: " ++ name ++ ": cannot unset: readonly variable") 1)
    modify fun s => { s with
      bindings := s.bindings.filter fun v => !names.contains v.1
      exported := s.exported.filter fun n => !names.contains n }
  modify fun s => { s with functions := s.functions.filter fun f => !names.contains f.1 }
  return 0

/-- The options with a setting in them turned on or off, by the setting's letter. -/
def withOption (o : Options) (letter : Char) (isOn : Bool) : Option Options :=
  match letter with
  | 'e' => some { o with stopsOnFailure := isOn }
  | 'u' => some { o with refusesUnset := isOn }
  | 'x' => some { o with tells := isOn }
  | 'f' => some { o with keepsPatterns := isOn }
  | _ => if "abhmnvBCEHPT".toList.contains letter then some o else none

/-- The same by the setting's name; only one shell counts every failure in a pipeline. -/
def withNamedOption (dialect : Dialect) (o : Options) (name : String) (isOn : Bool) :
    Option Options :=
  match name with
  | "errexit" => some { o with stopsOnFailure := isOn }
  | "nounset" => some { o with refusesUnset := isOn }
  | "xtrace" => some { o with tells := isOn }
  | "noglob" => some { o with keepsPatterns := isOn }
  | "pipefail" => if dialect = .bash then some { o with countsAllParts := isOn } else none
  | _ => if ["allexport", "monitor", "noclobber", "verbose", "vi", "emacs", "posix"].contains name
      then some o else none

/-- Sets the options of the letters of an argument. -/
def setLetters (isOn : Bool) : List Char → Shell Unit
  | [] => pure ()
  | 'o' :: rest => setLetters isOn rest
  | c :: rest => do
    match withOption (← get).options c isOn with
    | some o => modify fun s => { s with options := o }
    | none =>
      let sign := String.singleton (if isOn then '-' else '+') ++ String.singleton c
      match (← get).dialect with
      | .plain =>
        Shell.blame ("set: Illegal option " ++ sign)
        throw (.exit 2)
      | .bash =>
        Shell.blame ("set: " ++ sign ++ ": invalid option")
        Shell.complain
          "set: usage: set [-abefhkmnptuvxBCEHPT] [-o option-name] [--] [-] [arg ...]\n"
    setLetters isOn rest

/-- Sets options and arguments; `named` says that the first argument is the name of an option, to be
turned on or off. -/
def setFrom (named : Option Bool) : List Octets → Shell Nat
  | [] => return 0
  | arg :: rest => do
    match named with
    | some isOn =>
      let s ← get
      let name := String.ofList arg
      match withNamedOption s.dialect s.options name isOn with
      | some o =>
        modify fun s => { s with options := o }
        setFrom none rest
      | none =>
        match s.dialect with
        | .plain => failHard ("set: Illegal option " ++ (if isOn then "-o " else "+o ") ++ name) 2
        | .bash => failHard ("set: " ++ name ++ ": invalid option name") 2
    | none =>
      match arg with
      | ['-', '-'] =>
        modify fun s => { s with arguments := rest }
        return 0
      | '-' :: c :: letters =>
        setLetters true (c :: letters)
        setFrom (if (c :: letters).contains 'o' then some true else none) rest
      | '+' :: c :: letters =>
        setLetters false (c :: letters)
        setFrom (if (c :: letters).contains 'o' then some false else none) rest
      | _ =>
        modify fun s => { s with arguments := arg :: rest }
        return 0

/-- Sets options and arguments. -/
def setOptions : Program := setFrom none

/-- Drops the first arguments. -/
def shift : Program := fun args => do
  let n := (args.head?.bind channelNumber?).getD 1
  if (← get).arguments.length < n then
    if (← get).dialect = .bash then return 1
    Shell.blame "shift: can't shift that many"
    throw (.exit 2)
  modify fun s => { s with arguments := s.arguments.drop n }
  return 0

/-- A line with the backslashes taken out that take the meaning from the next character. -/
def withoutBackslashes : List Char → List Char
  | [] => []
  | ['\\'] => []
  | '\\' :: c :: rest => c :: withoutBackslashes rest
  | c :: rest => c :: withoutBackslashes rest

/-- Gives the words of a line to names; the last name takes the rest. -/
def giveWords (isBlank : Char → Bool) (isSeparator : Char → Bool) :
    List String → Octets → Shell Unit
  | [], _ => pure ()
  | [name], line =>
    Shell.assign name (((line.dropWhile isBlank).reverse.dropWhile isBlank).reverse)
  | name :: names, line => do
    let line := line.dropWhile isBlank
    Shell.assign name (line.takeWhile (!isSeparator ·))
    let rest := (line.dropWhile (!isSeparator ·)).dropWhile isBlank
    let isMark := rest.head?.any fun c => isSeparator c && !isBlank c
    let afterBlank := (line.dropWhile (!isSeparator ·)).head?.any isBlank
    giveWords isBlank isSeparator names
      (if isMark then rest.drop 1 else if afterBlank then rest else rest.drop 1)

/-- Reads a line into variables. -/
def read : Program := fun args => do
  let (options, names) := Utility.splitOptions args
  let (line, hasEnd) ← Shell.readLine
  let line := if options.contains 'r' then line else withoutBackslashes line
  let separators := ((← Shell.valueOf? "IFS").getD " \t\n".toList)
  let isSeparator (c : Char) : Bool := separators.contains c
  let isBlank (c : Char) : Bool := isSeparator c && (c == ' ' || c == '\t' || c == '\n')
  match names, (← get).dialect with
  | [], .plain =>
    Shell.blame "read: arg count"
    throw (.exit 2)
  | [], .bash =>
    Shell.assign "REPLY" line
    return if hasEnd then 0 else 1
  | names, _ =>
    giveWords isBlank isSeparator (names.map String.ofList) line
    return if hasEnd then 0 else 1

/-- Evaluates expressions; a last value of zero is a failure. -/
def letAll : Program := fun args => do
  let mut last : Int := 0
  for a in args do
    match ← Arithmetic.evaluate a with
    | .ok value => last := value
    | .error problem =>
      Shell.blame ("let: " ++ problem.message (← get).dialect a)
      return 1
  return if last = 0 then 1 else 0

/-! ## 3. Places, tests and descriptions -/

/-- Changes the directory. -/
def cd : Program := fun args => do
  let s ← get
  let (_, places) := Utility.splitOptions args
  let home := (s.bindings.get? "HOME").getD "/".toList
  let isBack := places.head? = some ['-']
  let old := (s.bindings.get? "OLDPWD").getD s.directory.toList
  let place := if isBack then old else places.head?.getD home
  if s.dialect = .bash && 1 < places.length then
    Shell.blame "cd: too many arguments"
    return 1
  let path ← Shell.pathOf place
  if ← Shell.isDirectory path then
    modify fun s => { s with
      directory := path, bindings := s.bindings.put "OLDPWD" s.directory.toList }
    if isBack then Utility.putLine path.toList
    return 0
  match s.dialect with
  | .plain =>
    Shell.blame ("cd: can't cd to " ++ String.ofList place)
    return 2
  | .bash =>
    let isFile := (← Shell.fileAt? path).isSome
    Shell.blame ("cd: " ++ String.ofList place ++
      if isFile then ": Not a directory" else ": No such file or directory")
    return 1

/-- Decides a test under the name that it was called by. -/
def test (name : String) : Program := fun args => do
  match ← Test.decide args with
  | .ok holds => return if holds then 0 else 1
  | .error fault =>
    Shell.blame (name ++ ": " ++ fault.message (← get).dialect)
    return 2

/-- A test in brackets, the last of which must be there. -/
def bracketTest : Program := fun args => do
  if args.getLast? = some [']'] then test "[" args.dropLast
  else
    Shell.blame (match (← get).dialect with
      | .plain => "[: missing ]"
      | .bash => "[: missing \x60]'")
    return 2

/-- Writes texts in a format. -/
def printf : Program := fun args => do
  let dialect := (← get).dialect
  let args := if args.head? = some "--".toList then args.drop 1 else args
  match args with
  | pattern :: args =>
    let (text, problems) := Printing.format dialect pattern args
    Shell.write 1 text
    for p in problems do Shell.blame ("printf: " ++ p.message dialect)
    let isBad := problems.any fun p => match p with
      | .badConversion _ => true
      | _ => false
    let bad ← byDialect 2 1
    return if isBad then bad else if problems.isEmpty then 0 else 1
  | [] =>
    match dialect with
    | .plain => Shell.blame "printf: usage: printf format [arg ...]"
    | .bash => Shell.complain "printf: usage: printf [-v var] format [arguments]\n"
    return 2

/-- The command of the shell with a name, without those that describe commands. -/
def plain? : String → Option Program
  | ":" => some fun _ => return 0
  | "true" => some fun _ => return 0
  | "false" => some fun _ => return 1
  | "echo" => some fun args => do
    Shell.write 1 (Printing.echo (← get).dialect args)
    return 0
  | "printf" => some printf
  | "exit" => some fun args => do throw (.exit (← statusOf "exit" args))
  | "return" => some leaveFunction
  | "break" => some (leaveLoop "break" .fromLoop)
  | "continue" => some (leaveLoop "continue" .nextRound)
  | "kill" => some kill
  | "trap" => some trap
  | "export" => some exportAll
  | "readonly" => some fixAll
  | "local" => some makeLocal
  | "unset" => some unset
  | "set" => some setOptions
  | "shift" => some shift
  | "read" => some read
  | "cd" => some cd
  | "pwd" => some fun _ => do
    Utility.putLine (← get).directory.toList
    return 0
  | "test" => some (test "test")
  | "[" => some bracketTest
  | "umask" => some fun args => do
    if args.isEmpty then Utility.putLine "0022".toList
    return 0
  | "wait" => some wait
  | "alias" => some fun _ => return 0
  | "unalias" => some fun _ => return 0
  | "hash" => some fun _ => return 0
  | "jobs" => some fun _ => return 0
  | "ulimit" => some fun _ => do
    Utility.putLine "unlimited".toList
    return 0
  | _ => none

/-- The command that only one of the shells has. -/
def bashOnly? : String → Option Program
  | "declare" => some declareAny
  | "typeset" => some declareAny
  | "let" => some letAll
  | "shopt" => some fun _ => return 0
  | _ => none

/-- The commands of the shell that run other commands. -/
def runners : List String := [".", "eval", "exec", "command"]

/-- Whether a name is that of a command of the shell. -/
def isKnown (dialect : Dialect) (name : String) : Bool :=
  (plain? name).isSome || runners.contains name || name = "type" ||
    (dialect = .bash && ((bashOnly? name).isSome || ["source", "builtin"].contains name))

/-- Whether a name is that of a program. -/
def isProgram (name : String) : Bool :=
  (Utility.find? name).isSome || ["sh", "dash", "bash", "env", "xargs", "timeout"].contains name

/-- The place of a program. -/
def placeOf (name : String) : String := "/usr/bin/" ++ name

/-- Says what names stand for. -/
def describe : Program := fun args => do
  let mut status := 0
  for a in args do
    let name := String.ofList a
    let s ← get
    if CommandReader.reservedWords.contains name then
      Utility.putLine (name ++ " is a shell keyword").toList
    else if s.functions.contains name then
      Utility.putLine (name ++ match s.dialect with
        | .plain => " is a shell function"
        | .bash => " is a function").toList
    else if isKnown s.dialect name then Utility.putLine (name ++ " is a shell builtin").toList
    else if isProgram name then Utility.putLine (name ++ " is " ++ placeOf name).toList
    else
      match s.dialect with
      | .plain =>
        Utility.putLine (name ++ ": not found").toList
        status := 127
      | .bash =>
        Shell.blame ("type: " ++ name ++ ": not found")
        status := 1
  return status

/-- Whether a command of the shell is in a file as well. -/
def hasOwnFile (name : String) : Bool :=
  ["echo", "true", "false", "test", "printf", "kill", "pwd"].contains name

/-- Says where programs are. -/
def which : Program := fun args => do
  let names := args.filter fun a => a.head? ≠ some '-'
  let found := names.filter fun a => isProgram (String.ofList a) || hasOwnFile (String.ofList a)
  for a in found do Utility.putLine (placeOf (String.ofList a)).toList
  return if found.length = names.length && !names.isEmpty then 0 else 1

/-- The command of the shell with a name. -/
def find? (dialect : Dialect) (name : String) : Option Program :=
  match plain? name with
  | some program => some program
  | none =>
    if name = "type" then some describe
    else if name = "which" then some which
    else if dialect = .bash then bashOnly? name
    else none

end Runbook.Shell.Builtin
