import Runbook.Shell.Leaving
import Runbook.Shell.Message
import Runbook.Shell.Program
import Runbook.Shell.Substitution

/-!
# Carrying out commands

Every function here spends one unit of fuel for each call inside of it:

* `expand` and its companions: what words expand to;
* `withRedirections`: a command with its channels turned;
* `executeScript`, `runToEnd`: scripts, line by line, and a shell up to its end;
* `call` and its companions: functions, commands of the shell and programs by their names;
* `runShell`: what a shell does with its words;
* `execute` and its companions: commands of every kind;
* `testOr` and its companions: tests in double brackets.
-/

namespace Runbook.Shell

mutual

/-- The pieces of a word. In an `operand` that stands in the place of a value, unquoted text is cut
into fields. -/
def expand (isOperand : Bool) : Nat → Word → Shell (List Piece)
  | 0, _ => throw .unfinished
  | _ + 1, [] => return []
  | fuel + 1, p :: rest => do
    let first ← expandPart isOperand fuel p
    return first ++ (← expand isOperand fuel rest)

/-- The pieces of a part of a word. -/
def expandPart (isOperand : Bool) : Nat → Part → Shell (List Piece)
  | 0, _ => throw .unfinished
  | fuel + 1, p => do
    match p with
    | .text cs true => return .hold :: cs.map fun c => .mark ⟨c, true⟩
    | .text cs false =>
      if isOperand then return splitValue (← separators) cs
      else return cs.map fun c => .mark ⟨c, false⟩
    | .output script isQuoted =>
      let out ← outputOf (executeScript fuel "command substitution: " script)
      return piecesOfValue (← separators) isQuoted out
    | .arithmetic operand isQuoted =>
      let text := textOfPieces (← expand false fuel operand)
      match ← Arithmetic.evaluate text with
      | .ok value => return piecesOfValue (← separators) isQuoted (toString value).toList
      | .error problem => endFor (problem.message (← get).dialect text) 2 1
    | .senseless text =>
      match (← get).dialect with
      | .plain => endFor "Bad substitution" 2 2
      | .bash => endFor ("$\x7b" ++ String.ofList text ++ "\x7d: bad substitution") 1 1
    | .parameter name use operands isQuoted =>
      let arguments := (← get).arguments
      let separators ← separators
      match name, use, isQuoted with
      | "@", .value, true =>
        return [Piece.cut].intercalate (arguments.map fun a =>
          Piece.hold :: a.map fun c => .mark ⟨c, true⟩)
      | "@", .value, false =>
        return [Piece.cut].intercalate (arguments.map (splitValue separators))
      | "*", .value, false =>
        return [Piece.cut].intercalate (arguments.map (splitValue separators))
      | "*", .value, true =>
        let joined := (separators.take 1).intercalate arguments
        return .hold :: joined.map fun c => .mark ⟨c, true⟩
      | _, _, _ => expandUse fuel name use operands isQuoted

/-- The pieces of what is made of a parameter. -/
def expandUse : Nat → String → ParameterUse → List Word → Bool → Shell (List Piece)
  | 0, _, _, _, _ => throw .unfinished
  | fuel + 1, name, use, operands, isQuoted => do
    let dialect := (← get).dialect
    let found ← Shell.valueOf? name
    let operand := operands.head?.getD []
    let pieces (cs : Octets) : Shell (List Piece) := do
      return piecesOfValue (← separators) isQuoted cs
    let value := found.getD []
    let isMissing (orEmpty : Bool) : Bool := found.isNone || (orEmpty && value.isEmpty)
    let instead : Shell (List Piece) := do
      let ps ← expand (!isQuoted) fuel operand
      return if isQuoted then .hold :: ps else ps
    let refuse : Shell Unit := do
      if found.isNone && (← get).options.refusesUnset && name ≠ "@" && name ≠ "*" then
        match dialect with
        | .plain => endFor (name ++ ": parameter not set") 2 2
        | .bash => endFor (name ++ ": unbound variable") 127 127
    match use with
    | .value =>
      refuse
      pieces value
    | .length =>
      refuse
      pieces (toString (lengthIn dialect value)).toList
    | .instead orEmpty => if isMissing orEmpty then instead else pieces value
    | .alternative orEmpty =>
      if isMissing orEmpty then return if isQuoted then [.hold] else [] else instead
    | .assign orEmpty =>
      if isMissing orEmpty then
        let text := textOfPieces (← expand false fuel operand)
        Shell.assign name text
        pieces text
      else pieces value
    | .demand orEmpty =>
      if isMissing orEmpty then
        let text := textOfPieces (← expand false fuel operand)
        let standard := match dialect, orEmpty with
          | _, false => "parameter not set"
          | .plain, true => "parameter not set or null"
          | .bash, true => "parameter null or not set"
        endFor (name ++ ": " ++ if text.isEmpty then standard else String.ofList text) 2 127
      else pieces value
    | .withoutStart longest =>
      refuse
      let pattern := marksOf (← expand false fuel operand)
      pieces (Glob.withoutStart longest pattern value)
    | .withoutEnd longest =>
      refuse
      let pattern := marksOf (← expand false fuel operand)
      pieces (Glob.withoutEnd longest pattern value)
    | .replace all =>
      refuse
      let pattern := marksOf (← expand false fuel operand)
      let replacement := textOfPieces (← expand false fuel ((operands.drop 1).head?.getD []))
      pieces (replaced all pattern replacement (value.length + 1) value)
    | .recase toUpper all =>
      refuse
      pieces (recased toUpper all value)
    | .slice =>
      refuse
      let text := textOfPieces (← expand false fuel operand)
      let numbers ← (text.splitOn ':').mapM Arithmetic.evaluate
      match numbers with
      | [.ok start] => pieces (sliced value start none)
      | [.ok start, .ok length] => pieces (sliced value start (some length))
      | _ => endFor (name ++ ": bad substitution") 1 1

/-- The fields of words, patterns of names put in place. -/
def expandFields : Nat → List Word → Shell (List Octets)
  | 0, _ => throw .unfinished
  | _ + 1, [] => return []
  | fuel + 1, w :: rest => do
    let home := ((← get).bindings.get? "HOME").getD []
    let words := match (← get).dialect with
      | .plain => [w]
      | .bash => w.withBraces
    let mut names : List Octets := []
    for w in words do
      for field in fieldsOf (← expand false fuel (w.withHome home)) do
        names := names ++ (← namesFor field)
    return names ++ (← expandFields fuel rest)

/-- The pieces of a word that is not cut. -/
def expandWhole : Nat → Word → Shell (List Piece)
  | 0, _ => throw .unfinished
  | fuel + 1, w => do
    let before ← get
    let home := (before.bindings.get? "HOME").getD []
    modify fun s => { s with bindings := s.bindings.put "IFS" [] }
    let pieces ← expand false fuel (w.withHome home)
    modify fun s => { s with bindings := match before.bindings.get? "IFS" with
      | some cs => s.bindings.put "IFS" cs
      | none => s.bindings.filter fun v => v.1 ≠ "IFS" }
    return pieces

/-- The text of a word that is not cut. -/
def expandText : Nat → Word → Shell Octets
  | 0, _ => throw .unfinished
  | fuel + 1, w => do return textOfPieces (← expandWhole fuel w)

/-- A command under redirections; `isStrict` says that the plain shell ends if one of them fails. -/
def withRedirections (isStrict : Bool) (rs : List Redirection) (run : Shell Unit) :
    Nat → Shell Unit
  | 0 => throw .unfinished
  | fuel + 1 => do
    match ← channelsAfter fuel rs (← get).channels with
    | some channels => Shell.withChannels channels run
    | none =>
      match (← get).dialect with
      | .plain => if isStrict then throw (.exit 2) else setStatus 2
      | .bash => setStatus 1

/-- The channels after redirections, from left to right. -/
def channelsAfter : Nat → List Redirection → Assoc Nat Channel →
    Shell (Option (Assoc Nat Channel))
  | 0, _, _ => throw .unfinished
  | _ + 1, [], channels => return some channels
  | fuel + 1, r :: rest, channels => do
    let target ← expandText fuel r.target
    match ← redirect r.kind r.channel target channels with
    | some channels => channelsAfter fuel rest channels
    | none => return none

/-- A script in the shell that runs, line by line; `place` says in a message where it stood. -/
def executeScript : Nat → String → Octets → Shell Unit
  | 0, _, _ => throw .unfinished
  | fuel + 1, place, script => do
    let s ← get
    let lines := ScriptLines.ofScript s.dialect script
    if lines.commands.isEmpty && lines.failure.isNone then setStatus 0
    executeAll fuel lines.commands
    if let some failure := lines.failure then
      Shell.complain (failure.message s.dialect s.name place script)
      if s.dialect = .bash && place = "eval: " then setStatus 2 else throw (.exit 2)

/-- The traps of signals that have come. -/
def runPending : Nat → Shell Unit
  | 0 => throw .unfinished
  | fuel + 1 => do
    let s ← get
    unless s.pending.isEmpty do
      set { s with pending := [] }
      for action in s.pending do
        executeScript fuel "trap: " action
        setStatus s.status

/-- What a shell does from its start to its end, and the trap for its end. -/
def runToEnd (run : Shell Unit) : Nat → Shell Unit
  | 0 => throw .unfinished
  | fuel + 1 => do
    let status ← endingStatus run
    setStatus status
    match (← get).traps.get? 0 with
    | none => pure ()
    | some action =>
      modify fun s => { s with traps := s.traps.filter fun t => t.1 ≠ 0 }
      try
        executeScript fuel "trap: " action
        setStatus status
      catch
        | .exit status => setStatus status
        | e => throw e

/-- A command called by its name. -/
def call : Nat → List Octets → Shell Unit
  | 0, _ => throw .unfinished
  | _ + 1, [] => return
  | fuel + 1, name :: args => do
    let word := String.ofList name
    match (← get).functions.get? word with
    | some body => callFunction fuel body args
    | none => callPlain fuel word args

/-- A function with its arguments. -/
def callFunction : Nat → Command → List Octets → Shell Unit
  | 0, _, _ => throw .unfinished
  | fuel + 1, body, args => do
    let before ← get
    set { before with arguments := args, locals := [] :: before.locals }
    let back : Shell Unit := modify fun s =>
      let frame := s.locals.head?.getD []
      let bindings := frame.foldl (fun vs entry => match entry.2 with
        | some value => vs.put entry.1 value
        | none => vs.filter fun v => v.1 ≠ entry.1) s.bindings
      { s with arguments := before.arguments, locals := before.locals, bindings := bindings }
    try
      execute fuel body
      back
    catch
      | .fromFunction status =>
        back
        setStatus status
      | e =>
        back
        throw e

/-- A command called by its name, functions passed over. -/
def callPlain : Nat → String → List Octets → Shell Unit
  | 0, _, _ => throw .unfinished
  | fuel + 1, word, args => do
    let dialect := (← get).dialect
    match word with
    | "eval" => executeScript fuel "eval: " ([' '].intercalate args)
    | "." => source fuel "." args
    | "source" =>
      match dialect with
      | .plain => callNamed fuel word args
      | .bash => source fuel "source" args
    | "command" => callCommand fuel args
    | "builtin" =>
      match dialect, args with
      | .bash, name :: args => callPlain fuel (String.ofList name) args
      | _, _ => callNamed fuel word args
    | "exec" =>
      match args with
      | [] => setStatus 0
      | name :: rest =>
        let word := String.ofList name
        if Builtin.isProgram word || (program? word).isSome || word.toList.contains '/' then
          callNamed fuel word rest
          throw (.exit (← get).status)
        else
          Shell.blame ("exec: " ++ word ++ ": not found")
          throw (.exit 127)
    | _ => callNamed fuel word args

/-- What is known of a command, or the command with functions passed over. -/
def callCommand : Nat → List Octets → Shell Unit
  | 0, _ => throw .unfinished
  | fuel + 1, args => do
    match args with
    | [] => setStatus 0
    | ['-', 'v'] :: names =>
      let s ← get
      let described := names.filterMap fun a =>
        let name := String.ofList a
        if Builtin.isKnown s.dialect name || s.functions.contains name ||
            CommandReader.reservedWords.contains name then some a
        else if Builtin.isProgram name then some (Builtin.placeOf name).toList
        else none
      for line in described do Utility.putLine line
      let missing := match s.dialect with
        | .plain => 127
        | .bash => 1
      setStatus (if described.length < names.length then missing else 0)
    | ['-', 'V'] :: names => setStatus (← Builtin.describe names)
    | name :: args => callPlain fuel (String.ofList name) args

/-- A script from a file in the shell that runs. -/
def source : Nat → String → List Octets → Shell Unit
  | 0, _, _ => throw .unfinished
  | fuel + 1, name, args => do
    match args with
    | [] =>
      match (← get).dialect with
      | .plain => setStatus 0
      | .bash =>
        Shell.blame (name ++ ": filename argument required")
        Shell.complain (name ++ ": usage: " ++ name ++ " filename [arguments]\n")
        setStatus 2
    | file :: _ =>
      let text := String.ofList file
      let found ← Shell.fileAt? (← Shell.pathOf file)
      match found, (← get).dialect with
      | some script, .bash => executeFile fuel (text ++ ": ") script
      | none, .bash =>
        Shell.blame (text ++ ": No such file or directory")
        setStatus 1
      | found, .plain =>
        match found, text.toList.contains '/' with
        | some script, true => executeFile fuel "" script
        | none, true => do
          Shell.blame (".: cannot open " ++ text ++ ": No such file")
          throw (.exit 2)
        | _, false =>
          Shell.blame (".: " ++ text ++ ": not found")
          throw (.exit 2)

/-- The script of a file, which `return` leaves. -/
def executeFile : Nat → String → Octets → Shell Unit
  | 0, _, _ => throw .unfinished
  | fuel + 1, place, script => do
    let sourced := (← get).sourced
    modify fun s => { s with sourced := true }
    try
      executeScript fuel place script
      modify fun s => { s with sourced := sourced }
    catch
      | .fromFunction status => modify fun s => { s with sourced := sourced, status := status }
      | e => throw e

/-- A command of the shell itself, a program or a script that is one. -/
def callNamed : Nat → String → List Octets → Shell Unit
  | 0, _, _ => throw .unfinished
  | fuel + 1, word, args => do
    let dialect := (← get).dialect
    let base := programName word
    match Builtin.find? dialect word, program? base, shellNamed? base with
    | some run, _, _ => setStatus (← run args)
    | none, some run, _ => setStatus (← run args)
    | none, none, some dialect => callShell fuel dialect word args
    | none, none, none =>
      match base with
      | "env" => callEnvironment fuel args
      | "xargs" => callForInput fuel args
      | "timeout" => call fuel (args.drop 1)
      | _ => callFile fuel word args

/-- A command that is no known program: a script that may be run, or nothing. -/
def callFile : Nat → String → List Octets → Shell Unit
  | 0, _, _ => throw .unfinished
  | fuel + 1, word, args => do
    let s ← get
    let isPath := word.toList.contains '/'
    let path ← Shell.pathOf word.toList
    let fail (plain bash : String) (status : Nat) : Shell Unit := do
      Shell.blame (word ++ match s.dialect with
        | .plain => plain
        | .bash => bash)
      setStatus status
    match isPath, s.disk.files.get? path with
    | true, some script =>
      if s.disk.programs.contains path then
        let first := String.ofList (script.takeWhile (· ≠ '\n'))
        let isBash := Text.startsWith "#!".toList script && Text.occursIn "bash".toList first.toList
        callShell fuel (if isBash then .bash else .plain) word (word.toList :: args)
      else fail ": Permission denied" ": Permission denied" 126
    | true, none =>
      if ← Shell.isDirectory path then fail ": Permission denied" ": Is a directory" 126
      else fail ": not found" ": No such file or directory" 127
    | false, _ => fail ": not found" ": command not found" 127

/-- A program with variables of its own. -/
def callEnvironment : Nat → List Octets → Shell Unit
  | 0, _ => throw .unfinished
  | fuel + 1, args => do
    match args with
    | [] => setStatus (← Utility.printenv [])
    | a :: rest =>
      match Builtin.bindingOf a with
      | (name, some value) =>
        inSubshell do
          modify fun s => { s with
            bindings := s.bindings.put name value, exported := name :: s.exported }
          callEnvironment fuel rest
      | (name, none) =>
        if a = "-i".toList then
          inSubshell do
            modify fun s => { s with exported := [] }
            callEnvironment fuel rest
        else if Builtin.isProgram name || (program? name).isSome || name.toList.contains '/' then
          inSubshell do
            modify fun s => { s with functions := [] }
            call fuel (a :: rest)
        else
          Shell.complain ("env: \xe2\x80\x98" ++ name ++ "\xe2\x80\x99" ++ Utility.notThere)
          setStatus 127

/-- A command for the words of the input. -/
def callForInput : Nat → List Octets → Shell Unit
  | 0, _ => throw .unfinished
  | fuel + 1, args => do
    let words := inputWords (← Shell.readAll)
    let (size, command) := match args with
      | ['-', 'n'] :: n :: rest => (Utility.countOf n 1, rest)
      | ('-' :: 'n' :: n) :: rest => (Utility.countOf n 1, rest)
      | args => (max 1 words.length, args)
    let command := if command.isEmpty then ["echo".toList] else command
    let rounds := if words.isEmpty then [[]] else chunks size (words.length + 1) words
    let mut status := 0
    for round in rounds do
      callNamed fuel (programName (String.ofList (command.head?.getD []))) (command.drop 1 ++ round)
      if (← get).status ≠ 0 then status := 123
    setStatus status

/-- A shell as a program of its own: it knows the files and the exported variables. -/
def callShell : Nat → Dialect → String → List Octets → Shell Unit
  | 0, _, _, _ => throw .unfinished
  | fuel + 1, dialect, name, args => do
    let before ← get
    let own := before.processes.head?.getD 1 + 1
    let child : Shell Unit := do
      modify fun s => { s with
        dialect := dialect, name := name, line := 1, processes := own :: s.processes,
        bindings := Assoc.overlay (ownVariables dialect)
          (s.bindings.filter fun v => s.exported.contains v.1 || v.1 = "IFS"),
        fixed := [], functions := [], arguments := [], locals := [], jobs := [],
        loops := 0, guards := 0, sourced := false,
        options := ⟨false, false, false, false, false⟩ }
      runShell fuel args
    try inSubshell child
    catch
      | .killed process signal =>
        if process = own then
          modify fun s => { before with
            disk := s.disk, streams := s.streams, status := 128 + signal }
          if let some text := Builtin.endingName? signal then Shell.complain (text ++ "\n")
        else throw (.killed process signal)
      | e => throw e

/-- What a shell does with its words: a script after `-c` and the arguments for it, the script in a
file, or what it reads. -/
def runShell : Nat → List Octets → Shell Unit
  | 0, _ => throw .unfinished
  | fuel + 1, args => do
    match args with
    | ['-', 'c'] :: script :: rest =>
      match rest with
      | name :: arguments =>
        modify fun s => { s with name := String.ofList name, arguments := arguments }
      | [] => pure ()
      runToEnd (executeScript fuel "-c: " script) fuel
    | ['-', 'c'] :: [] =>
      let s ← get
      Shell.complain (s.name ++ match s.dialect with
        | .plain => ": 0: -c requires an argument\n"
        | .bash => ": -c: option requires an argument\n")
      setStatus 2
    | ['-', 'o'] :: option :: rest =>
      setStatus (← Builtin.setOptions ["-o".toList, option])
      runShell fuel rest
    | ('-' :: letters) :: rest =>
      Builtin.setLetters true (letters.filter fun c => c ≠ 'c' && c ≠ 'l' && c ≠ 's')
      let isScript := letters.contains 'c'
      runShell fuel (if isScript then ['-', 'c'] :: rest else rest)
    | file :: arguments =>
      match ← Shell.fileAt? (← Shell.pathOf file) with
      | some script =>
        modify fun s => { s with name := String.ofList file, arguments := arguments }
        runToEnd (executeScript fuel "" script) fuel
      | none =>
        let problem := match (← get).dialect with
          | .plain => ": 0: cannot open " ++ String.ofList file ++ ": No such file"
          | .bash => ": " ++ String.ofList file ++ ": No such file or directory"
        Shell.complain ((← get).name ++ problem ++ "\n")
        setStatus (match (← get).dialect with
          | .plain => 2
          | .bash => 127)
    | [] =>
      let script ← Shell.readAll
      runToEnd (executeScript fuel "" script) fuel

/-- The assignments in front of a command. -/
def assignAll : Nat → List (String × Word) → Shell Unit
  | 0, _ => throw .unfinished
  | _ + 1, [] => return
  | fuel + 1, (name, w) :: rest => do
    Shell.assign name (← expandText fuel w)
    assignAll fuel rest

/-- Tells of a command before it is carried out. -/
def tell : Nat → List (String × Word) → List Octets → Shell Unit
  | 0, _, _ => throw .unfinished
  | fuel + 1, assignments, fields => do
    let s ← get
    if s.options.tells then
      let shown (cs : Octets) : Octets := match s.dialect with
        | .plain => cs
        | .bash => quotedForTelling cs
      let mut texts := fields.map shown
      for (name, w) in assignments.reverse do
        texts := (name.toList ++ '=' :: shown (← expandText fuel w)) :: texts
      Shell.complain (String.ofList ("+ ".toList ++ [' '].intercalate texts ++ ['\n']))

/-- A simple command. -/
def executeSimple : Nat → List (String × Word) → List Word → List Redirection → Shell Unit
  | 0, _, _, _ => throw .unfinished
  | fuel + 1, assignments, words, rs => do
    let fields ← expandFields fuel words
    tell fuel assignments fields
    match fields with
    | [] =>
      assignAll fuel assignments
      unless words.any hasOutput || assignments.any (fun a => hasOutput a.2) do setStatus 0
      unless rs.isEmpty do withRedirections false rs (pure ()) fuel
    | name :: _ =>
      let word := String.ofList name
      if fields.length = 1 && word = "exec" then
        match ← channelsAfter fuel rs (← get).channels with
        | some channels =>
          modify fun s => { s with channels := channels, status := 0 }
        | none =>
          match (← get).dialect with
          | .plain => throw (.exit 2)
          | .bash => throw (.exit 1)
      else
        let before ← get
        assignAll fuel assignments
        modify fun s => { s with exported := assignments.map (·.1) ++ s.exported }
        withRedirections (isSpecial word) rs (call fuel fields) fuel
        unless assignments.isEmpty do
          modify fun s => { s with
            exported := before.exported
            bindings := if isSpecial word && s.dialect = .plain then s.bindings else
              assignments.foldl (fun vs a =>
                match before.bindings.get? a.1 with
                | some old => vs.put a.1 old
                | none => vs.filter fun v => v.1 ≠ a.1) s.bindings }

/-- A command. -/
def execute : Nat → Command → Shell Unit
  | 0, _ => throw .unfinished
  | fuel + 1, c => do
    match c with
    | .simple line assignments words rs =>
      modify fun s => { s with line := line }
      executeSimple fuel assignments words rs
      runPending fuel
      stopOnFailure
    | .background body =>
      let before ← get
      withoutStopping (inSubshell do
        modify fun s => { s with channels := s.channels.put 0 .nothing }
        execute fuel body)
      let job := 100 + before.jobs.length
      modify fun s => { s with jobs := (job, s.status) :: s.jobs, status := 0 }
    | .redirected body rs => withRedirections false rs (execute fuel body) fuel
    | .pipeline isNegated parts =>
      if isNegated then
        withoutStopping (executePipeline fuel parts 0)
        setStatus (if (← get).status = 0 then 1 else 0)
      else
        executePipeline fuel parts 0
        stopOnFailure
    | .both first second =>
      withoutStopping (execute fuel first)
      if (← get).status = 0 then execute fuel second
    | .either first second =>
      withoutStopping (execute fuel first)
      if (← get).status ≠ 0 then execute fuel second
    | .sequence parts => executeAll fuel parts
    | .conditional branches otherwise => executeBranches fuel branches otherwise
    | .loop isUntil condition body => executeLoop fuel isUntil condition body 0
    | .forEach name items body =>
      let arguments := (← get).arguments
      let values ← match items with
        | some words => expandFields fuel words
        | none => pure arguments
      setStatus 0
      executeFor fuel name values body
    | .choice subject arms =>
      let text ← expandText fuel subject
      setStatus 0
      executeArms fuel text arms
    | .subshell body =>
      inSubshell (runToEnd (execute fuel body) fuel)
      stopOnFailure
    | .function name body =>
      modify fun s => { s with functions := s.functions.put name body }
      setStatus 0
    | .test parts =>
      match ← testOr fuel parts with
      | some (holds, []) => setStatus (if holds then 0 else 1)
      | _ => setStatus 2
      stopOnFailure
    | .arithmetic operand =>
      setStatus (if ← arithmeticHolds fuel operand then 0 else 1)
      stopOnFailure
    | .arithmeticLoop start condition step body =>
      let _ ← arithmeticHolds fuel start
      setStatus 0
      executeCounting fuel condition step body

/-- Whether the value of an expression is not zero; an empty one counts as such. -/
def arithmeticHolds : Nat → Word → Shell Bool
  | 0, _ => throw .unfinished
  | fuel + 1, operand => do
    let text ← expandText fuel operand
    if (Text.trim text).isEmpty then return true
    match ← Arithmetic.evaluate text with
    | .ok value => return value ≠ 0
    | .error problem =>
      Shell.blame ("((: " ++ problem.message (← get).dialect text)
      return false

/-- Commands one after the other. -/
def executeAll : Nat → List Command → Shell Unit
  | 0, _ => throw .unfinished
  | _ + 1, [] => return
  | fuel + 1, c :: rest => do
    execute fuel c
    executeAll fuel rest

/-- The commands of a pipeline, each reading what the one before it wrote; `failure` is the last
outcome other than zero so far, if every failure counts. -/
def executePipeline : Nat → List Command → Nat → Shell Unit
  | 0, _, _ => throw .unfinished
  | _ + 1, [], _ => setStatus 0
  | fuel + 1, [c], failure => do
    execute fuel c
    let s ← get
    if s.options.countsAllParts && s.status = 0 then setStatus failure
  | fuel + 1, c :: rest, failure => do
    let id ← Shell.newStream []
    let channels := (← get).channels
    Shell.withChannels (channels.put 1 (.stream id)) (withoutStopping (inSubshell (execute fuel c)))
    let status := (← get).status
    Shell.withChannels (channels.put 0 (.stream id))
      (inSubshell (executePipeline fuel rest (if status = 0 then failure else status)))

/-- The block of the first condition that holds. -/
def executeBranches : Nat → List (Command × Command) → Option Command → Shell Unit
  | 0, _, _ => throw .unfinished
  | fuel + 1, [], otherwise =>
    match otherwise with
    | some body => execute fuel body
    | none => setStatus 0
  | fuel + 1, (condition, body) :: rest, otherwise => do
    withoutStopping (execute fuel condition)
    if (← get).status = 0 then execute fuel body else executeBranches fuel rest otherwise

/-- The rounds of a loop by a condition; `last` is the outcome of the last round. -/
def executeLoop : Nat → Bool → Command → Command → Nat → Shell Unit
  | 0, _, _, _, _ => throw .unfinished
  | fuel + 1, isUntil, condition, body, last => do
    match ← round (withoutStopping (execute fuel condition)) with
    | .leave => setStatus 0
    | .next =>
      if ((← get).status = 0) != isUntil then
        match ← round (execute fuel body) with
        | .next => executeLoop fuel isUntil condition body (← get).status
        | .leave => setStatus 0
      else setStatus last

/-- The rounds of a loop that counts. -/
def executeCounting : Nat → Word → Word → Command → Shell Unit
  | 0, _, _, _ => throw .unfinished
  | fuel + 1, condition, step, body => do
    if ← arithmeticHolds fuel condition then
      match ← round (execute fuel body) with
      | .next =>
        let _ ← arithmeticHolds fuel step
        executeCounting fuel condition step body
      | .leave => setStatus 0

/-- The rounds of a loop over values. -/
def executeFor : Nat → String → List Octets → Command → Shell Unit
  | 0, _, _, _ => throw .unfinished
  | _ + 1, _, [], _ => return
  | fuel + 1, name, value :: rest, body => do
    Shell.assign name value
    match ← round (execute fuel body) with
    | .next => executeFor fuel name rest body
    | .leave => setStatus 0

/-- The body of the first arm with a pattern that fits. -/
def executeArms : Nat → Octets → List (List Word × Command) → Shell Unit
  | 0, _, _ => throw .unfinished
  | _ + 1, _, [] => return
  | fuel + 1, text, (patterns, body) :: rest => do
    if ← fitsAny fuel text patterns then execute fuel body else executeArms fuel text rest

/-- Whether a text fits one of the patterns. -/
def fitsAny : Nat → Octets → List Word → Shell Bool
  | 0, _, _ => throw .unfinished
  | _ + 1, _, [] => return false
  | fuel + 1, text, w :: rest => do
    if Glob.accepts (marksOf (← expandWhole fuel w)) text then return true
    else fitsAny fuel text rest

/-- A disjunction of tests in double brackets. -/
def testOr : Nat → List Token → Shell (Option (Bool × List Token))
  | 0, _ => throw .unfinished
  | fuel + 1, ts => do
    match ← testAnd fuel ts with
    | none => return none
    | some (a, rest) =>
      if CommandReader.isOperator "||" rest then
        match ← testOr fuel (rest.drop 1) with
        | some (b, rest) => return some (a || b, rest)
        | none => return none
      else return some (a, rest)

/-- A conjunction of tests in double brackets. -/
def testAnd : Nat → List Token → Shell (Option (Bool × List Token))
  | 0, _ => throw .unfinished
  | fuel + 1, ts => do
    match ← testOne fuel ts with
    | none => return none
    | some (a, rest) =>
      if CommandReader.isOperator "&&" rest then
        match ← testAnd fuel (rest.drop 1) with
        | some (b, rest) => return some (a && b, rest)
        | none => return none
      else return some (a, rest)

/-- A single test in double brackets. -/
def testOne : Nat → List Token → Shell (Option (Bool × List Token))
  | 0, _ => throw .unfinished
  | fuel + 1, ts => do
    if CommandReader.isOperator "(" ts then
      match ← testOr fuel (ts.drop 1) with
      | some (holds, rest) =>
        return if CommandReader.isOperator ")" rest then some (holds, rest.drop 1) else none
      | none => return none
    else if CommandReader.bareWord? ts = some "!" then
      match ← testOne fuel (ts.drop 1) with
      | some (holds, rest) => return some (!holds, rest)
      | none => return none
    else
      match ts with
      | ⟨.word a, _, _⟩ :: ⟨.operator o, _, _⟩ :: ⟨.word b, _, _⟩ :: rest =>
        if o = "<" || o = ">" then
          let x ← expandText fuel a
          let y ← expandText fuel b
          return (Test.textComparison? o x y).map fun holds => (holds, rest)
        else return some (!(← expandText fuel a).isEmpty, ts.drop 1)
      | ⟨.word a, _, _⟩ :: rest =>
        match CommandReader.bareWord? rest with
        | some "=~" => testPattern fuel a (rest.drop 1)
        | some o =>
          match rest.drop 1 with
          | ⟨.word b, _, _⟩ :: after =>
            if Test.isBinary .bash o.toList then testBinary fuel o a b after else testUnary fuel ts
          | _ => testUnary fuel ts
        | none => testUnary fuel ts
      | _ => return none

/-- Whether a part of a text matches a regular expression, whose quoted parts stand for themselves.
-/
def testPattern : Nat → Word → List Token → Shell (Option (Bool × List Token))
  | 0, _, _ => throw .unfinished
  | fuel + 1, subject, ts => do
    let isPart (t : Token) : Bool :=
      !(CommandReader.isOperator "&&" [t] || CommandReader.isOperator "||" [t])
    let text ← expandText fuel subject
    let mut pattern : Octets := []
    for t in ts.takeWhile isPart do
      match t.lexeme with
      | .word w =>
        pattern := pattern ++ (marksOf (← expandWhole fuel w)).flatMap fun m =>
          if m.isQuoted && !m.char.isAlphanum then ['\\', m.char] else [m.char]
      | _ => pattern := pattern ++ t.text.toList
    return (Utility.patternOf? true false pattern).map fun p =>
      (p.search text, ts.dropWhile isPart)

/-- A test with two operands in double brackets: texts are compared with patterns. -/
def testBinary : Nat → String → Word → Word → List Token → Shell (Option (Bool × List Token))
  | 0, _, _, _, _ => throw .unfinished
  | fuel + 1, o, a, b, rest => do
    let x ← expandText fuel a
    if o = "=" || o = "==" || o = "!=" then
      let fits := Glob.accepts (marksOf (← expandWhole fuel b)) x
      return some (fits == (o ≠ "!="), rest)
    else
      let y ← expandText fuel b
      match Test.comparison? o with
      | some compare =>
        match ← Arithmetic.evaluate x, ← Arithmetic.evaluate y with
        | .ok i, .ok j => return some (compare i j, rest)
        | _, _ => return none
      | none =>
        match ← Test.binary o x y with
        | .ok holds => return some (holds, rest)
        | .error _ => return none

/-- A test with one operand in double brackets, or of whether a text is empty. -/
def testUnary : Nat → List Token → Shell (Option (Bool × List Token))
  | 0, _ => throw .unfinished
  | fuel + 1, ts => do
    match CommandReader.bareWord? ts, ts with
    | some o, _ :: ⟨.word b, _, _⟩ :: rest =>
      match ← Test.unary? o (← expandText fuel b) with
      | some holds => return some (holds, rest)
      | none => return none
    | _, ⟨.word a, _, _⟩ :: rest => return some (!(← expandText fuel a).isEmpty, rest)
    | _, _ => return none

end

end Runbook.Shell
