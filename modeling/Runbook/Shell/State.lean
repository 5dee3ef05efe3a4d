import Runbook.Shell.Command
import Runbook.Assoc

/-!
# The state of a shell

* `Disk`: the files and directories that the processes of one run share;
* `Channel`, `State`: what a shell writes to and reads from, its variables and its options;
* `Leave`, `Shell`: a computation on the state that may leave a loop, a function or the shell;
* `Shell.write`, `readAll`, `readLine`: the channels at work;
* `Shell.assign`, `valueOf?`: variables and what else has a value;
* `Shell.pathOf`, `fileAt?`, `putFile`: the disk.

Processes run one after the other: what a command of a pipeline writes is whole before the next one
reads it.
-/

namespace Runbook.Shell

/-- Files by their whole paths, directories, and which of the files are programs. -/
structure Disk where
  files : Assoc String Octets
  directories : List String
  programs : List String
deriving Repr

/-- The directory in which every process starts. -/
def startDirectory : String := "/tmp/work"

/-- A disk as it is before a run: the usual directories, and nothing in that of the run. -/
def Disk.initial : Disk where
  files := [("/bin/bash", "\x7fELF".toList), ("/bin/sh", "\x7fELF".toList),
    ("/etc/passwd", "root:x:0:0:root:/root:/bin/bash\n".toList),
    ("/usr/bin/env", "\x7fELF".toList)]
  directories := ["/", "/bin", "/boot", "/dev", "/etc", "/home", "/lib", "/media", "/mnt", "/opt",
    "/proc", "/root", "/run", "/sbin", "/srv", "/sys", "/tmp", startDirectory, "/usr", "/usr/bin",
    "/usr/lib", "/usr/local", "/usr/local/bin", "/usr/sbin", "/usr/share", "/var", "/var/log",
    "/var/tmp"]
  programs := ["/bin/bash", "/bin/sh", "/usr/bin/env"]

/-- What a channel is turned to: a stream of the shell's own, a file or nothing. -/
inductive Channel where
  | stream (id : Nat)
  | file (path : String)
  | nothing
deriving DecidableEq, Repr

/-- What a shell can be set to: to end at a failure, to refuse parameters without value, to tell of
each command, to take patterns of names as they are, and to count every failure in a pipeline. -/
structure Options where
  stopsOnFailure : Bool
  refusesUnset : Bool
  tells : Bool
  keepsPatterns : Bool
  countsAllParts : Bool
deriving Repr

/-- The state of a shell, in which every text is one of bytes.

* `name` is what the shell calls itself, and `processes` are the numbers of its process and of those
  that it was started from;
* `line` is that of the command that it carries out, `loops` is how many loops are under way,
  `guards` is how many commands are whose failure does not end the shell, and `sourced` says that
  the script is that of a file that was asked for;
* `bindings` are the values of its variables, of which programs know those that are `exported`, and
  which cannot be changed if they are `fixed`;
* `locals` are the values to be put back when a function returns, those of the innermost one first;
* a trap is what is done at a signal, with that of number zero done at the end; `pending` are the
  traps to be carried out next;
* `jobs` are the numbers of background processes with their exit codes, the last one in front. -/
structure State where
  dialect : Dialect
  name : String
  processes : List Nat
  line : Nat
  loops : Nat
  guards : Nat
  sourced : Bool
  bindings : Assoc String Octets
  exported : List String
  fixed : List String
  arguments : List Octets
  functions : Assoc String Command
  locals : List (Assoc String (Option Octets))
  traps : Assoc Nat Octets
  pending : List Octets
  jobs : Assoc Nat Nat
  status : Nat
  disk : Disk
  directory : String
  streams : Assoc Nat Octets
  channels : Assoc Nat Channel
  options : Options

/-- Why a computation does not go on with the next command. A signal ends the process with the given
number. -/
inductive Leave where
  | exit (status : Nat)
  | killed (process signal : Nat)
  | fromLoop (levels : Nat)
  | nextRound (levels : Nat)
  | fromFunction (status : Nat)
  | unfinished
deriving DecidableEq, Repr

end Runbook.Shell

namespace Runbook

/-- A computation on the state of a shell. -/
abbrev Shell (α : Type) := ExceptT Shell.Leave (StateM Shell.State) α

end Runbook

namespace Runbook.Shell

/-! ## 1. Streams -/

/-- A new stream with the given content. -/
def newStream (content : Octets) : Shell Nat := do
  let s ← get
  let id := s.streams.length
  set { s with streams := s.streams.put id content }
  return id

/-- The content of a stream. -/
def contentOf (id : Nat) : Shell Octets := do
  return ((← get).streams.get? id).getD []

/-- A computation with channels of its own, which are put back afterwards. -/
def withChannels {α : Type} (channels : Assoc Nat Channel) (run : Shell α) : Shell α := do
  let before := (← get).channels
  modify fun s => { s with channels := channels }
  try
    let a ← run
    modify fun s => { s with channels := before }
    return a
  catch e =>
    modify fun s => { s with channels := before }
    throw e

/-- Writes to a channel; nothing happens if it is not open. -/
def write (channel : Nat) (cs : Octets) : Shell Unit :=
  modify fun s =>
    match s.channels.get? channel with
    | some (.stream id) =>
      { s with streams := s.streams.put id ((s.streams.get? id).getD [] ++ cs) }
    | some (.file path) =>
      { s with disk := { s.disk with
          files := s.disk.files.put path ((s.disk.files.get? path).getD [] ++ cs) } }
    | some .nothing => s
    | none => s

/-- Writes a message, whose characters are bytes, to the channel for errors. -/
def complain (text : String) : Shell Unit :=
  write 2 text.toList

/-- Everything that can still be read. -/
def readAll : Shell Octets := do
  match (← get).channels.get? 0 with
  | some (.stream id) =>
    let content ← contentOf id
    modify fun s => { s with streams := s.streams.put id [] }
    return content
  | _ => return []

/-- The next line without its end, and whether it had one. -/
def readLine : Shell (Octets × Bool) := do
  match (← get).channels.get? 0 with
  | some (.stream id) =>
    let content ← contentOf id
    let tail := content.dropWhile (· ≠ '\n')
    modify fun s => { s with streams := s.streams.put id (tail.drop 1) }
    return (content.takeWhile (· ≠ '\n'), !tail.isEmpty)
  | _ => return ([], false)

/-! ## 2. Variables -/

/-- A message of the shell with its name and the line in front. -/
def blame (text : String) : Shell Unit := do
  let s ← get
  let place := match s.dialect with
    | .plain => ": " ++ toString s.line ++ ": "
    | .bash => ": line " ++ toString s.line ++ ": "
  complain (s.name ++ place ++ text ++ "\n")

/-- Sets a variable, unless it is fixed, which ends the shell. -/
def assign (name : String) (value : Octets) : Shell Unit := do
  let s ← get
  if s.fixed.contains name then
    match s.dialect with
    | .plain =>
      blame (name ++ ": is read only")
      throw (.exit 2)
    | .bash =>
      blame (name ++ ": readonly variable")
      throw (.exit 1)
  set { s with bindings := s.bindings.put name value }

/-- The value of a parameter, if it has one. -/
def valueOf? (name : String) : Shell (Option Octets) := do
  let s ← get
  match name with
  | "?" => return some (toString s.status).toList
  | "#" => return some (toString s.arguments.length).toList
  | "0" => return some s.name.toList
  | "$" => return some (toString (s.processes.head?.getD 1)).toList
  | "!" => return s.jobs.head?.map fun job => (toString job.1).toList
  | "-" => return some []
  | "PWD" => return some s.directory.toList
  | "@" => return some ([' '].intercalate s.arguments)
  | "*" => return some ([' '].intercalate s.arguments)
  | _ =>
    match name.toNat? with
    | some n => return s.arguments[n - 1]?
    | none => return s.bindings.get? name

/-! ## 3. Paths -/

/-- The parts of a path, those that lead nowhere or back taken out. -/
def pathSteps (path : String) : List String :=
  ((path.splitOn "/").foldl (fun done part =>
    if part = "" || part = "." then done
    else if part = ".." then done.drop 1
    else part :: done) []).reverse

/-- The whole path of a file. -/
def fullPath (directory : String) (path : String) : String :=
  let whole := if path.toList.head? = some '/' then path else directory ++ "/" ++ path
  "/" ++ "/".intercalate (pathSteps whole)

/-- The path of a name, as seen from the directory of the shell. -/
def pathOf (name : Octets) : Shell String := do
  return fullPath (← get).directory (String.ofList name)

/-- The directory that holds a file. -/
def parentOf (path : String) : String :=
  "/" ++ "/".intercalate ((pathSteps path).dropLast)

/-- Whether a path leads to a directory. -/
def isDirectory (path : String) : Shell Bool := do
  return (← get).disk.directories.contains path

/-- The content of a file, if it is there. -/
def fileAt? (path : String) : Shell (Option Octets) := do
  if path = "/dev/null" then return some []
  return (← get).disk.files.get? path

/-- The last part of a whole path. -/
def nameOf (path : String) : Octets :=
  ((pathSteps path).getLast?.getD "").toList

/-- A list in the order of bytes. -/
def sorted (items : List Octets) : List Octets :=
  items.mergeSort fun a b => !comesBefore b a

/-- The names in a directory, in order. -/
def namesIn (directory : String) : Shell (List Octets) := do
  let disk := (← get).disk
  let paths := disk.files.map (·.1) ++ disk.directories
  return sorted ((paths.filter fun p => p ≠ "/" && parentOf p = directory).map nameOf)

/-- Writes a file, if the directory for it is there. -/
def putFile (path : String) (content : Octets) : Shell Bool := do
  if path = "/dev/null" then return true
  if (← isDirectory (parentOf path)) && !(← isDirectory path) then
    modify fun s => { s with disk := { s.disk with files := s.disk.files.put path content } }
    return true
  else return false

end Runbook.Shell
