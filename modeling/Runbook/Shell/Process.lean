import Runbook.Config
import Runbook.File.Path
import Runbook.Run.World
import Runbook.Shell.Evaluation
import Runbook.Shell.Invocation

/-!
# Processes

What a run gets back from the programs that it starts:

* `Machine`: the shells for commands and for conditions, and how long a process may take;
* `Machine.start`: a program with its words, from its start to its end;
* `Machine.spawn`, `Machine.test`: a command and a condition in their shells;
* `Machine.world`: the world of a run whose processes are started here.

Processes share a disk and nothing else: each of them starts with the same variables and an input
with nothing in it. A process that does not end within its fuel has no outcome.
-/

namespace Runbook.Shell

/-- The shells of a machine, and the fuel of a process. A setting that names no shell is a fault as
soon as a process is to be started. -/
structure Machine where
  commandShell : Except Fault (Option String)
  testShell : Except Fault (Option String)
  fuel : Nat

/-- The shell that a setting names. -/
def shellOfSetting (setting : Value) : Except Fault (Option String) :=
  if !setting.isTruthy then .ok none
  else match setting with
    | .scalar (.text name) => .ok (some name)
    | _ => .error .shellNotText

/-- The machine with the shells of two settings. -/
def Machine.ofSettings (commandShell testShell : Value) (fuel : Nat) : Machine :=
  ⟨shellOfSetting commandShell, shellOfSetting testShell, fuel⟩

/-- The machine of a configuration. -/
def Machine.ofConfig (config : Config) (fuel : Nat) : Machine :=
  .ofSettings config.shell config.testShell fuel

/-! ## 1. Programs -/

/-- The variables that every process starts with. -/
def startVariables : Assoc String Octets :=
  [("HOME", "/root".toList), ("IFS", " \t\n".toList),
    ("PATH", "/usr/local/sbin:/usr/local/bin:/usr/sbin:/usr/bin:/sbin:/bin".toList)]

/-- The state in which a program starts: nothing to read, and two streams to write to. -/
def startState (dialect : Dialect) (name : String) (disk : Disk) : State where
  dialect := dialect
  name := name
  processes := [2]
  line := 1
  loops := 0
  guards := 0
  sourced := false
  bindings := startVariables ++ ownVariables dialect
  exported := ["HOME", "PATH", "PWD"]
  fixed := []
  arguments := []
  functions := []
  locals := []
  traps := []
  pending := []
  jobs := []
  status := 0
  disk := disk
  directory := startDirectory
  streams := [(0, []), (1, []), (2, [])]
  channels := [(0, .stream 0), (1, .stream 1), (2, .stream 2)]
  options := ⟨false, false, false, false, false⟩

/-- What a program does with its words. -/
def programOf? (name : String) (fuel : Nat) : Option (Dialect × (List Octets → Shell Unit)) :=
  match shellNamed? name with
  | some dialect => some (dialect, runShell fuel)
  | none => (program? name).map fun run => (.plain, fun args => do setStatus (← run args))

/-- Why a program cannot be started: it is not there, or what is there is no program. -/
def startFailure (disk : Disk) (path : String) : String :=
  let place := Shell.fullPath startDirectory path
  if path.toList.contains '/' && (disk.directories.contains place || disk.files.contains place) then
    File.permissionDenied path
  else File.noSuchFile path

/-- How a process ended: with an exit code, or by a signal, which counts below zero. -/
def endingOf (r : Except Leave Unit) (s : State) : Option Int :=
  match r with
  | .ok () => some s.status
  | .error (.exit status) => some status
  | .error (.fromFunction status) => some status
  | .error (.killed _ signal) => some (-(signal : Int))
  | .error (.fromLoop _) => some s.status
  | .error (.nextRound _) => some s.status
  | .error .unfinished => none

namespace Machine

/-- A program with its words, from its start to its end. -/
def start (m : Machine) (words : List String) (disk : Disk) : SpawnReply × Disk :=
  match words with
  | [] => (.refused (File.noSuchFile ""), disk)
  | path :: args =>
    if words.any fun w => w.toList.contains '\x00' then (.raised .nullCharacter, disk)
    else
      match programOf? (programName path) m.fuel with
      | none => (.refused (startFailure disk path), disk)
      | some (dialect, run) =>
        let (r, s) := (run (args.map octetsOf)).run.run
          (startState dialect (String.ofList (octetsOf path)) disk)
        let written (stream : Nat) := outputText ((s.streams.get? stream).getD [])
        match endingOf r s with
        | some code => (.finished ⟨code, written 1, written 2⟩, s.disk)
        | none => (.raised .unfinished, s.disk)

/-! ## 2. Commands and conditions -/

/-- Runs a command in the shell for commands. -/
def spawn (m : Machine) (command : String) (disk : Disk) : SpawnReply × Disk :=
  match m.commandShell with
  | .error fault => (.raised fault, disk)
  | .ok shell =>
    match m.start (commandLine .posix shell command) disk with
    | (.refused reason, disk) => (.refused ("Failed to execute: " ++ reason), disk)
    | r => r

/-- Tests a condition in the shell for conditions: it holds if the exit code is zero. -/
def test (m : Machine) (expression : String) (disk : Disk) : TestReply × Disk :=
  match m.testShell with
  | .error fault => (.raised fault, disk)
  | .ok shell =>
    match m.start (conditionLine .posix shell expression) disk with
    | (.finished result, disk) => (.decided result.success, disk)
    | (.refused reason, disk) =>
      (.undecided ("Failed to evaluate expression '" ++ expression ++ "': " ++ reason), disk)
    | (.raised fault, disk) => (.raised fault, disk)

/-- A world in which processes are started on the machine; lines, approvals and confirmations come
from another world. -/
def world {σ : Type} (m : Machine) (others : World σ) : World (σ × Disk) where
  spawn command s :=
    let (r, disk) := m.spawn command s.2
    (r, (s.1, disk))
  test expression s :=
    let (r, disk) := m.test expression s.2
    (r, (s.1, disk))
  readLine prompt s :=
    let (r, state) := others.readLine prompt s.1
    (r, (state, s.2))
  approve := others.approve.map fun ask message s =>
    let (r, state) := ask message s.1
    (r, (state, s.2))
  confirm := others.confirm.map fun wait step command s =>
    let (r, state) := wait step command s.1
    (r, (state, s.2))

end Machine

end Runbook.Shell
