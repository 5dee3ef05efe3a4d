/-!
# Starting a shell

What is started for a command and for a condition. A condition is made a conditional of its own, so
that the exit code is zero if it holds and one if it does not.

* `Platform`: where a run takes place;
* `commandLine`, `conditionLine`: the words that start the shell.
-/

namespace Runbook.Shell

/-- Where a run takes place. -/
inductive Platform where
  | posix
  | windows
deriving DecidableEq, Repr

/-- The platform of a name. -/
def Platform.ofName (name : String) : Platform :=
  if "win".toList.isPrefixOf name.toList then .windows else .posix

/-- A shell, or the standard one if none is given; an empty name gives none. -/
def orStandard (shell : Option String) (standard : String) : String :=
  match shell with
  | none => standard
  | some name => if name = "" then standard else name

/-- The words that run a command. -/
def commandLine (platform : Platform) (shell : Option String) (command : String) : List String :=
  match platform with
  | .windows => ["cmd", "/C", command]
  | .posix => [orStandard shell "sh", "-c", command]

/-- The conditional that a condition is made for a POSIX shell. -/
def conditionScript (expression : String) : String :=
  "if " ++ expression ++ "; then exit 0; else exit 1; fi"

/-- The words that test a condition. -/
def conditionLine (platform : Platform) (shell : Option String) (expression : String) :
    List String :=
  match platform with
  | .windows =>
    ["powershell", "-Command",
      "if (" ++ expression ++ ") \x7b exit 0 \x7d else \x7b exit 1 \x7d"]
  | .posix => [orStandard shell "bash", "-c", conditionScript expression]

end Runbook.Shell
