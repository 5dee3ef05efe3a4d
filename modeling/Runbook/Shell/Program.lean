import Runbook.Shell.Builtin

/-!
# Names of programs

* `shellNamed?`, `ownVariables`: the shells among the programs, and the variables that they set;
* `programName`, `program?`: a program by its name or its place.
-/

namespace Runbook.Shell

/-- The variables that one of the shells sets by itself. -/
def ownVariables : Dialect → Assoc String Octets
  | .plain => []
  | .bash => [("BASH", "/usr/bin/bash".toList), ("BASH_VERSION", "5.2.15(1)-release".toList),
      ("HOSTTYPE", "x86_64".toList), ("OSTYPE", "linux-gnu".toList), ("SHELL", "/bin/bash".toList)]

/-- The language of the shell with a name. -/
def shellNamed? : String → Option Dialect
  | "sh" => some .plain
  | "dash" => some .plain
  | "bash" => some .bash
  | _ => none

/-- The name of a program without the directory of programs in front. -/
def programName (path : String) : String :=
  match ["/usr/bin/", "/bin/"].findSome? fun place => Text.dropStart? place.toList path.toList with
  | some name => String.ofList name
  | none => path

/-- The program with a name, as it is without a shell. -/
def program? (name : String) : Option Utility.Program :=
  match Utility.find? name with
  | some run => some run
  | none =>
    match name with
    | "echo" => some fun args => do
      Shell.write 1 (Printing.echo .bash args)
      return 0
    | "which" => some Builtin.which
    | _ => if ["true", "false", "printf", "test", "[", "kill", "pwd"].contains name
        then Builtin.plain? name else none

/-- Whether the plain shell ends after a failure of a command. -/
def isSpecial (name : String) : Bool :=
  CommandReader.specialCommands.contains name

end Runbook.Shell
