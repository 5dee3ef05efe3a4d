import Runbook.Shell.State

/-!
# Programs of a shell

* `Program`: what a program does with its arguments; it answers its exit code;
* `splitOptions`, `forEach`, `withContents`: what many programs have in common.
-/

namespace Runbook.Shell.Utility

/-- A program with its arguments. -/
abbrev Program := List Octets → Shell Nat

/-- Writes a line to the output. -/
def putLine (cs : Octets) : Shell Unit :=
  Shell.write 1 (cs ++ ['\n'])

/-- What is said of a file that is not there. -/
def notThere : String := ": No such file or directory\n"

/-- The arguments without those that start with a dash, and the letters of those. -/
def splitOptions (args : List Octets) : List Char × List Octets :=
  ((args.filter fun a => a.head? = some '-' && 1 < a.length).flatMap (·.drop 1),
    args.filter fun a => !(a.head? = some '-' && 1 < a.length))

/-- Does something for each argument; the exit code is that of the last failure. -/
def forEach (args : List Octets) (f : Octets → Shell Nat) : Shell Nat :=
  args.foldlM (fun status a => do
    let n ← f a
    return if n = 0 then status else n) 0

/-- The content of each file in turn, or of the input without files; one that is not there is called
what it is described as. -/
def withContents (name : String) (describe : String → String) (files : List Octets)
    (f : Octets → Octets → Shell Unit) :
    Shell Nat :=
  if files.isEmpty then do
    f [] (← Shell.readAll)
    return 0
  else
    forEach files fun file => do
      if file = ['-'] then
        f file (← Shell.readAll)
        return 0
      let path ← Shell.pathOf file
      match ← Shell.fileAt? path with
      | some content =>
        f file content
        return 0
      | none =>
        if ← Shell.isDirectory path then
          Shell.complain (name ++ ": " ++ String.ofList file ++ ": Is a directory\n")
        else Shell.complain (name ++ ": " ++ describe (String.ofList file) ++ notThere)
        return 1

/-- The lines of a text without their ends. -/
def linesOf (s : Octets) : List Octets :=
  match (s.splitOn '\n').reverse with
  | [] :: rest => rest.reverse
  | lines => lines.reverse

end Runbook.Shell.Utility
