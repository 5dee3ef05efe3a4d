import Runbook.Shell.Utility.Files
import Runbook.Shell.Utility.Texts

/-!
# Utilities

The programs that work on files and texts, as far as scripts need them: `Utility.find?` finds one by
its name.
-/

namespace Runbook.Shell.Utility

/-- A program that writes a line. -/
def saying (line : String) : Program := fun _ => do
  putLine line.toList
  return 0

/-- Who runs everything. -/
def id : Program := fun args => do
  let options := (splitOptions args).1
  putLine (if options.contains 'n' then "root" else if options.isEmpty then
    "uid=0(root) gid=0(root) groups=0(root)" else "0").toList
  return 0

/-- Writes the values of exported variables. -/
def printenv : Program := fun args => do
  let s ← get
  let value? (name : String) : Option Octets :=
    if s.exported.contains name then s.bindings.get? name else none
  match args with
  | [] =>
    for name in s.exported do
      if let some v := value? name then putLine (name.toList ++ '=' :: v)
    return 0
  | names =>
    let found := names.filterMap fun n => value? (String.ofList n)
    for v in found do putLine v
    return if found.length = names.length then 0 else 1

/-- The utility with a name. -/
def find? : String → Option Program
  | "cat" => some cat
  | "ls" => some ls
  | "mkdir" => some mkdir
  | "rmdir" => some rmdir
  | "rm" => some rm
  | "touch" => some touch
  | "cp" => some (transfer "cp" false)
  | "mv" => some (transfer "mv" true)
  | "chmod" => some chmod
  | "basename" => some basename
  | "dirname" => some dirname
  | "head" => some (endLines "head" true)
  | "tail" => some (endLines "tail" false)
  | "wc" => some wc
  | "seq" => some seq
  | "expr" => some expr
  | "sort" => some sort
  | "uniq" => some uniq
  | "tee" => some tee
  | "cut" => some cut
  | "tr" => some tr
  | "rev" => some rev
  | "grep" => some grep
  | "sed" => some sed
  | "id" => some id
  | "whoami" => some (saying "root")
  | "uname" => some (saying "Linux")
  | "printenv" => some printenv
  | "sleep" => some fun _ => return 0
  | "sync" => some fun _ => return 0
  | _ => none

end Runbook.Shell.Utility
