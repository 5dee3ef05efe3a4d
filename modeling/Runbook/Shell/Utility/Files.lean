import Runbook.Shell.Utility.Basic

/-!
# Programs that work on files

* `cat`, `ls`, `touch`, `transfer`, `chmod`: files;
* `mkdir`, `rmdir`, `rm`: directories, and what is in them;
* `basename`, `dirname`: names.
-/

namespace Runbook.Shell.Utility

/-- Writes out files. -/
def cat : Program := fun args =>
  withContents "cat" (fun file => file) (splitOptions args).2 fun _ content => Shell.write 1 content

/-- Lists names. -/
def ls : Program := fun args => do
  let (options, places) := splitOptions args
  forEach (if places.isEmpty then [['.']] else places) fun place => do
    let path ← Shell.pathOf place
    if ← Shell.isDirectory path then
      if options.contains 'a' then
        putLine ['.']
        putLine ['.', '.']
      for name in ← Shell.namesIn path do
        if name.head? ≠ some '.' || options.contains 'a' || options.contains 'A' then putLine name
      return 0
    else if (← Shell.fileAt? path).isSome then
      putLine place
      return 0
    else
      Shell.complain ("ls: cannot access '" ++ String.ofList place ++ "'" ++ notThere)
      return 2

/-- Complains that a directory cannot be made, its name in curved quotes. -/
def cannotMake (place : Octets) (reason : String) : Shell Nat := do
  Shell.complain ("mkdir: cannot create directory \xe2\x80\x98" ++ String.ofList place ++
    "\xe2\x80\x99" ++ reason)
  return 1

/-- Makes directories. -/
def mkdir : Program := fun args => do
  let (options, places) := splitOptions args
  forEach places fun place => do
    let path ← Shell.pathOf place
    let taken := (← Shell.isDirectory path) || (← Shell.fileAt? path).isSome
    if taken && options.contains 'p' then return 0
    else if taken then
      cannotMake place ": File exists\n"
    else if options.contains 'p' || (← Shell.isDirectory (Shell.parentOf path)) then
      let steps := Shell.pathSteps path
      let all := (List.range steps.length).map fun n =>
        "/" ++ "/".intercalate (steps.take (n + 1))
      modify fun s => { s with disk := { s.disk with
        directories := s.disk.directories ++ all.filter fun p => !s.disk.directories.contains p } }
      return 0
    else
      cannotMake place notThere

/-- Removes empty directories. -/
def rmdir : Program := fun args =>
  forEach (splitOptions args).2 fun place => do
    let path ← Shell.pathOf place
    let failed (reason : String) : Shell Nat := do
      Shell.complain ("rmdir: failed to remove '" ++ String.ofList place ++ "'" ++ reason)
      return 1
    if !(← Shell.isDirectory path) then
      if (← Shell.fileAt? path).isSome then failed ": Not a directory\n" else failed notThere
    else if !(← Shell.namesIn path).isEmpty then failed ": Directory not empty\n"
    else
      modify fun s => { s with disk := { s.disk with
        directories := s.disk.directories.filter (· ≠ path) } }
      return 0

/-- Whether a path lies at or below another one. -/
def isBelow (top path : String) : Bool :=
  path = top || Text.startsWith (top.toList ++ ['/']) path.toList

/-- Removes a path with everything below it. -/
def removeTree (path : String) : Shell Unit :=
  modify fun s => { s with disk :=
    ⟨s.disk.files.filter fun f => !isBelow path f.1,
      s.disk.directories.filter fun d => !isBelow path d,
      s.disk.programs.filter fun p => !isBelow path p⟩ }

/-- Removes files, and directories if asked for. -/
def rm : Program := fun args => do
  let (options, places) := splitOptions args
  let recursive := options.contains 'r' || options.contains 'R'
  forEach places fun place => do
    let path ← Shell.pathOf place
    if ← Shell.isDirectory path then
      if recursive then
        removeTree path
        return 0
      else
        Shell.complain ("rm: cannot remove '" ++ String.ofList place ++ "': Is a directory\n")
        return 1
    else if (← Shell.fileAt? path).isSome then
      removeTree path
      return 0
    else if options.contains 'f' then return 0
    else
      Shell.complain ("rm: cannot remove '" ++ String.ofList place ++ "'" ++ notThere)
      return 1

/-- Makes empty files where there are none. -/
def touch : Program := fun args =>
  forEach (splitOptions args).2 fun place => do
    let path ← Shell.pathOf place
    if (← Shell.fileAt? path).isSome || (← Shell.isDirectory path) then return 0
    else if ← Shell.putFile path [] then return 0
    else
      Shell.complain ("touch: cannot touch '" ++ String.ofList place ++ "'" ++ notThere)
      return 1

/-- Copies a file, or moves it. -/
def transfer (name : String) (isMove : Bool) : Program := fun args => do
  match (splitOptions args).2 with
  | [source, target] =>
    let origin ← Shell.pathOf source
    let goal ← Shell.pathOf target
    let goal := if ← Shell.isDirectory goal then
        goal ++ "/" ++ ((Shell.pathSteps origin).getLast?.getD "") else goal
    match ← Shell.fileAt? origin with
    | some content =>
      if ← Shell.putFile goal content then
        if isMove && origin ≠ goal then removeTree origin
        return 0
      else return 1
    | none =>
      Shell.complain (name ++ ": cannot stat '" ++ String.ofList source ++ "'" ++ notThere)
      return 1
  | _ => return 1

/-- Makes files programs, or takes that from them. -/
def chmod : Program := fun args => do
  match args with
  | mode :: places =>
    let mayRun := mode.contains 'x' && !mode.contains '-' ||
      (mode.all Char.isDigit && mode.any fun c => "1357".toList.contains c)
    forEach places fun place => do
      let path ← Shell.pathOf place
      let isThere := (← Shell.fileAt? path).isSome || (← Shell.isDirectory path)
      if !isThere then
        Shell.complain ("chmod: cannot access '" ++ String.ofList place ++ "'" ++ notThere)
        return 1
      modify fun s =>
        let others := s.disk.programs.filter (· ≠ path)
        { s with disk := { s.disk with programs := if mayRun then path :: others else others } }
      return 0
  | [] => return 1

/-- Writes the last part of a path. -/
def basename : Program := fun args => do
  let path := String.ofList (args.head?.getD [])
  let name := ((Shell.pathSteps path).getLast?.getD "/").toList
  let ending := (args.drop 1).head?.getD []
  putLine (if name = ending then name else (Text.dropEnd? ending name).getD name)
  return 0

/-- Writes what is in front of the last part of a path. -/
def dirname : Program := fun args => do
  let path := args.head?.getD []
  let steps := (Shell.pathSteps (String.ofList path)).dropLast
  let text := "/".intercalate steps
  putLine (if path.head? = some '/' then '/' :: text.toList
    else if steps.isEmpty then ['.'] else text.toList)
  return 0

end Runbook.Shell.Utility
