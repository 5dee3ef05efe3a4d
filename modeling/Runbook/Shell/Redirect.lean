import Runbook.Shell.State

/-!
# Channels turned to files

* `outputChannel?`, `inputChannel?`: the channels of files;
* `redirect`: the channels after a redirection, whose target is known.
-/

namespace Runbook.Shell

/-- Complains that a file cannot be opened. -/
def cannotOpen (isOutput : Bool) (name : Octets) : Shell Unit := do
  let isDirectory := !name.isEmpty && (← Shell.isDirectory (← Shell.pathOf name))
  let text := String.ofList name
  Shell.blame (match (← get).dialect with
    | .plain =>
      if isDirectory && isOutput then "cannot create " ++ text ++ ": Is a directory"
      else if isOutput then "cannot create " ++ text ++ ": Directory nonexistent"
      else "cannot open " ++ text ++ ": No such file"
    | .bash => text ++ if isDirectory then ": Is a directory" else ": No such file or directory")

/-- The channel of a file that is written, emptied before unless it is added to. -/
def outputChannel? (isAppend : Bool) (name : Octets) : Shell (Option Channel) := do
  if name.isEmpty then
    cannotOpen true name
    return none
  let path ← Shell.pathOf name
  if path = "/dev/null" then return some .nothing
  if path = "/dev/stdout" then return (← get).channels.get? 1
  if path = "/dev/stderr" then return (← get).channels.get? 2
  let old := (← Shell.fileAt? path).getD []
  if ← Shell.putFile path (if isAppend then old else []) then return some (.file path)
  cannotOpen true name
  return none

/-- The channel of a file that is read. -/
def inputChannel? (name : Octets) : Shell (Option Channel) := do
  if name.isEmpty then
    cannotOpen false name
    return none
  let path ← Shell.pathOf name
  if path = "/dev/stdin" then return (← get).channels.get? 0
  match ← Shell.fileAt? path with
  | some content => return some (.stream (← Shell.newStream content))
  | none =>
    if ← Shell.isDirectory path then return some .nothing
    cannotOpen false name
    return none

/-- A natural number in digits. -/
def channelNumber? (cs : Octets) : Option Nat :=
  if cs.isEmpty || !cs.all Char.isDigit then none
  else some (cs.foldl (fun n c => 10 * n + (c.toNat - '0'.toNat)) 0)

/-- The channels after one of them is turned to what a redirection says. -/
def redirect (kind : RedirectionKind) (channel : Option Nat) (target : Octets)
    (channels : Assoc Nat Channel) : Shell (Option (Assoc Nat Channel)) := do
  let turned (c : Channel) : Assoc Nat Channel :=
    match channel with
    | some n => channels.put n c
    | none => (channels.put 1 c).put 2 c
  match kind with
  | .input => return (← inputChannel? target).map turned
  | .output => return (← outputChannel? false target).map turned
  | .append => return (← outputChannel? true target).map turned
  | .text addsNewline =>
    let content := if addsNewline then target ++ ['\n'] else target
    return some (turned (.stream (← Shell.newStream content)))
  | .copy =>
    if target = ['-'] then return some (channels.filter fun c => some c.1 ≠ channel)
    match channelNumber? target, (← get).dialect with
    | some n, _ =>
      match channels.get? n with
      | some c => return some (turned c)
      | none =>
        Shell.blame (String.ofList target ++ ": Bad file descriptor")
        return none
    | none, .bash => return (← outputChannel? false target).map fun c => (channels.put 1 c).put 2 c
    | none, .plain =>
      Shell.blame "Syntax error: Bad fd number"
      throw (.exit 2)

end Runbook.Shell
