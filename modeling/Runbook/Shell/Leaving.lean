import Runbook.Shell.State

/-!
# Leaving and coming back

Commands leave loops, functions and shells, and signals end processes. Here is who catches them:

* `endingStatus`, `inSubshell`: the end of a shell, and a shell of its own;
* `round`: a round of a loop;
* `withoutStopping`, `stopOnFailure`: where a failure ends the shell, and where it does not;
* `outputOf`: what a computation writes.
-/

namespace Runbook.Shell

/-- The traps that a process started from this one keeps: those that do nothing. -/
def inheritedTraps (traps : Assoc Nat Octets) : Assoc Nat Octets :=
  traps.filter fun t => t.2.isEmpty

/-- The exit code that a computation ends with; a signal and a lack of fuel go on. -/
def endingStatus (run : Shell Unit) : Shell Nat := do
  try
    run
    return (← get).status
  catch
    | .exit status => return status
    | .fromFunction status => return status
    | .fromLoop _ => return (← get).status
    | .nextRound _ => return (← get).status
    | .killed process signal => throw (.killed process signal)
    | .unfinished => throw .unfinished

/-- A computation in a shell of its own: of what it changes only files and streams stay. -/
def inSubshell (run : Shell Unit) : Shell Unit := do
  let before ← get
  set { before with traps := inheritedTraps before.traps }
  let status ← endingStatus run
  modify fun s => { before with disk := s.disk, streams := s.streams, status := status }

/-- A computation whose failure does not end the shell. -/
def withoutStopping {α : Type} (run : Shell α) : Shell α := do
  modify fun s => { s with guards := s.guards + 1 }
  let back : Shell Unit := modify fun s => { s with guards := s.guards - 1 }
  try
    let a ← run
    back
    return a
  catch e =>
    back
    throw e

/-- Sets the outcome of a command. -/
def setStatus (n : Nat) : Shell Unit :=
  modify fun s => { s with status := n }

/-- Ends the shell after a failure, if it is set so. -/
def stopOnFailure : Shell Unit := do
  let s ← get
  if s.options.stopsOnFailure && s.guards = 0 && s.status ≠ 0 then throw (.exit s.status)

/-- Whether a loop goes on with its next round. -/
inductive Round where
  | next
  | leave

/-- A round of a loop, with the words that end a round or the loop taken care of. -/
def round (body : Shell Unit) : Shell Round := do
  modify fun s => { s with loops := s.loops + 1 }
  let back : Shell Unit := modify fun s => { s with loops := s.loops - 1 }
  try
    body
    back
    return .next
  catch
    | .fromLoop levels =>
      back
      if levels ≤ 1 then return .leave else throw (.fromLoop (levels - 1))
    | .nextRound levels =>
      back
      if levels ≤ 1 then return .next else throw (.nextRound (levels - 1))
    | e =>
      back
      throw e

/-- The output of a computation in a shell of its own, without the line ends behind it. -/
def outputOf (run : Shell Unit) : Shell Octets := do
  let id ← Shell.newStream []
  let channels := (← get).channels
  Shell.withChannels (channels.put 1 (.stream id)) (inSubshell run)
  return ((← Shell.contentOf id).reverse.dropWhile (· == '\n')).reverse

/-- Ends the shell after a fault in a word; which exit code it has depends on the shell. -/
def endFor {α : Type} (text : String) (plain bash : Nat) : Shell α := do
  Shell.blame text
  throw (.exit (match (← get).dialect with
    | .plain => plain
    | .bash => bash))

end Runbook.Shell
