import Runbook.Condition.Expression
import Runbook.Run.Report

/-!
# What a run turns to

A run reaches the world through four channels: it starts processes, has conditions tested, reads
lines, and asks for approval. Each of them answers from a state of the world and leaves a new one:

* `Fault`: what no part of a run knows how to handle;
* `SpawnReply`, `TestReply`: the answers of a process and of a test;
* `World`: the four channels, and the confirmation of an authentication;
* `Event`: what a run did, in the order in which it did it.

An approver and a confirmation may be left out: a run then asks by reading a line.
-/

namespace Runbook

/-- What no part of a run handles: there are no more lines, a command holds a null character, the
shell for it is no text, its process does not end, or a number has more digits than are read. -/
inductive Fault where
  | endOfInput
  | nullCharacter
  | shellNotText
  | unfinished
  | oversizedNumber
deriving DecidableEq, Repr

/-- The answer to starting a process. -/
inductive SpawnReply where
  | finished (result : ProcessResult)
  | refused (reason : String)
  | raised (fault : Fault)
deriving DecidableEq, Repr

/-- The answer to testing a condition. -/
inductive TestReply where
  | decided (holds : Bool)
  | undecided (reason : String)
  | raised (fault : Fault)
deriving DecidableEq, Repr

/-- The channels of a run to a world with states `σ`. -/
structure World (σ : Type) where
  spawn : String → σ → SpawnReply × σ
  test : String → σ → TestReply × σ
  readLine : String → σ → Except Fault String × σ
  approve : Option (String → σ → Except Fault Bool × σ)
  confirm : Option (String → String → σ → Except Fault Unit × σ)

/-- What a run did. -/
inductive Event where
  | spawned (command : String)
  | tested (expression : String)
  | asked (prompt : String)
  | approval (message : String)
  | confirmation (step command : String)
  | warning (text : String)
deriving DecidableEq, Repr

/-- Whether an event reached a channel of the world or its log; questions that the run put by
reading a line show as that line. -/
def World.sees {σ : Type} (w : World σ) : Event → Bool
  | .approval _ => w.approve.isSome
  | .confirmation .. => w.confirm.isSome
  | .spawned _ => true
  | .tested _ => true
  | .asked _ => true
  | .warning _ => true

end Runbook
