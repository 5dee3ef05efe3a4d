import Runbook.Run.World

/-!
# A scripted world

A world whose answers are laid down in advance:

* `Script`: replies by command, outcomes by expression, lines, and yes or no for each question;
* `Script.world`: the world that answers from a script and crosses off what it used.

The last reply to a command repeats; tests and questions without an answer left are answered with
no, and a line that is asked for when there is none left is a fault.
-/

namespace Runbook

/-- Answers laid down in advance. -/
structure Script where
  replies : Assoc String (List SpawnReply)
  outcomes : Assoc String (List TestReply)
  lines : List String
  approvals : List Bool

namespace Script

/-- A process that succeeds and writes nothing. -/
def silentSuccess : SpawnReply := .finished ⟨0, "", ""⟩

/-- The reply to a command; all but the last one are crossed off. -/
def spawn (command : String) (s : Script) : SpawnReply × Script :=
  match s.replies.get? command with
  | some (first :: second :: rest) =>
    (first, { s with replies := s.replies.put command (second :: rest) })
  | some [last] => (last, s)
  | some [] => (silentSuccess, s)
  | none => (silentSuccess, s)

/-- The key under which the outcomes of an expression are laid down; a star serves all others. -/
def outcomeKey (expression : String) (s : Script) : String :=
  if s.outcomes.contains expression then expression else "*"

/-- The outcome of a test, which is crossed off. -/
def test (expression : String) (s : Script) : TestReply × Script :=
  let key := outcomeKey expression s
  match s.outcomes.get? key with
  | some (first :: rest) => (first, { s with outcomes := s.outcomes.put key rest })
  | some [] => (.decided false, s)
  | none => (.decided false, s)

/-- The next line. -/
def readLine (_ : String) (s : Script) : Except Fault String × Script :=
  match s.lines with
  | line :: rest => (.ok line, { s with lines := rest })
  | [] => (.error .endOfInput, s)

/-- The next yes or no. -/
def approve (_ : String) (s : Script) : Except Fault Bool × Script :=
  match s.approvals with
  | yes :: rest => (.ok yes, { s with approvals := rest })
  | [] => (.ok false, s)

/-- The world of a script. Questions are answered from the script or by lines, and authentications
are confirmed by themselves or by lines. -/
def world (scriptedApproval silentConfirmation : Bool) : World Script where
  spawn := spawn
  test := test
  readLine := readLine
  approve := if scriptedApproval then some approve else none
  confirm := if silentConfirmation then some fun _ _ s => (.ok (), s) else none

end Script

end Runbook
