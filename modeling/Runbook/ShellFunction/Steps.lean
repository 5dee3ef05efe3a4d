import Runbook.ShellFunction.Statement
import Runbook.Step

/-!
# Steps of a shell function

`stepsOf` maps statements to steps: a conditional, a choice and a loop by a condition become steps
of their kind; a loop over items stays one command, for steps have no such loop; an assignment
becomes a command that assigns.
-/

namespace Runbook.ShellFunction

/-- The length that the text of a command has at most in the name of its step. -/
def maxNameLength : Nat := 50

/-- The text, cut with three dots if it is longer than a name allows. -/
def shorten (text : String) : String :=
  if maxNameLength < text.length then
    String.ofList (text.toList.take (maxNameLength - 3)) ++ "..."
  else text

/-- What a converted step has in common with all others. -/
def headOf (name description command : String) : StepHead :=
  ⟨name, description, command, false, false⟩

/-- The step of a command. -/
def commandStep (text : String) : Step :=
  .command (headOf ("Execute: " ++ shorten text) "Execute shell command" text)

/-- The word for where an assigned name is known. -/
def scopeName (isLocal : Bool) : String :=
  if isLocal then "local" else "global"

/-- The command of an assignment; an empty value only declares the name. -/
def assignmentCommand (name value : String) (isLocal : Bool) : String :=
  if value = "" then "# Declare " ++ scopeName isLocal ++ " variable " ++ name
  else name ++ "=\"" ++ value ++ "\""

/-- The step of an assignment. -/
def assignmentStep (name value : String) (isLocal : Bool) : Step :=
  .command (headOf ("Set " ++ scopeName isLocal ++ " variable: " ++ name)
    ("Set " ++ scopeName isLocal ++ " variable " ++ name ++ " to " ++
      if value = "" then "unset" else value)
    (assignmentCommand name value isLocal))

/-- The head of a choice. -/
def choiceHead (selector : String) : StepHead :=
  headOf "Branch by Value" ("Branch based on variable: " ++ selector) ""

/-- The head of a conditional. -/
def conditionalHead (condition : String) : StepHead :=
  headOf "Conditional Check" ("Check condition: " ++ condition) ""

mutual

/-- The step of a statement. -/
def stepOf : Statement → Step
  | .command text => commandStep text
  | .conditional condition thenBlock none =>
    .conditional (conditionalHead condition) ⟨condition, none⟩ (stepsOf thenBlock) none none
  | .conditional condition thenBlock (some elseBlock) =>
    .conditional (conditionalHead condition) ⟨condition, none⟩ (stepsOf thenBlock)
      (some (stepsOf elseBlock)) none
  | .choice selector arms =>
    .branch (choiceHead selector) selector (casesOf arms) (fallbackOf arms)
  | .forLoop loopVariable items source _ =>
    .command (headOf "For Loop" ("Iterate " ++ loopVariable ++ " over " ++ items) source)
  | .whileLoop condition body =>
    .loop (headOf "While Loop" ("Loop while: " ++ condition) "") ⟨condition, none⟩ (stepsOf body)
  | .assignment name value isLocal => assignmentStep name value isLocal

/-- The steps of a block. -/
def stepsOf : List Statement → List Step
  | [] => []
  | s :: rest => stepOf s :: stepsOf rest

/-- The cases of a branch: the arms but for those of any value. -/
def casesOf : List (String × List Statement) → List (String × List Step)
  | [] => []
  | (p, body) :: rest => if p = anyValue then casesOf rest else (p, stepsOf body) :: casesOf rest

/-- The block for values without a case: the last arm of any value. -/
def fallbackOf : List (String × List Statement) → Option (List Step)
  | [] => none
  | (p, body) :: rest =>
    match fallbackOf rest with
    | some block => some block
    | none => if p = anyValue then some (stepsOf body) else none

end

end Runbook.ShellFunction
