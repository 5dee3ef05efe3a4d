import Runbook.Assoc

/-!
# Statements of a shell function

What the body of a shell function is read into:

* `Statement`: a command, a conditional, a choice by a value, the two loops, an assignment;
* `Statement.assigned`: the names that a statement and everything below it assign to, in order;
* `assignments`: the last value of each name.

The arms of a choice stand in the order of the text, and the arm of any value has the pattern `*`.
-/

namespace Runbook.ShellFunction

/-- A statement. -/
inductive Statement where
  | command (text : String)
  | conditional (condition : String) (thenBlock : List Statement)
      (elseBlock : Option (List Statement))
  | choice (selector : String) (arms : List (String × List Statement))
  | forLoop (loopVariable items source : String) (body : List Statement)
  | whileLoop (condition : String) (body : List Statement)
  | assignment (name value : String) (isLocal : Bool)
deriving Repr

/-- The pattern of the arm that takes any value. -/
def anyValue : String := "*"

namespace Statement

mutual

/-- The assignments of a statement and of everything below it, in the order of the text. -/
def assigned : Statement → List (String × String)
  | .command _ => []
  | .conditional _ thenBlock none => assignedBlock thenBlock
  | .conditional _ thenBlock (some elseBlock) => assignedBlock thenBlock ++ assignedBlock elseBlock
  | .choice _ arms => assignedArms arms
  | .forLoop _ _ _ body => assignedBlock body
  | .whileLoop _ body => assignedBlock body
  | .assignment name value _ => [(name, value)]

/-- The assignments of a block. -/
def assignedBlock : List Statement → List (String × String)
  | [] => []
  | s :: rest => assigned s ++ assignedBlock rest

/-- The assignments of arms. -/
def assignedArms : List (String × List Statement) → List (String × String)
  | [] => []
  | (_, body) :: rest => assignedBlock body ++ assignedArms rest

end

end Statement

/-- The names that a block assigns to, each with the value it gets last. -/
def assignments (block : List Statement) : Assoc String String :=
  Assoc.ofPairs (Statement.assignedBlock block)

end Runbook.ShellFunction
