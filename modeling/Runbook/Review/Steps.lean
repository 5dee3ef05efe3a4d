import Runbook.Quotes
import Runbook.Review.Issue
import Runbook.Text.Basic
import Runbook.Workflow

/-!
# Findings on single steps

* `metadataIssues`: names and descriptions at the top level;
* `duplicateIssues`: a name that the top level has twice;
* `assignsIn`, `loopIssues`: loops that may never end;
* `commandIssues`: quotes that do not match, and removal from the root.
-/

namespace Runbook.Review

/-- Whether a text is empty but for blanks. -/
def isBlankText (text : String) : Bool :=
  text.toList.all Text.isBlank

/-! ## 1. Names and descriptions -/

/-- The findings on the name and the description of a step. -/
def metadataOf (s : Step) : List Issue :=
  issueIf (isBlankText s.name)
      ⟨.error, "Step has empty name", none, some "Provide a meaningful name for the step"⟩ ++
    issueIf (isBlankText s.head.description)
      ⟨.warning, "Step '" ++ s.name ++ "' has empty description", some s.name,
        some "Add a description to explain what this step does"⟩ ++
    issueIf (decide (100 < s.name.length))
      ⟨.warning, "Step '" ++ s.name ++ "' has very long name", some s.name,
        some "Consider using a shorter, more concise name"⟩

/-- The findings on names and descriptions of the top level. -/
def metadataIssues (w : Workflow) : List Issue :=
  w.steps.flatMap metadataOf

/-- The findings on names that come a second time, positions counted from one; the first of the two
positions is that of the first step with the name. -/
def duplicateIssues (w : Workflow) : List Issue :=
  w.steps.zipIdx.flatMap fun (s, i) =>
    match w.steps.findIdx? fun t => t.name = s.name with
    | some first =>
      issueIf (decide (first < i))
        ⟨.error, "Duplicate step name '" ++ s.name ++ "' found at positions " ++
          toString (first + 1) ++ " and " ++ toString (i + 1), some s.name,
          some "Use unique names for all steps"⟩
    | none => []

/-! ## 2. Loops -/

/-- Whether a text assigns to the name: the name with an equals sign behind it, and before it
neither a character of a name nor a dollar sign. `inName` says whether such a character comes just
before. -/
def assignsFrom (name : List Char) (inName : Bool) : List Char → Bool
  | [] => false
  | c :: rest =>
    (!inName && Text.startsWith (name ++ ['=']) (c :: rest)) ||
      assignsFrom name (Text.isWordChar c || c == '$') rest

/-- Whether a text assigns to the name anywhere. -/
def assignsIn (name text : String) : Bool :=
  assignsFrom name.toList false text.toList

/-- Whether a step of the tree assigns to the name. -/
def blockAssigns (name : String) (block : List Step) : Bool :=
  (Step.walkBlock block).any fun s => assignsIn name s.commandText

/-- The findings on a loop: a condition that always holds, and a captured variable that the body
leaves as it is. -/
def loopOf : Step → List Issue
  | .command _ => []
  | .auth _ => []
  | .conditional .. => []
  | .branch .. => []
  | .loop h condition body =>
    let always := Text.trim condition.expression.toList
    issueIf (always = "true".toList || always = "1".toList)
        ⟨.error, "Step '" ++ h.name ++ "' contains an infinite loop condition", some h.name,
          some "Add a proper exit condition to the loop"⟩ ++
      match condition.capture with
      | none => []
      | some name =>
        issueIf (name ≠ "" && !blockAssigns name body)
          ⟨.warning, "Loop in step '" ++ h.name ++ "' may not modify its condition variable '" ++
            name ++ "'", some h.name,
            some "Ensure the loop modifies the condition variable to eventually exit"⟩

/-- The findings on loops at any depth. -/
def loopIssues (w : Workflow) : List Issue :=
  w.allSteps.flatMap loopOf

/-! ## 3. Commands -/

/-- The findings on a command text. -/
def commandOf (h : StepHead) : List Issue :=
  if isBlankText h.command then []
  else
    issueIf (hasUnmatchedQuotes h.command)
        ⟨.error, "Step '" ++ h.name ++ "' has unmatched quotes", some h.name,
          some "Check that all quotes are properly matched"⟩ ++
      issueIf (Text.occursIn "rm -rf /".toList h.command.toList)
        ⟨.warning, "Step '" ++ h.name ++ "' contains potentially dangerous command", some h.name,
          some "Review this command carefully for safety"⟩

/-- The findings on the command texts of commands and authentications at any depth. -/
def commandIssues (w : Workflow) : List Issue :=
  w.allSteps.flatMap fun
    | .command h => commandOf h
    | .auth h => commandOf h
    | .conditional .. => []
    | .branch .. => []
    | .loop .. => []

end Runbook.Review
