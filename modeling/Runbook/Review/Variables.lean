import Runbook.Review.Issue
import Runbook.Template.Steps

/-!
# Variables that are used and variables that are declared

* `shellVariableAt`: a shell variable at the start of a text, with or without braces;
* `namesInText`: the variables that a text uses, shell variables first;
* `usedNames`: the variables that a step tree uses, each once;
* `variableIssues`: used but not declared, and declared but not used.
-/

namespace Runbook.Review

/-- A shell variable that starts with `c`: its name, and how many characters of `rest` belong
to it. -/
def shellVariableAt (c : Char) (rest : List Char) : Option (String × Nat) :=
  if c = '$' then
    match rest with
    | '\x7b' :: body =>
      match body.takeWhile Text.isWordChar, body.dropWhile Text.isWordChar with
      | [], _ => none
      | name, '\x7d' :: _ => some (String.ofList name, name.length + 2)
      | _, _ => none
    | _ =>
      match rest.takeWhile Text.isWordChar with
      | [] => none
      | name => some (String.ofList name, name.length)
  else none

/-- The variables that a text uses: its shell variables, and then its placeholders. -/
def namesInText (text : String) : List String :=
  Text.tokens (Text.pieces shellVariableAt text.toList) ++
    Text.tokens (Template.placeholders text)

/-- The variables that a step itself uses; a branch uses the variable it goes by. -/
def namesInStep (s : Step) : List String :=
  s.selector?.toList ++ s.templates.flatMap namesInText

/-- The variables that a step tree uses, each once, in the order of the walk. -/
def usedNames (steps : List Step) : List String :=
  distinct ((Step.walkBlock steps).flatMap namesInStep)

/-- Whether a name needs no declaration: it is known to exist, or it is the number of an argument.
-/
def isBuiltin (builtins : List String) (name : String) : Bool :=
  builtins.contains name || (name ≠ "" && name.toList.all Text.isDigitLike)

/-- A variable that is used and not declared. -/
def undeclared (name : String) : Issue :=
  ⟨.warning, "Variable '" ++ name ++ "' is used but not defined", none,
    some ("Add variable '" ++ name ++ "' to workflow variables")⟩

/-- A variable that is declared and not used. -/
def unused (name : String) : Issue :=
  ⟨.info, "Variable '" ++ name ++ "' is defined but never used", none,
    some "Consider removing unused variables"⟩

/-- The findings about variables. -/
def variableIssues (builtins : List String) (w : Workflow) : List Issue :=
  let declared := w.declarations.map (·.name)
  let used := usedNames w.steps
  (used.filter fun name => !declared.contains name && !isBuiltin builtins name).map undeclared ++
    ((distinct declared).filter fun name => !used.contains name).map unused

end Runbook.Review
