import Runbook.Proofs.Shell.Assignments
import Runbook.Proofs.Shell.Octets
import Runbook.Proofs.ShellFunction.Printing
import Runbook.ShellFunction.Steps

/-!
# Assignments in other quotes

A body may assign a text in single quotes, in which nothing has a meaning; the command of the step puts the
text into double quotes:

* `assigningLine`, `ofText_assigningLine`: the line, and the assignment that is read from it;
* `assigningHead`, `stepsOf_assigningLine`: the step that is made of it;
* **`singleQuoted_assigned_iff`**: a shell reads the command of that step as assigning the text exactly if
  the text stands for itself between double quotes;
* `home_expanded`: so it does not keep every text.
-/

namespace Runbook.ShellFunction

open Shell (octetsOf isInert)

/-! ## 1. A line that assigns a quoted text -/

/-- A line that assigns a text in quotes, perhaps as a local declaration. -/
def assigningLine (isLocal : Bool) (q : Char) (name value : List Char) : Line :=
  if isLocal then localLine (quotedLine q name value) else quotedLine q name value

section Line
variable {name : List Char} (hn : IdentifierText name) {q : Char} (hq : q = '"' ∨ q = '\'')
  {value : List Char} (hv : Text.Unbroken value) (isLocal : Bool)
include hn hq hv

theorem tidy_assigningLine : Text.Tidy (assigningLine isLocal q name value) := by
  have htidy := tidy_quotedLine hn hq hv
  cases isLocal with
  | false => exact htidy
  | true => exact tidy_localLine htidy

/-- **Such a line is an assignment of the text**, in whatever block it stands. -/
theorem laidOn_assigningLine (hno : q ∉ value) :
    (Fragment.statement (.assignment (String.ofList name) (String.ofList value) isLocal)).LaidOn
      [assigningLine isLocal q name value] := by
  cases isLocal with
  | false =>
    exact laid_simple (starts_quotedLine hn hq value) (openerOf_quotedLine hn hq value)
      (simpleStatement_quotedLine hn hq hv hno)
  | true =>
    have hlast := getLast?_quotedLine [] q name value
    have hend : q ≠ ';' := by rcases hq with rfl | rfl <;> decide
    exact laid_simple (starts_localLine hlast hend)
      (openerOf_localLine (isOneLine_quotedLine hq _ _ _)) (simpleStatement_localLine hn hq hv)

theorem ofText_assigningLine (hno : q ∉ value) {indent : List Char}
    (hindent : indent.all Text.isBlank = true) (hunbroken : Text.Unbroken indent) :
    Statement.ofText (String.ofList (indent ++ assigningLine isLocal q name value)) =
      .ok [.assignment (String.ofList name) (String.ofList value) isLocal] := by
  have hindented : Indented [assigningLine isLocal q name value]
      [indent ++ assigningLine isLocal q name value] :=
    .cons ⟨indent, hindent, hunbroken, rfl⟩ .nil
  have htidy : AllTidy [assigningLine isLocal q name value] :=
    allTidy_cons.mpr ⟨tidy_assigningLine hn hq hv isLocal, allTidy_nil⟩
  have hread := ofText_of_laidOn htidy
    (laidOn_cons (laidOn_assigningLine hn hq hv isLocal hno) laidOn_nil) hindented
  rwa [List.map_singleton, Text.joinWith, String.intercalate_singleton] at hread

end Line

/-! ## 2. The command that assigns it -/

theorem identifierText_of_isName {name : List Char}
    (h : Shell.CommandReader.isName (String.ofList name) = true) : IdentifierText name := by
  obtain ⟨c, rest, rfl, hc, hall⟩ := Shell.exists_of_isName h
  exact ⟨by simpa using hc, fun d hd =>
    Text.isWordChar_of_isIdentChar (hall d (List.mem_cons_of_mem _ hd))⟩

/-- The head of the step that assigns a text, as it is, in double quotes. -/
def assigningHead (isLocal : Bool) (name value : List Char) : StepHead :=
  headOf ("Set " ++ scopeName isLocal ++ " variable: " ++ String.ofList name)
    ("Set " ++ scopeName isLocal ++ " variable " ++ String.ofList name ++ " to " ++
      String.ofList value)
    (String.ofList (quotedLine '"' name value))

theorem stepOf_assignment {name value : List Char} (hne : value ≠ []) (isLocal : Bool) :
    stepOf (.assignment (String.ofList name) (String.ofList value) isLocal) =
      .command (assigningHead isLocal name value) := by
  have hnonempty : String.ofList value ≠ "" := fun h => hne (String.ofList_eq_empty_iff.mp h)
  have hcommand : String.ofList name ++ "=\"" ++ String.ofList value ++ "\"" =
      String.ofList (quotedLine '"' name value) := by
    rw [← String.toList_inj]
    simp [quotedLine]
  unfold stepOf assignmentStep assignmentCommand
  rw [if_neg hnonempty, if_neg hnonempty, hcommand]
  rfl

/-- The bytes of such a command are those of its value in double quotes. -/
theorem octetsOf_quotedLine {name : List Char}
    (hname : Shell.CommandReader.isName (String.ofList name) = true) (value : List Char) :
    octetsOf (String.ofList (quotedLine '"' name value)) =
      Shell.quotedAssignment name (octetsOf (String.ofList value)) := by
  obtain ⟨c, rest, -, -, hall⟩ := Shell.exists_of_isName hname
  have hbytes : name.flatMap Shell.octets = name := by
    rw [← Shell.octetsOf_ofList, Shell.octetsOf_of_lt, String.toList_ofList]
    rw [String.toList_ofList]
    exact fun d hd => Text.toNat_lt_of_isIdentChar (hall d hd)
  have hequals : Shell.octets '=' = ['='] := Shell.octets_of_lt (by decide)
  have hmark : Shell.octets '"' = ['"'] := Shell.octets_of_lt (by decide)
  rw [Shell.octetsOf_ofList, Shell.octetsOf_ofList, quotedLine, Shell.quotedAssignment]
  simp only [List.flatMap_append, List.flatMap_cons, List.flatMap_nil, hbytes, hequals, hmark,
    List.singleton_append, List.append_nil]

section Requoted
variable {name value : List Char} (hname : Shell.CommandReader.isName (String.ofList name) = true)
  (hvalue : Text.Unbroken value)
include hname hvalue

/-- **A line that assigns a text in single quotes becomes a command that assigns it in double quotes**,
unchanged. -/
theorem stepsOf_assigningLine {indent : List Char} (isLocal : Bool)
    (hindent : indent.all Text.isBlank = true) (hunbroken : Text.Unbroken indent) (hne : value ≠ [])
    (hquote : '\'' ∉ value) :
    (Statement.ofText (String.ofList (indent ++ assigningLine isLocal '\'' name value))).map stepsOf =
      .ok [.command (assigningHead isLocal name value)] := by
  have hn := identifierText_of_isName hname
  rw [ofText_assigningLine hn (.inr rfl) hvalue isLocal hquote hindent hunbroken]
  show Except.ok [stepOf _] = _
  rw [stepOf_assignment hne]

/-- **A shell reads such a command as assigning the text exactly if it stands for itself.** -/
theorem ofScript_quotedLine_iff :
    Shell.ScriptLines.ofScript .plain (octetsOf (String.ofList (quotedLine '"' name value))) =
        .assigning (String.ofList name) (octetsOf (String.ofList value)) ↔
      isInert value = true := by
  have hline : '\n' ∉ octetsOf (String.ofList value) := by
    rw [Shell.octetsOf_ofList, Shell.mem_flatMap_octets_iff (by decide)]
    exact fun hmem => absurd (hvalue _ hmem) (by decide)
  rw [octetsOf_quotedLine hname, Shell.ofScript_eq_assigning_iff hname hline,
    Shell.isInert_octetsOf, String.toList_ofList]

end Requoted

/-- **An assignment of a text in single quotes becomes one step, which puts the text into double quotes
as it is**; a shell reads its command as assigning that text exactly if the text stands for itself there.
-/
theorem singleQuoted_assigned_iff {indent name value : List Char} (isLocal : Bool)
    (hindent : indent.all Text.isBlank = true) (hunbroken : Text.Unbroken indent)
    (hname : Shell.CommandReader.isName (String.ofList name) = true) (hne : value ≠ [])
    (hvalue : Text.Unbroken value) (hquote : '\'' ∉ value) :
    (Statement.ofText (String.ofList (indent ++ assigningLine isLocal '\'' name value))).map stepsOf =
        .ok [.command (assigningHead isLocal name value)] ∧
      (Shell.ScriptLines.ofScript .plain (octetsOf (assigningHead isLocal name value).command) =
          .assigning (String.ofList name) (octetsOf (String.ofList value)) ↔
        isInert value = true) :=
  ⟨stepsOf_assigningLine hname hvalue isLocal hindent hunbroken hne hquote,
    ofScript_quotedLine_iff hname hvalue⟩

/-- A dollar sign and a backslash without a meaning are kept. -/
theorem price_assigned :
    (Statement.ofText "  local X='5$ \\d'").map stepsOf =
        .ok [.command (headOf "Set local variable: X" "Set local variable X to 5$ \\d"
          "X=\"5$ \\d\"")] ∧
      Shell.ScriptLines.ofScript .plain (octetsOf "X=\"5$ \\d\"") =
        .assigning "X" (octetsOf "5$ \\d") := by
  obtain ⟨hsteps, hiff⟩ := @singleQuoted_assigned_iff "  ".toList "X".toList "5$ \\d".toList true
    (by decide) (by decide) (by decide) (by decide) (by decide) (by decide)
  exact ⟨hsteps, hiff.mpr (by decide)⟩

/-- The name of a variable between single quotes is expanded between double quotes. -/
theorem home_expanded :
    (Statement.ofText "X='$HOME'").map stepsOf =
        .ok [.command (headOf "Set global variable: X" "Set global variable X to $HOME"
          "X=\"$HOME\"")] ∧
      Shell.ScriptLines.ofScript .plain (octetsOf "X=\"$HOME\"") ≠
        .assigning "X" (octetsOf "$HOME") := by
  have hname : Shell.CommandReader.isName (String.ofList "X".toList) = true := by decide
  have hvalue : Text.Unbroken "$HOME".toList := by decide
  constructor
  · have hindent : ([] : List Char).all Text.isBlank = true := rfl
    have hsteps := stepsOf_assigningLine hname hvalue false hindent (by decide) (by decide) (by decide)
    exact hsteps
  · intro h
    exact absurd ((ofScript_quotedLine_iff hname hvalue).mp h) (by decide)

end Runbook.ShellFunction
