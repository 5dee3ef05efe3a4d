import Runbook.Config.Use

/-!
# Screening of commands

A command is unsafe if it trips one of the fixed danger checks, and needs approval if it matches one
of the configured patterns. Nothing is refused here; the outcome is a report.

* `Screen`: what a configuration asks of commands, ready for use, and `Screen.ofConfig`;
* `dangerPatterns`: the fixed patterns;
* `Screen.commandIssues`, `Screen.command`: the issues of a command, and its report;
* `recommendations`: hints for a command that was flagged.
-/

namespace Runbook

namespace Security

/-! ## 1. Patterns -/

/-- Patterns of dangerous commands: removal by wildcard or from the root, writing to a raw disk by
redirection or by copying, a function that multiplies itself, an endless loop, a download piped into
a shell, writing to system settings, files of the system opened to everyone. -/
def dangerPatternTexts : List String :=
  ["rm\\s+-[rf]+.*[\\*/]",
   ">\\s*/dev/(?:sd[a-z]|hd[a-z]|nvme\\d)",
   "\\bof=/dev/(?:sd[a-z]|hd[a-z]|nvme\\d)",
   ":\\(\\)\\s*\\\x7b.*\\\x7d\\s*;\\s*:",
   "while\\s+true.*do",
   "(?:curl|wget).*\\|\\s*(?:sh|bash|zsh)\\b",
   ">\\s*/etc/",
   "chmod\\s+[0-7]*7[0-7]*\\s+/"]

/-- The patterns under their texts. -/
def dangerPatterns : List (String × Pattern) :=
  dangerPatternTexts.map fun text => (text, Pattern.ofKnownText text)

/-! ## 2. What a configuration asks for -/

/-- What is asked of commands. -/
structure Screen where
  maxLength : Int
  maxChained : Int
  dangerousWords : List String
  approvalPatterns : List Pattern
  callWords : List (List Char)

/-- The patterns of a list of values, all of which must be texts; a malformed text is left out, and
one that is refused is not. -/
def approvalPatternsOf : List Value → Except Misuse (List Pattern)
  | [] => .ok []
  | .scalar (.text s) :: rest =>
    match Pattern.read s with
    | .ok p => (approvalPatternsOf rest).map (p :: ·)
    | .error .malformed => approvalPatternsOf rest
    | .error (.refused r) => .error (.patternRefused r)
  | _ :: _ => .error .patternNotText

/-- The screen of a configuration. -/
def Screen.ofConfig (config : Config) : Except Misuse Screen := do
  let words ← Config.textSet config.dangerousCommands
  let patterns ← approvalPatternsOf config.approvalPatterns
  let callWords ← config.callWords
  return {
    maxLength := config.maxCommandLength
    maxChained := config.maxChainedCommands
    dangerousWords := words
    approvalPatterns := patterns
    callWords := callWords }

/-! ## 3. Commands -/

/-- The report on a command. -/
structure CommandReport where
  command : String
  isSafe : Bool
  requiresApproval : Bool
  issues : List String
deriving DecidableEq, Repr

/-- An issue, if a condition holds. -/
def issueIf (condition : Bool) (issue : String) : List String :=
  if condition then [issue] else []

/-- Whether a command redirects into a device, and never into the null device. -/
def redirectsToDevice (cs : List Char) : Bool :=
  Text.occursIn ">/dev/".toList cs && !Text.occursIn ">/dev/null".toList cs

namespace Screen

/-- The issue of a dangerous first word. -/
def firstWordIssues (screen : Screen) (cs : List Char) : List String :=
  match Text.wordsOf cs with
  | [] => []
  | w :: _ =>
    issueIf (screen.dangerousWords.contains (String.ofList w))
      ("Potentially dangerous command: " ++ String.ofList w)

/-- The issues of a command, in the order of the checks. -/
def commandIssues (screen : Screen) (command : String) : List String :=
  let cs := command.toList
  issueIf (decide (screen.maxLength < (cs.length : Int)))
      "Command is too long (potential buffer overflow)" ++
    issueIf (cs.contains (Char.ofNat 0)) "Command contains null bytes (potential injection)" ++
    (dangerPatterns.filter fun entry => entry.2.search cs).map
      (fun entry => "Dangerous pattern detected: " ++ entry.1) ++
    screen.firstWordIssues cs ++
    issueIf (redirectsToDevice cs) "Suspicious redirection to device file" ++
    issueIf (decide (screen.maxChained < (Text.countOf ';' cs : Int)))
      "Excessive command chaining detected" ++
    issueIf (Text.occursIn "$(".toList cs || Text.occursIn "`".toList cs)
      "Command substitution detected - review carefully"

/-- Whether a command matches an approval pattern. -/
def needsApproval (screen : Screen) (command : String) : Bool :=
  screen.approvalPatterns.any fun p => p.search command.toList

/-- The report on a command. -/
def command (screen : Screen) (text : String) : CommandReport :=
  let issues := screen.commandIssues text
  ⟨text, issues.isEmpty, screen.needsApproval text, issues⟩

end Screen

/-! ## 4. Hints -/

/-- Hints for a command that was flagged. -/
def recommendations (command : String) : List String :=
  let has (part : String) : Bool := Text.occursIn part.toList command.toList
  issueIf (has "rm") "Consider using 'trash' command instead of 'rm' for safer file deletion" ++
    issueIf (has "sudo") "Verify that elevated privileges are truly necessary" ++
    issueIf (has "curl" || has "wget")
      "Verify the source URL and consider using --fail-with-body for curl" ++
    issueIf (has ">" && !has ">>")
      "Consider using '>>' for append instead of '>' to avoid overwriting files" ++
    issueIf (has "chmod 777") "Avoid chmod 777 - use more restrictive permissions"

end Security

end Runbook
