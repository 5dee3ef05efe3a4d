import Runbook.Value

/-!
# Configuration

Three sections of settings, every one of them optional:

* `security`: approval patterns, limits on length and chaining, dangerous first words;
* `execution`: the cap on loop iterations, and the shells to use;
* `validation`: how a workflow is called from a command, and the variables that always exist.

`deepMerge` puts given settings over others, map by map; `Config.standard` are the standard ones,
and `Config.ofValue` puts a value over those and checks the result. Patterns, dangerous words and
variable names are kept as given: what is no text among them shows where they are used.
-/

namespace Runbook

/-! ## 1. Merging -/

namespace Value

/-- The value under a key, numbers and truth values compared by their value. -/
def fieldUnder? (key : Scalar) : List (Scalar × Value) → Option Value
  | [] => none
  | (k, v) :: rest => if sameKey k key then some v else fieldUnder? key rest

mutual

/-- A value over an old one: maps are merged, anything else takes the place of the old value. -/
def mergeOver (old : Option Value) : Value → Value
  | .map upper =>
    match old with
    | some (.map base) => .map (deepMerge base upper)
    | _ => .map upper
  | v => v

/-- The entries of a map put over those of another one, from left to right. -/
def deepMerge (base : List (Scalar × Value)) : List (Scalar × Value) → List (Scalar × Value)
  | [] => base
  | (k, v) :: rest => deepMerge (putField k (mergeOver (fieldUnder? k base) v) base) rest

end

end Value

/-! ## 2. Settings -/

/-- The settings in force, and all entries they were read from. -/
structure Config where
  entries : List (Scalar × Value)
  approvalPatterns : List Value
  maxCommandLength : Int
  maxChainedCommands : Int
  dangerousCommands : List Value
  maxLoopIterations : Option Int
  shell : Value
  testShell : Value
  callPrefix : Value
  builtinVariables : List Value
deriving DecidableEq, Repr

namespace Config

/-- The entries of the standard configuration. -/
def standardEntries : List (Scalar × Value) :=
  [(.text "security", .ofFields
      [("require_approval_patterns",
        .list (["rm\\s+-rf", "sudo\\s+", "chmod\\s+777", ">\\s*/dev/null"].map .text)),
       ("max_command_length", .int 1000),
       ("max_chained_commands", .int 3),
       ("dangerous_commands",
        .list (["rm", "rmdir", "dd", "mkfs", "format", "fdisk", "shutdown", "reboot", "halt",
          "poweroff", "init"].map .text))]),
   (.text "execution", .ofFields
      [("max_loop_iterations", .null), ("shell", .null), ("test_shell", .null)]),
   (.text "validation", .ofFields
      [("workflow_call_prefix", .text "clix flow run"),
       ("builtin_variables",
        .list (["HOME", "USER", "PATH", "PWD", "SHELL", "TERM"].map .text))])]

/-! ## 3. Checks -/

/-- What can be wrong with a configuration. -/
inductive Fault where
  | notMap
  | sectionNotMap (name : String)
  | badCap
  | notWhole (key : String)
  | notList (name key : String)
deriving DecidableEq, Repr

/-- The wording of a fault; a value that is no map at all has none. -/
def Fault.message : Fault → String
  | .notMap => ""
  | .sectionNotMap name => "'" ++ name ++ "' must be a mapping"
  | .badCap => "execution.max_loop_iterations must be a positive integer"
  | .notWhole key => "security." ++ key ++ " must be an integer"
  | .notList name key => name ++ "." ++ key ++ " must be a list"

/-- A section, which must be a map. -/
def readSection (entries : List (Scalar × Value)) (name : String) :
    Except Fault (List (Scalar × Value)) :=
  match Value.lookup name entries with
  | none => .ok []
  | some (.map fields) => .ok fields
  | some _ => .error (.sectionNotMap name)

/-- The cap on loop iterations: a positive whole number, or null for none. -/
def readCap (fields : List (Scalar × Value)) : Except Fault (Option Int) :=
  match Value.lookup "max_loop_iterations" fields with
  | none => .ok none
  | some (.scalar .null) => .ok none
  | some (.scalar (.int n)) => if n < 1 then .error .badCap else .ok (some n)
  | some _ => .error .badCap

/-- A whole number. -/
def readWhole (fields : List (Scalar × Value)) (key : String) : Except Fault Int :=
  match Value.lookup key fields with
  | some (.scalar (.int n)) => .ok n
  | _ => .error (.notWhole key)

/-- A list. -/
def readList (name : String) (fields : List (Scalar × Value)) (key : String) :
    Except Fault (List Value) :=
  match Value.lookup key fields with
  | some (.list items) => .ok items
  | _ => .error (.notList name key)

/-- The configuration of the given entries. -/
def ofEntries (entries : List (Scalar × Value)) : Except Fault Config := do
  let security ← readSection entries "security"
  let execution ← readSection entries "execution"
  let validation ← readSection entries "validation"
  let cap ← readCap execution
  let maxLength ← readWhole security "max_command_length"
  let maxChained ← readWhole security "max_chained_commands"
  let patterns ← readList "security" security "require_approval_patterns"
  let dangerous ← readList "security" security "dangerous_commands"
  let builtins ← readList "validation" validation "builtin_variables"
  return {
    entries := entries
    approvalPatterns := patterns
    maxCommandLength := maxLength
    maxChainedCommands := maxChained
    dangerousCommands := dangerous
    maxLoopIterations := cap
    shell := (Value.lookup "shell" execution).getD .null
    testShell := (Value.lookup "test_shell" execution).getD .null
    callPrefix := (Value.lookup "workflow_call_prefix" validation).getD .null
    builtinVariables := builtins }

/-- The configuration that a value gives over the standard one. What does not count as given gives
nothing; what is given must be a map. -/
def ofValue (v : Value) : Except Fault Config :=
  if !v.isTruthy then ofEntries standardEntries
  else
    match v with
    | .map upper => ofEntries (Value.deepMerge standardEntries upper)
    | _ => .error .notMap

/-- The standard configuration. -/
def standard : Config where
  entries := standardEntries
  approvalPatterns := ["rm\\s+-rf", "sudo\\s+", "chmod\\s+777", ">\\s*/dev/null"].map .text
  maxCommandLength := 1000
  maxChainedCommands := 3
  dangerousCommands :=
    ["rm", "rmdir", "dd", "mkfs", "format", "fdisk", "shutdown", "reboot", "halt", "poweroff",
      "init"].map .text
  maxLoopIterations := none
  shell := .null
  testShell := .null
  callPrefix := .text "clix flow run"
  builtinVariables := ["HOME", "USER", "PATH", "PWD", "SHELL", "TERM"].map .text

theorem ofValue_null : ofValue .null = .ok standard := by
  rfl

end Config

end Runbook
