import Runbook.Json.Reader
import Runbook.Sanitize.Command

/-!
# Cleansing of untrusted text

Six kinds of text, each brought into an acceptable shape or refused:

* `SanitizeError` and its wording;
* `command`, `variableName`, `variableValue`, `filePath`, `userInput`, `json`.

Every limit counts characters.
-/

namespace Runbook.Sanitize

/-! ## 1. Errors -/

/-- Why a text is refused. -/
inductive SanitizeError where
  | commandTooLong
  | badVariableName (name : String)
  | variableNameTooLong
  | variableValueTooLong
  | traversal
  | sensitiveDirectory (start : String)
  | pathTooLong
  | inputTooLong
  | jsonTooLong
  | badJson (reason : String)
  | oversizedJson (problem : Json.Problem)
  | dangerousJson
deriving DecidableEq, Repr

/-- The wording of an error. A document that is well-formed as far as it was read has none. -/
def SanitizeError.message : SanitizeError → String
  | .commandTooLong => "Command too long after sanitization"
  | .badVariableName name =>
    "Invalid variable name: " ++ name ++ ". Variable names must start with a letter " ++
      "or underscore and contain only alphanumeric characters and underscores."
  | .variableNameTooLong => "Variable name too long"
  | .variableValueTooLong => "Variable value too long"
  | .traversal => "Path contains directory traversal sequences"
  | .sensitiveDirectory start => "Access to sensitive directory not allowed: " ++ start
  | .pathTooLong => "File path too long"
  | .inputTooLong => "Input too long"
  | .jsonTooLong => "JSON input too large"
  | .badJson reason => "Invalid JSON: " ++ reason
  | .oversizedJson _ => ""
  | .dangerousJson => "JSON contains potentially dangerous content"

/-- The text if it is within a limit. -/
def within (limit : Nat) (error : SanitizeError) (s : List Char) :
    Except SanitizeError (List Char) :=
  if s.length ≤ limit then .ok s else .error error

/-! ## 2. Commands and variables -/

/-- A command: without null characters, single spaces, suspicious metacharacters escaped. -/
def command (s : List Char) : Except SanitizeError (List Char) :=
  within 2000 .commandTooLong (escapeMetacharacters (normalizeBlanks (withoutNull s)))

/-- Whether a text is an identifier, where one line feed may follow it. -/
def isIdentifierLine : List Char → Bool
  | [] => false
  | c :: rest =>
    Text.isIdentStart c &&
      (rest.all Text.isIdentChar ||
        (rest.getLast? == some '\n' && rest.dropLast.all Text.isIdentChar))

/-- A variable name: an identifier of at most 64 characters. -/
def variableName (s : List Char) : Except SanitizeError (List Char) :=
  if isIdentifierLine s then within 64 .variableNameTooLong s
  else .error (.badVariableName (String.ofList s))

/-- A variable's value: without null characters, line breaks written as escapes. -/
def variableValue (s : List Char) : Except SanitizeError (List Char) :=
  within 1024 .variableValueTooLong
    (Text.replaceAll ['\r'] ['\\', 'r'] (Text.replaceAll ['\n'] ['\\', 'n'] (withoutNull s)))

/-! ## 3. Paths -/

/-- The directories that paths must not start with. -/
def sensitiveStarts : List String :=
  ["/etc/", "/var/", "/sys/", "/proc/", "/dev/", "/boot/", "/root/"]

/-- One pass that writes one slash for every two. -/
def halveSlashes (s : List Char) : List Char :=
  Text.replaceAll ['/', '/'] ['/'] s

/-- Passes until no two slashes stand side by side; a pass that changes anything shortens the text,
so as many passes as there are characters are enough. -/
def collapseSlashes : Nat → List Char → List Char
  | 0, s => s
  | fuel + 1, s =>
    if Text.occursIn ['/', '/'] s then collapseSlashes fuel (halveSlashes s) else s

/-- A path: no traversal, no sensitive directory, single slashes, at most 256 characters. -/
def filePath (s : List Char) : Except SanitizeError (List Char) :=
  let s := withoutNull s
  if Text.occursIn ['.', '.'] s then .error .traversal
  else
    match sensitiveStarts.find? fun start => Text.startsWith start.toList s with
    | some start => .error (.sensitiveDirectory start)
    | none => within 256 .pathTooLong (collapseSlashes s.length s)

/-! ## 4. Free text and JSON -/

/-- The text with every run of three or more line feeds cut down to two; `seen` counts the line
feeds just before. -/
def cutLineFeeds : (seen : Nat) → List Char → List Char
  | _, [] => []
  | seen, c :: rest =>
    if c = '\n' then
      if seen < 2 then c :: cutLineFeeds (seen + 1) rest else cutLineFeeds seen rest
    else c :: cutLineFeeds 0 rest

/-- Free text: no null characters, no script element, no script or data address, no more than one
empty line at a time. -/
def userInput (s : List Char) : Except SanitizeError (List Char) :=
  let s := withoutNull s
  let s := Text.replaceAll "<script".toList "&lt;script".toList s
  let s := Text.replaceAll "javascript:".toList [] s
  let s := Text.replaceAll "data:".toList [] s
  within 2048 .inputTooLong (cutLineFeeds 0 s)

/-- A JSON document that is well formed, not too long and free of script content. -/
def json (s : List Char) : Except SanitizeError (List Char) :=
  if s.length > 10000 then .error .jsonTooLong
  else
    match Json.read s with
    | .error fault =>
      .error (if fault.problem.isMalformed then .badJson (fault.message s)
        else .oversizedJson fault.problem)
    | .ok _ =>
      if Text.occursIn "javascript:".toList s || Text.occursIn "<script".toList s then
        .error .dangerousJson
      else .ok s

end Runbook.Sanitize
