import Runbook.Number.Written
import Runbook.Yaml.Token

/-!
# Names, tags and directives

The parts of a document that are neither scalars nor single signs, each read from a text into the
part and what follows it: `anchorName`, `tagText`, `directive`.
-/

namespace Runbook.Yaml

/-- The characters of a name. -/
def isNameChar (c : Char) : Bool :=
  c.isAlphanum || c == '-' || c == '_'

/-- The characters of the main part of a tag. -/
def isTagChar (c : Char) : Bool :=
  c.isAlphanum || "-;/?:@&=+$,_.!~*'()[]%".toList.contains c

/-- The name of an anchor or an alias, from behind its sign on. -/
def anchorName (s : List Char) : Except Problem (String × List Char) :=
  let rest := s.dropWhile isNameChar
  match s.takeWhile isNameChar with
  | [] => .error .badAnchor
  | name =>
    if endsWord rest || rest.head?.any ("?:,]\x7d%@`".toList.contains ·) then
      .ok (String.ofList name, rest)
    else .error .badAnchor

/-! ## 1. Tags -/

/-- Bytes written as two hexadecimal digits each behind a percent sign. -/
def percentBytes : Nat → List Char → Except Problem (List UInt8 × List Char)
  | 0, s => .ok ([], s)
  | fuel + 1, s =>
    match s with
    | '%' :: rest =>
      match hexNumber? 2 0 rest with
      | none => .error .badTag
      | some (n, rest) => do
        let (bytes, rest) ← percentBytes fuel rest
        return (n.toUInt8 :: bytes, rest)
    | _ => .ok ([], s)

/-- The main part of a tag, which may hold characters written as their bytes. -/
def tagPart : Nat → List Char → Except Problem (List Char × List Char)
  | 0, s => .ok ([], s)
  | fuel + 1, s =>
    match s with
    | [] => .ok ([], [])
    | '%' :: _ => do
      let (bytes, rest) ← percentBytes s.length s
      match String.fromUTF8? ⟨bytes.toArray⟩ with
      | none => throw .badTag
      | some text =>
        let (more, rest) ← tagPart fuel rest
        return (text.toList ++ more, rest)
    | c :: rest =>
      if isTagChar c then do
        let (more, rest) ← tagPart fuel rest
        return (c :: more, rest)
      else .ok ([], s)

/-- The main part of a tag, which is not left out. -/
def tagSuffix (s : List Char) : Except Problem (String × List Char) := do
  match s with
  | c :: _ =>
    if isTagChar c then
      let (text, rest) ← tagPart s.length s
      return (String.ofList text, rest)
    else throw .badTag
  | [] => throw .badTag

/-- A handle: an exclamation mark on its own, or a name between two. -/
def tagHandle (s : List Char) : Except Problem (String × List Char) :=
  match s with
  | '!' :: rest =>
    if rest.head? = some ' ' then .ok ("!", rest)
    else
      match rest.dropWhile isNameChar with
      | '!' :: after =>
        .ok (String.ofList ('!' :: rest.takeWhile isNameChar ++ ['!']), after)
      | _ => .error .badTag
  | _ => .error .badTag

/-- A tag whose parts have been read, which must stand on its own. -/
def finishTag (handle : Option String) (suffix : String) (rest : List Char) :
    Except Problem (TagText × List Char) :=
  if endsPart rest then .ok (⟨handle, suffix⟩, rest) else .error .badTag

/-- A tag from its exclamation mark on. It stands between angle brackets as a whole, or has a
handle. -/
def tagText (s : List Char) : Except Problem (TagText × List Char) :=
  match s.drop 1 with
  | '<' :: body => do
    match ← tagSuffix body with
    | (suffix, '>' :: rest) => finishTag none suffix rest
    | _ => throw .badTag
  | rest =>
    if endsWord rest then finishTag none "!" rest
    else
      let word := rest.takeWhile fun c => c ≠ ' ' && !isBreak c
      if word.contains '!' then do
        let (handle, rest) ← tagHandle s
        let (suffix, rest) ← tagSuffix rest
        finishTag (some handle) suffix rest
      else do
        let (suffix, rest) ← tagSuffix rest
        finishTag (some "!") suffix rest

/-! ## 2. Directives -/

/-- A number in decimal digits, which may not be too many. -/
def versionNumber (s : List Char) : Except Problem (Nat × List Char) :=
  match s.takeWhile Char.isDigit with
  | [] => .error .badDirective
  | digits =>
    if maxDigits < digits.length then .error .notNumeric
    else
      .ok (digits.foldl (fun n c => 10 * n + (c.toNat - '0'.toNat)) 0, s.dropWhile Char.isDigit)

/-- A version: two numbers with a point between them. -/
def version (s : List Char) : Except Problem (Directive × List Char) := do
  match ← versionNumber (s.dropWhile (· == ' ')) with
  | (major, '.' :: rest) =>
    let (minor, rest) ← versionNumber rest
    if endsPart rest then return (.version major minor, rest) else throw .badDirective
  | _ => throw .badDirective

/-- A handle and what it stands for. -/
def handleValue (s : List Char) : Except Problem (Directive × List Char) := do
  let (handle, rest) ← tagHandle (s.dropWhile (· == ' '))
  if rest.head? ≠ some ' ' then throw .badDirective
  let (value, rest) ← tagSuffix (rest.dropWhile (· == ' '))
  if endsPart rest then return (.handle handle value, rest) else throw .badDirective

/-- A directive from behind its percent sign to the end of its line; an unknown one is passed
over. -/
def directive (s : List Char) : Except Problem (Directive × List Char) := do
  let name := s.takeWhile isNameChar
  let rest := s.dropWhile isNameChar
  if name.isEmpty || !endsPart rest then throw .badDirective
  let (d, rest) ←
    if name = "YAML".toList then version rest
    else if name = "TAG".toList then handleValue rest
    else .ok (Directive.other, skipLine rest)
  let rest ← restOfLine .badDirective rest
  return (d, rest)

end Runbook.Yaml
