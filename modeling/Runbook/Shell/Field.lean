import Runbook.Shell.Glob
import Runbook.Shell.State

/-!
# Fields

What the words of a command expand to, and how that is cut into fields:

* `Piece`, `fieldsOf`: expanded words and their fields;
* `Word.withHome`, `Word.withBraces`: what is put in place before anything else;
* `namesFor`: the names of files that fit a field.
-/

namespace Runbook.Shell

/-- A piece of an expanded word: a character, a place where fields are cut, or the sign that a field
is there even if it is empty. -/
inductive Piece where
  | mark (m : Mark)
  | cut
  | hold
deriving DecidableEq, Repr

/-- The characters of pieces. -/
def marksOf (ps : List Piece) : List Mark :=
  ps.filterMap fun
    | .mark m => some m
    | .cut => some ⟨' ', true⟩
    | .hold => none

/-- The text of pieces. -/
def textOfPieces (ps : List Piece) : Octets :=
  (marksOf ps).map (·.char)

/-- The fields that pieces are cut into; `current` is the one under way, if it is there. -/
def fieldsFrom (current : Option (List Mark)) : List Piece → List (List Mark)
  | [] => current.toList
  | .cut :: rest => current.toList ++ fieldsFrom none rest
  | .hold :: rest => fieldsFrom (some (current.getD [])) rest
  | .mark m :: rest => fieldsFrom (some (current.getD [] ++ [m])) rest

/-- The fields of pieces. -/
def fieldsOf (ps : List Piece) : List (List Mark) :=
  fieldsFrom none ps

/-- The pieces of a value that was put in the place of an unquoted part. -/
def splitValue (separators : Octets) (cs : Octets) : List Piece :=
  cs.flatMap fun c =>
    if !separators.contains c then [.mark ⟨c, false⟩]
    else if c == ' ' || c == '\t' || c == '\n' then [.cut]
    else [.hold, .cut]

/-- The pieces of a value. -/
def piecesOfValue (separators : Octets) (isQuoted : Bool) (cs : Octets) : List Piece :=
  if isQuoted then .hold :: cs.map (fun c => .mark ⟨c, true⟩) else splitValue separators cs

/-- The separators of fields. -/
def separators : Shell Octets := do
  return (← Shell.valueOf? "IFS").getD " \t\n".toList

/-! ## 1. Homes and braces -/

/-- A word with the home of a user in the place of a tilde that it starts with. -/
def Word.withHome (home : Octets) (w : Word) : Word :=
  match w with
  | .text ('~' :: cs) false :: rest =>
    let user := cs.takeWhile fun c => c ≠ '/' && c ≠ ':'
    let isWhole := user.length < cs.length || rest.isEmpty
    let place := if user.isEmpty then some home
      else if user = "root".toList then some "/root".toList else none
    match isWhole, place with
    | true, some place => .text place true :: Word.cons (.text (cs.drop user.length) false) rest
    | _, _ => w
  | _ => w

/-- The texts between commas outside of inner braces. -/
def splitAtCommas (depth : Nat) (current : List Char) : List Char → List (List Char)
  | [] => [current.reverse]
  | c :: rest =>
    if c = ',' && depth = 0 then current.reverse :: splitAtCommas 0 [] rest
    else
      let depth := if c = '\x7b' then depth + 1 else if c = '\x7d' then depth - 1 else depth
      splitAtCommas depth (c :: current) rest

/-- A whole number with an optional sign. -/
def wholeOf? (s : List Char) : Option Int :=
  let number (ds : List Char) : Option Int :=
    if ds.isEmpty || !ds.all Char.isDigit then none
    else some (ds.foldl (fun n c => 10 * n + (c.toNat - '0'.toNat)) 0 : Nat)
  match s with
  | '-' :: ds => (number ds).map (-·)
  | '+' :: ds => number ds
  | ds => number ds

/-- The numbers or letters from one to another one. -/
def rangeOf? (first last : List Char) : Option (List (List Char)) :=
  let between (a b : Int) : List Int :=
    let count := (b - a).natAbs + 1
    (List.range count).map fun (n : Nat) => if a ≤ b then a + n else a - n
  match wholeOf? first, wholeOf? last with
  | some a, some b => some ((between a b).map fun i => (toString i).toList)
  | _, _ =>
    match first, last with
    | [a], [b] =>
      if a.isAlpha && b.isAlpha then
        some ((between a.toNat b.toNat).map fun i => [Char.ofNat i.toNat])
      else none
    | _, _ => none

/-- What the text in braces stands for, if it is a list or a range. -/
def alternatives? (body : List Char) : Option (List (List Char)) :=
  match splitAtCommas 0 [] body with
  | [single] =>
    let first := single.takeWhile (· ≠ '.')
    match single.dropWhile (· ≠ '.') with
    | '.' :: '.' :: last => rangeOf? first last
    | _ => none
  | several => some several

/-- A text once for each alternative in its braces. -/
def bracedTexts : Nat → List Char → List (List Char)
  | 0, s => [s]
  | fuel + 1, s =>
    match s with
    | [] => [[]]
    | c :: rest =>
      let plain := (bracedTexts fuel rest).map (c :: ·)
      if c ≠ '\x7b' then plain
      else
        match upToClosing '\x7b' '\x7d' 0 .bare false rest with
        | none => plain
        | some (body, after) =>
          match alternatives? body with
          | none => plain
          | some items =>
            let behind := bracedTexts fuel after
            (items.flatMap (bracedTexts fuel)).flatMap fun item => behind.map (item ++ ·)

/-- The words that a word with alternatives in braces stands for. -/
def Word.withBraces (w : Word) : List Word :=
  w.foldr (fun p ws =>
    match p with
    | .text cs false =>
      (bracedTexts (cs.length + 1) cs).flatMap fun t =>
        ws.map fun w => if t.isEmpty && cs ≠ [] then w else Word.cons (.text t false) w
    | p => ws.map fun w => p :: w) [[]]

/-! ## 2. Names of files -/

/-- A field cut at its slashes. -/
def fieldSteps : List Mark → List (List Mark)
  | [] => [[]]
  | m :: rest =>
    match fieldSteps rest with
    | [] => [[m]]
    | step :: steps => if m.char == '/' then [] :: step :: steps else (m :: step) :: steps

/-- The names in a directory that fit a step; those with a point in front fit only what has one. One
shell counts the directory itself and the one that holds it among them. -/
def namesFitting (start : Octets) (step : List Mark) : Shell (List Octets) := do
  let names ← Shell.namesIn (← Shell.pathOf (if start.isEmpty then ['.'] else start))
  let names := match (← get).dialect with
    | .plain => ['.'] :: ['.', '.'] :: names
    | .bash => names
  return names.filter fun n =>
    Glob.accepts step n && (n.head? ≠ some '.' || step.head?.any (·.char == '.'))

/-- The paths from a start on that fit the steps of a field. -/
def pathsFrom (start : Octets) : List (List Mark) → Shell (List Octets)
  | [] => return []
  | [step] => do
    if Glob.hasSign step then return (← namesFitting start step).map (start ++ ·)
    else
      let path := start ++ step.map (·.char)
      let place ← Shell.pathOf path
      let isThere := (← Shell.fileAt? place).isSome || (← Shell.isDirectory place)
      return if isThere then [path] else []
  | step :: rest => do
    if Glob.hasSign step then
      let mut found : List Octets := []
      for n in ← namesFitting start step do
        found := found ++ (← pathsFrom (start ++ n ++ ['/']) rest)
      return found
    else pathsFrom (start ++ step.map (·.char) ++ ['/']) rest

/-- The names that fit a field, or its own text if there are none. -/
def namesFor (field : List Mark) : Shell (List Octets) := do
  let plain := [field.map (·.char)]
  if Glob.hasSign field && !(← get).options.keepsPatterns then
    let paths ← pathsFrom [] (fieldSteps field)
    return if paths.isEmpty then plain else paths
  else return plain

end Runbook.Shell
