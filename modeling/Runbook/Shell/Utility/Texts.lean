import Runbook.Pattern.Reader
import Runbook.Shell.Printing
import Runbook.Shell.Utility.Basic

/-!
# Programs that work on texts

* `endLines`, `sort`, `uniq`, `tee`: lines as wholes;
* `wc`, `seq`, `expr`: numbers;
* `cut`, `tr`, `rev`: characters;
* `basicPattern?`: patterns in their two spellings, and `grep` and `sed`, which use them.
-/

namespace Runbook.Shell.Utility

/-- A number in digits, or the given one. -/
def countOf (cs : Octets) (standard : Nat) : Nat :=
  (String.ofList cs).toNat?.getD standard

/-! ## 1. Lines -/

/-- What head and tail are asked for: a count, whether it counts bytes, whether it says where to
start, and the files. -/
structure EndRequest where
  count : Nat
  ofBytes : Bool
  fromStart : Bool
  files : List Octets

/-- A request with a count in place. -/
def EndRequest.withCount (r : EndRequest) (ofBytes : Bool) (cs : Octets) : EndRequest :=
  match cs with
  | '+' :: digits => { r with count := countOf digits 10, ofBytes := ofBytes, fromStart := true }
  | '-' :: digits => { r with count := countOf digits 10, ofBytes := ofBytes }
  | digits => { r with count := countOf digits 10, ofBytes := ofBytes }

/-- What the arguments of head and tail ask for. -/
def endRequest : List Octets → EndRequest
  | [] => ⟨10, false, false, []⟩
  | ['-', 'n'] :: n :: rest => (endRequest rest).withCount false n
  | ['-', 'c'] :: n :: rest => (endRequest rest).withCount true n
  | ('-' :: 'n' :: n) :: rest => (endRequest rest).withCount false n
  | ('-' :: 'c' :: n) :: rest => (endRequest rest).withCount true n
  | ('-' :: c :: n) :: rest => (endRequest rest).withCount false (c :: n)
  | file :: rest => { endRequest rest with files := file :: (endRequest rest).files }

/-- A text with its lines, each with the end that it has. -/
def linesWithEnds : Nat → Octets → List Octets
  | 0, _ => []
  | fuel + 1, s =>
    if s.isEmpty then []
    else
      let line := s.takeWhile (· ≠ '\n')
      let rest := s.dropWhile (· ≠ '\n')
      (line ++ rest.take 1) :: linesWithEnds fuel (rest.drop 1)

/-- The first lines or bytes of files, or the last ones. -/
def endLines (name : String) (isHead : Bool) : Program := fun args => do
  let r := endRequest args
  let describe (file : String) : String := "cannot open '" ++ file ++ "' for reading"
  withContents name describe r.files fun _ content => do
    let kept {α : Type} (items : List α) : List α :=
      if isHead then items.take r.count
      else if r.fromStart then items.drop (r.count - 1)
      else items.drop (items.length - r.count)
    if r.ofBytes then Shell.write 1 (kept content)
    else Shell.write 1 (kept (linesWithEnds (content.length + 1) content)).flatten

/-- The lines of files, or of the input. -/
def linesIn (name : String) (files : List Octets) : Shell (List Octets × Nat) := do
  let mut all : List Octets := []
  let mut status := 0
  if files.isEmpty then return (linesOf (← Shell.readAll), 0)
  for file in files do
    match ← Shell.fileAt? (← Shell.pathOf file) with
    | some content => all := all ++ linesOf content
    | none =>
      if file = ['-'] then all := all ++ linesOf (← Shell.readAll)
      else
        Shell.complain (name ++ ": " ++ String.ofList file ++ notThere)
        status := 1
  return (all, status)

/-- The options of sort that take a value: the field to start at, and what ends a field. Letters
behind the number of a field are options of their own. -/
def sortKeys : List Octets → Option Nat × Option Char × List Octets
  | [] => (none, none, [])
  | ['-', 'k'] :: n :: rest =>
    let (_, mark, files) := sortKeys rest
    (some (countOf (n.takeWhile Char.isDigit) 1), mark, ('-' :: n.filter Char.isAlpha) :: files)
  | ('-' :: 'k' :: n) :: rest =>
    let (_, mark, files) := sortKeys rest
    (some (countOf (n.takeWhile Char.isDigit) 1), mark, ('-' :: n.filter Char.isAlpha) :: files)
  | ['-', 't'] :: c :: rest =>
    let (key, _, files) := sortKeys rest
    (key, c.head?, files)
  | ('-' :: 't' :: c) :: rest =>
    let (key, _, files) := sortKeys rest
    (key, c.head?, files)
  | a :: rest =>
    let (key, mark, files) := sortKeys rest
    (key, mark, a :: files)

/-- A line from its n-th field on. -/
def fromField (mark : Option Char) : Nat → Octets → Octets
  | 0, line => line
  | n + 1, line =>
    match mark with
    | some c => fromField mark n ((line.dropWhile (· ≠ c)).drop 1)
    | none =>
      let isBlank (c : Char) : Bool := c = ' ' || c = '\t'
      fromField mark n ((line.dropWhile isBlank).dropWhile (!isBlank ·))

/-- The whole number that a line starts with. -/
def leadingNumber (s : Octets) : Int :=
  match Text.trimLeft s with
  | '-' :: rest => -((Printing.decimal rest).1 : Int)
  | rest => (Printing.decimal rest).1

/-- Writes lines in order. -/
def sort : Program := fun args => do
  let (key, mark, args) := sortKeys args
  let (options, files) := splitOptions (args.filter (· ≠ ['-']))
  let (lines, status) ← linesIn "sort" files
  let keyOf (line : Octets) : Octets := fromField mark (key.getD 1 - 1) line
  let isBefore (a b : Octets) : Bool :=
    if options.contains 'n' then leadingNumber (keyOf a) < leadingNumber (keyOf b)
    else comesBefore (keyOf a) (keyOf b)
  let isReversed := options.contains 'r'
  let notAfter (a b : Octets) : Bool :=
    if isBefore a b then !isReversed
    else if isBefore b a then isReversed
    else if options.contains 'u' then true
    else if isReversed then !comesBefore a b else !comesBefore b a
  let ordered := lines.mergeSort notAfter
  let ordered := if options.contains 'u' then
      ordered.foldr (fun line kept => match kept with
        | next :: _ =>
          if isBefore line next || isBefore next line then line :: kept else line :: kept.tail
        | [] => [line]) []
    else ordered
  for line in ordered do putLine line
  return status

/-- Runs of equal lines, with their lengths. -/
def runsOf : List Octets → List (Octets × Nat)
  | [] => []
  | line :: rest =>
    match runsOf rest with
    | (next, n) :: runs =>
      if next = line then (line, n + 1) :: runs else (line, 1) :: (next, n) :: runs
    | [] => [(line, 1)]

/-- Writes each run of equal lines once. -/
def uniq : Program := fun args => do
  let (options, files) := splitOptions args
  let (lines, status) ← linesIn "uniq" (files.take 1)
  for (line, n) in runsOf lines do
    let isWanted := if options.contains 'd' then 1 < n
      else if options.contains 'u' then n = 1 else true
    if isWanted then
      let digits := (toString n).toList
      let count := List.replicate (7 - digits.length) ' ' ++ digits ++ [' ']
      putLine (if options.contains 'c' then count ++ line else line)
  return status

/-- Passes the input on to files and to the output. -/
def tee : Program := fun args => do
  let (options, files) := splitOptions args
  let content ← Shell.readAll
  Shell.write 1 content
  forEach files fun file => do
    let path ← Shell.pathOf file
    let before := (← Shell.fileAt? path).getD []
    let kept := if options.contains 'a' then before else []
    if path = "/dev/null" then return 0
    if ← Shell.putFile path (kept ++ content) then return 0
    Shell.complain ("tee: " ++ String.ofList file ++ notThere)
    return 1

/-! ## 2. Numbers -/

/-- The words of a text, as blanks of a single byte divide them. -/
def countWords (s : Octets) : Nat :=
  let isBlank (c : Char) : Bool := c == ' ' || (9 ≤ c.toNat && c.toNat ≤ 13)
  (s.splitOnP isBlank).countP (!·.isEmpty)

/-- Counts lines, words and bytes. -/
def wc : Program := fun args => do
  let (options, files) := splitOptions args
  let countsOf (content : Octets) : List Nat :=
    ([('l', content.count '\n'), ('w', countWords content), ('c', content.length),
        ('m', (textOf content).length)].filter fun entry =>
      options.contains entry.1 || (options.isEmpty && entry.1 ≠ 'm')).map (·.2)
  let putCounts (width : Nat) (counts : List Nat) (name : Octets) : Shell Unit :=
    let text := " ".intercalate (counts.map fun n =>
      let digits := toString n
      String.ofList (List.replicate (width - digits.length) ' ') ++ digits)
    putLine (text.toList ++ if name.isEmpty then [] else ' ' :: name)
  if files.isEmpty then
    let counts := countsOf (← Shell.readAll)
    putCounts (if counts.length = 1 then 1 else 7) counts []
    return 0
  let mut status := 0
  let mut found : List (List Nat × Octets × Nat) := []
  for file in files do
    match ← Shell.fileAt? (← Shell.pathOf file) with
    | some content => found := found ++ [(countsOf content, file, content.length)]
    | none =>
      Shell.complain ("wc: " ++ String.ofList file ++ notThere)
      status := 1
  let total := found.foldl (fun n entry => n + entry.2.2) 0
  let width := if files.length = 1 && (found.head?.any (·.1.length = 1)) then 1
    else (toString total).length
  for (counts, file, _) in found do putCounts width counts file
  if 1 < files.length then
    let sums := found.foldl (fun sums entry => if sums.isEmpty then entry.1
      else List.zipWith (· + ·) sums entry.1) []
    putCounts width sums "total".toList
  return status

/-- Writes numbers in order. -/
def seq : Program := fun args => do
  let (separator, args) := match args with
    | ['-', 's'] :: s :: rest => (s, rest)
    | args => (['\n'], args)
  let numbers := args.filterMap fun a => (String.ofList a).toInt?
  let (first, step, last) := match numbers with
    | [last] => ((1 : Int), (1 : Int), last)
    | [first, last] => (first, 1, last)
    | [first, step, last] => (first, step, last)
    | _ => (1, 1, 0)
  let count := if step = 0 then 0 else ((last - first) / step + 1).toNat
  let items := (List.range count).map fun (i : Nat) => (toString (first + step * i)).toList
  unless items.isEmpty do putLine (separator.intercalate items)
  return 0

/-- The value of an expression of whole arguments: one argument, or two with an operator. -/
def exprValue (args : List Octets) : Option Octets :=
  let number? (s : Octets) : Option Int := (String.ofList s).toInt?
  let truth (b : Bool) : Octets := if b then ['1'] else ['0']
  match args with
  | [a] => some a
  | [['l', 'e', 'n', 'g', 't', 'h'], a] => some (toString a.length).toList
  | [a, o, b] =>
    match number? a, number? b with
    | some x, some y =>
      match String.ofList o with
      | "+" => some (toString (x + y)).toList
      | "-" => some (toString (x - y)).toList
      | "*" => some (toString (x * y)).toList
      | "/" => if y = 0 then none else some (toString (x.tdiv y)).toList
      | "%" => if y = 0 then none else some (toString (x.tmod y)).toList
      | "=" => some (truth (x = y))
      | "!=" => some (truth (x ≠ y))
      | "<" => some (truth (x < y))
      | ">" => some (truth (y < x))
      | "<=" => some (truth (x ≤ y))
      | ">=" => some (truth (y ≤ x))
      | _ => none
    | _, _ =>
      match String.ofList o with
      | "=" => some (truth (a = b))
      | "!=" => some (truth (a ≠ b))
      | "<" => some (truth (a < b))
      | ">" => some (truth (b < a))
      | _ => none
  | _ => none

/-- Writes the value of an expression; zero and nothing count as a failure. -/
def expr : Program := fun args => do
  match exprValue args, args with
  | some value, _ =>
    putLine value
    return if value.isEmpty || value = ['0'] then 1 else 0
  | none, [_, ['/'], _] =>
    Shell.complain "expr: division by zero\n"
    return 2
  | none, [_, ['%'], _] =>
    Shell.complain "expr: division by zero\n"
    return 2
  | none, [] =>
    Shell.complain "expr: missing operand\nTry 'expr --help' for more information.\n"
    return 2
  | none, _ =>
    Shell.complain "expr: non-integer argument\n"
    return 2

/-! ## 3. Characters -/

/-- The positions of a list such as `1,3-5,7-`. -/
def inRanges (list : Octets) (n : Nat) : Bool :=
  (list.splitOn ',').any fun part =>
    let first := part.takeWhile (· ≠ '-')
    match part.dropWhile (· ≠ '-') with
    | [] => countOf first 0 = n
    | _ :: last => countOf first 1 ≤ n && (last.isEmpty || n ≤ countOf last 0)

/-- What is asked of cut: the list of positions, whether it counts fields, what divides fields, and
whether lines without that are left out. -/
structure CutRequest where
  list : Octets
  ofFields : Bool
  mark : Char
  skipsOthers : Bool
  files : List Octets

/-- What the arguments of cut ask for. -/
def cutRequest : List Octets → CutRequest
  | [] => ⟨[], false, '\t', false, []⟩
  | ['-', 'd'] :: c :: rest => { cutRequest rest with mark := c.head?.getD '\t' }
  | ('-' :: 'd' :: c) :: rest => { cutRequest rest with mark := c.head?.getD '\t' }
  | ['-', 'f'] :: list :: rest => { cutRequest rest with list := list, ofFields := true }
  | ('-' :: 'f' :: list) :: rest => { cutRequest rest with list := list, ofFields := true }
  | ['-', 'c'] :: list :: rest => { cutRequest rest with list := list }
  | ('-' :: 'c' :: list) :: rest => { cutRequest rest with list := list }
  | ['-', 's'] :: rest => { cutRequest rest with skipsOthers := true }
  | file :: rest => { cutRequest rest with files := file :: (cutRequest rest).files }

/-- The members of a list whose positions, counted from one, are asked for. -/
def atPositions {α : Type} (list : Octets) (items : List α) : List α :=
  (items.zipIdx 1).filterMap fun (item, n) => if inRanges list n then some item else none

/-- Writes parts of lines. -/
def cut : Program := fun args => do
  let r := cutRequest args
  let (lines, status) ← linesIn "cut" r.files
  for line in lines do
    if !r.ofFields then putLine (atPositions r.list line)
    else if line.contains r.mark then
      putLine ([r.mark].intercalate (atPositions r.list (line.splitOn r.mark)))
    else if !r.skipsOthers then putLine line
  return status

/-- The characters of a set of tr: ranges, escapes and named classes. -/
def characters : Nat → Octets → Octets
  | 0, _ => []
  | fuel + 1, s =>
    let codes (first last : Nat) : Octets :=
      (List.range (last + 1 - first)).map fun n => Char.ofNat (first + n)
    match s with
    | [] => []
    | '[' :: ':' :: rest =>
      let name := String.ofList (rest.takeWhile (· ≠ ':'))
      let after := rest.drop (name.length + 2)
      let members := match name with
        | "lower" => codes 97 122
        | "upper" => codes 65 90
        | "digit" => codes 48 57
        | "alpha" => codes 65 90 ++ codes 97 122
        | "alnum" => codes 48 57 ++ codes 65 90 ++ codes 97 122
        | "space" => codes 9 13 ++ [' ']
        | "blank" => ['\t', ' ']
        | _ => []
      members ++ characters fuel after
    | '\\' :: c :: rest =>
      match Escape.escapeAt? .plain false c rest with
      | some (d, rest) => d :: characters fuel rest
      | none => c :: characters fuel rest
    | a :: '-' :: b :: rest =>
      if a ≤ b then codes a.toNat b.toNat ++ characters fuel rest else characters fuel rest
    | c :: rest => c :: characters fuel rest

/-- Every run of a character of a set as one character. -/
def squeezed (set : Octets) : Octets → Octets
  | a :: b :: rest =>
    if a = b && set.contains a then squeezed set (b :: rest) else a :: squeezed set (b :: rest)
  | s => s

/-- Puts characters in the place of others, or takes them out. -/
def tr : Program := fun args => do
  let (options, sets) := splitOptions args
  let input ← Shell.readAll
  let first := characters (((sets.head?).getD []).length + 1) ((sets.head?).getD [])
  let second := ((sets.drop 1).head?).map fun s => characters (s.length + 1) s
  let isComplement := options.contains 'c' || options.contains 'C'
  let isMember (c : Char) : Bool := first.contains c != isComplement
  let changed : Octets :=
    if options.contains 'd' then input.filter (!isMember ·)
    else match second with
      | none => input
      | some target =>
        let last := target.getLast?
        input.map fun c =>
          if !isMember c then c
          else if isComplement then last.getD c
          else (target[first.idxOf c]?.or last).getD c
  let squeezes := second.getD first
  let squeezesAll := second.isNone && isComplement
  let out := if !options.contains 's' then changed
    else if squeezesAll then squeezed (changed.filter isMember) changed
    else squeezed squeezes changed
  Shell.write 1 out
  return 0

/-- Writes lines backwards. -/
def rev : Program := fun args => do
  let (lines, status) ← linesIn "rev" (splitOptions args).2
  for line in lines do
    putLine (octetsOf (String.ofList (textOf line).reverse))
  return status

/-! ## 4. Patterns -/

/-- A pattern in its basic spelling, in which brackets and bars mean themselves, in the extended
one. -/
def extended : List Char → List Char
  | [] => []
  | '\\' :: c :: rest =>
    (if "(){}|+?".toList.contains c then [c] else ['\\', c]) ++ extended rest
  | c :: rest =>
    (if "(){}|+?".toList.contains c then ['\\', c] else [c]) ++ extended rest

/-- A text as a pattern of itself. -/
def literalPattern (s : List Char) : Pattern :=
  .sequence (s.map fun c => .char (.one c))

/-- The classes that are named in a class of characters. -/
def namedClasses : List (String × String) :=
  [("[:alpha:]", "a-zA-Z"), ("[:digit:]", "0-9"), ("[:alnum:]", "a-zA-Z0-9"), ("[:upper:]", "A-Z"),
    ("[:lower:]", "a-z"), ("[:space:]", " \\t\\n\\r\\f\\v"), ("[:blank:]", " \\t"),
    ("[:xdigit:]", "0-9a-fA-F")]

/-- A text with named classes spelled out. -/
def withoutNames (s : List Char) : List Char :=
  namedClasses.foldl (fun s entry => Text.replaceAll entry.1.toList entry.2.toList s) s

/-- The pattern of a text in one of its spellings, letters of either case taken as equal if told so.
-/
def patternOf? (isExtended isLiteral : Bool) (s : List Char) : Option Pattern :=
  if isLiteral then some (literalPattern s)
  else
    let s := withoutNames s
    Pattern.ofText? (String.ofList (if isExtended then s else extended s))

/-- The length of the longest match that starts at an index, if there is one. -/
def matchAt? (p : Pattern) (text : List Char) (start : Nat) : Option Nat :=
  let marks := (List.range (text.length + 1)).map (· == start)
  let ends := (p.image text marks).zipIdx.filterMap fun (b, i) => if b then some i else none
  ends.getLast?.map (· - start)

/-- Writes the lines in which a pattern matches. -/
def grep : Program := fun args => do
  let (options, rest) := splitOptions args
  let has (c : Char) : Bool := options.contains c
  match rest with
  | [] =>
    Shell.complain
      "Usage: grep [OPTION]... PATTERNS [FILE]...\nTry 'grep --help' for more information.\n"
    return 2
  | wanted :: files =>
    let fold (s : List Char) : List Char := if has 'i' then s.map Char.toLower else s
    match patternOf? (has 'E') (has 'F') (fold wanted) with
    | none => return 2
    | some p =>
      let isFit (line : Octets) : Bool :=
        let line := fold line
        let whole := (matchAt? p line 0) = some line.length
        (if has 'x' then whole else p.search line) != has 'v'
      let mut status := 1
      let mut broken := false
      for file in (if files.isEmpty then [[]] else files) do
        let content ← if file.isEmpty then some <$> Shell.readAll
          else Shell.fileAt? (← Shell.pathOf file)
        match content with
        | none =>
          broken := true
          unless has 's' do
            let isDirectory ← Shell.isDirectory (← Shell.pathOf file)
            Shell.complain ("grep: " ++ String.ofList file ++
              if isDirectory then ": Is a directory\n" else notThere)
        | some content =>
          let fitting := (linesOf content).zipIdx.filter fun (line, _) => isFit line
          let front := if 1 < files.length then file ++ [':'] else []
          unless fitting.isEmpty do status := 0
          if has 'q' then pure ()
          else if has 'c' then putLine (front ++ (toString fitting.length).toList)
          else if has 'l' then unless fitting.isEmpty do putLine file
          else
            for (line, n) in fitting do
              let number := if has 'n' then (toString (n + 1)).toList ++ [':'] else []
              putLine (front ++ number ++ line)
      return if broken && !(has 'q' && status = 0) then 2 else status

/-- A replacement with what matched in the place of each `&`. -/
def filled (found : List Char) : List Char → List Char
  | [] => []
  | '\\' :: 'n' :: rest => '\n' :: filled found rest
  | '\\' :: c :: rest => c :: filled found rest
  | '&' :: rest => found ++ filled found rest
  | c :: rest => c :: filled found rest

/-- A text with matches of a pattern replaced, the first one or all. -/
def substituted (p : Pattern) (text : List Char) (replacement : List Char) (all : Bool) :
    Nat → Nat → List Char
  | 0, start => text.drop start
  | fuel + 1, start =>
    if text.length < start then []
    else
      match matchAt? p text start with
      | some n =>
        let found := (text.drop start).take n
        let behind (next : Nat) : List Char :=
          if all then substituted p text replacement all fuel next else text.drop next
        if n = 0 then
          filled found replacement ++ (text.drop start).take 1 ++ behind (start + 1)
        else filled found replacement ++ behind (start + n)
      | none => (text.drop start).take 1 ++ substituted p text replacement all fuel (start + 1)

/-- A text up to the next mark that no backslash stands in front of, and what follows the mark. -/
def upToMark (mark : Char) : List Char → Option (List Char × List Char)
  | [] => none
  | '\\' :: c :: rest =>
    (upToMark mark rest).map fun (a, b) => (if c = mark then c :: a else '\\' :: c :: a, b)
  | c :: rest =>
    if c = mark then some ([], rest) else (upToMark mark rest).map fun (a, b) => (c :: a, b)

/-- Which lines a command of sed is for. -/
inductive Address where
  | all
  | line (n : Nat)
  | last
  | matching (p : Pattern)

/-- The commands of sed: a replacement, taking a line out, writing it, and ending. -/
inductive Edit where
  | replace (p : Pattern) (replacement : List Char) (all writes : Bool)
  | delete
  | write
  | quit

/-- An address at the start of a text. -/
def addressOf (isExtended : Bool) (s : List Char) : Option (Address × List Char) :=
  match s with
  | '$' :: rest => some (.last, rest)
  | '/' :: rest => do
    let (wanted, rest) ← upToMark '/' rest
    let p ← patternOf? isExtended false wanted
    return (.matching p, rest)
  | c :: _ =>
    if c.isDigit then
      some (.line (countOf (s.takeWhile Char.isDigit) 0), s.dropWhile Char.isDigit)
    else some (.all, s)
  | [] => some (.all, [])

/-- A command of sed. -/
def editOf (isExtended : Bool) (s : List Char) : Option Edit :=
  match s with
  | ['d'] => some .delete
  | ['p'] => some .write
  | ['q'] => some .quit
  | 's' :: mark :: rest => do
    let (wanted, rest) ← upToMark mark rest
    let (replacement, flags) ← upToMark mark rest
    let p ← patternOf? isExtended false wanted
    return .replace p replacement (flags.contains 'g') (flags.contains 'p')
  | _ => none

/-- An address and a command of sed. -/
def instructionOf (isExtended : Bool) (s : List Char) : Option (Address × Edit) := do
  let (address, rest) ← addressOf isExtended (Text.trim s)
  let edit ← editOf isExtended (Text.trim rest)
  return (address, edit)

/-- What sed makes of a line: the lines it writes, the line itself if it is still there, and whether
it ends. -/
def edited (edit : Edit) (line : Octets) : List Octets × Option Octets × Bool :=
  match edit with
  | .delete => ([], none, false)
  | .write => ([line], some line, false)
  | .quit => ([], some line, true)
  | .replace p replacement all writes =>
    let changed := substituted p line replacement all (line.length + 2) 0
    (if writes && p.search line then [changed] else [], some changed, false)

/-- Whether a command is for a line. -/
def Address.isFor (a : Address) (n : Nat) (isLast : Bool) (line : Octets) : Bool :=
  match a with
  | .all => true
  | .line m => m = n
  | .last => isLast
  | .matching p => p.search line

/-- Edits lines. -/
def sed : Program := fun args => do
  let (options, rest) := splitOptions args
  let isExtended := options.contains 'E' || options.contains 'r'
  match rest with
  | [] => return 1
  | script :: files =>
    match (script.splitOn ';').mapM (instructionOf isExtended) with
    | none =>
      Shell.complain "sed: -e expression #1, char 1: unknown command\n"
      return 1
    | some instructions =>
      let (lines, status) ← linesIn "sed: can't read" files
      for (line, i) in lines.zipIdx 1 do
        let mut current := some line
        let mut ends := false
        for (address, edit) in instructions do
          if let some text := current then
            if address.isFor i (i = lines.length) text then
              let (written, kept, stops) := edited edit text
              for w in written do putLine w
              current := kept
              ends := ends || stops
        if let some text := current then
          unless options.contains 'n' do putLine text
        if ends then return status
      return if status = 0 then 0 else 2

end Runbook.Shell.Utility
