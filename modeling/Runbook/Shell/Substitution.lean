import Runbook.Shell.Glob
import Runbook.Shell.Word

/-!
# What is put in place of parameters

* `lengthIn`, `recased`, `replaced`, `sliced`: what is made of values;
* `quotedForTelling`: a value as it is shown;
* `inputWords`, `chunks`: the words of an input, a few at a time.
-/

namespace Runbook.Shell

/-- Whether a word has the output of a command in it. -/
def hasOutput (w : Word) : Bool :=
  w.any fun
    | .output .. => true
    | _ => false

/-- The length of a value: the plain shell counts bytes. -/
def lengthIn (dialect : Dialect) (value : Octets) : Nat :=
  match dialect with
  | .plain => value.length
  | .bash => (textOf value).length

/-- Letters in the other case. -/
def recased (toUpper all : Bool) (value : Octets) : Octets :=
  let change (c : Char) : Char := if toUpper then c.toUpper else c.toLower
  if all then value.map change else value.take 1 |>.map change |>.append (value.drop 1)

/-- A value with what fits a pattern replaced, the first time or every time. -/
def replaced (all : Bool) (pattern : List Mark) (replacement : Octets) : Nat → Octets → Octets
  | 0, s => s
  | fuel + 1, s =>
    let lengths := ((List.range (s.length + 1)).drop 1).reverse
    match lengths.find? (fun n => Glob.accepts pattern (s.take n)), s with
    | some n, _ =>
      replacement ++ if all then replaced all pattern replacement fuel (s.drop n) else s.drop n
    | none, [] => []
    | none, c :: rest => c :: replaced all pattern replacement fuel rest

/-- A part of a value from a place on; places and ends below zero count from the end. -/
def sliced (value : Octets) (start : Int) (length : Option Int) : Octets :=
  let size : Int := value.length
  let first := if start < 0 then size + start else start
  if first < 0 || size < first then []
  else
    let last := match length with
      | none => size
      | some n => if n < 0 then size + n else first + n
    (value.drop first.toNat).take (last - first).toNat

/-- A value in single quotes, if it has characters that need them. -/
def quotedForTelling (cs : Octets) : Octets :=
  let isPlain (c : Char) : Bool := c.isAlphanum || "_-./:=@%+,^".toList.contains c
  if !cs.isEmpty && cs.all isPlain then cs
  else
    '\'' :: (cs.flatMap fun c => if c = '\'' then "'\\''".toList else [c]) ++ ['\'']

/-- The words of a text between blanks and line ends. -/
def inputWords (s : Octets) : List Octets :=
  (s.splitOnP fun c => c == ' ' || c == '\t' || c == '\n').filter (!·.isEmpty)

/-- Lists of at most so many items each. -/
def chunks (size : Nat) : Nat → List Octets → List (List Octets)
  | 0, _ => []
  | fuel + 1, items =>
    if items.isEmpty then [] else items.take size :: chunks size fuel (items.drop size)

end Runbook.Shell
