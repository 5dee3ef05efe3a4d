import Runbook.Value.Display

/-!
# Documents whose parts may hold each other

Where parts of a document have names, a collection may come up in several places, even inside
itself. Such a document is no tree:

* `Cell`: a value whose parts are named by their numbers;
* `Document`: all its cells, and the number of the whole;
* `Document.value`: a part as a tree, down to a given depth;
* `Document.shown`, `Document.display`: how a part is shown; where it comes up inside itself, dots
  stand for it;
* `Document.isEndless`: whether a part comes up inside itself anywhere.
-/

namespace Runbook

/-- A value whose parts are named by their numbers. Pairs are a list of a key and a value each. -/
inductive Cell where
  | scalar (s : Scalar)
  | list (items : List Nat)
  | pairs (entries : List (Nat × Nat))
  | set (members : List Scalar)
  | map (fields : List (Scalar × Nat))
deriving DecidableEq, Repr

/-- The numbers of the parts. -/
def Cell.parts : Cell → List Nat
  | .scalar _ => []
  | .list items => items
  | .pairs entries => entries.flatMap fun entry => [entry.1, entry.2]
  | .set _ => []
  | .map fields => fields.map (·.2)

/-- A document: its cells by their numbers, and the number of the whole. -/
structure Document where
  cells : Array Cell
  root : Nat
deriving DecidableEq, Repr

namespace Document

/-- The cell with a number. -/
def cell (d : Document) (n : Nat) : Cell :=
  d.cells.getD n (.scalar .null)

/-! ## 1. Trees -/

/-- A part as a tree. Collections that many levels below it are left empty. -/
def value (d : Document) : (depth : Nat) → Nat → Value
  | 0, n =>
    match d.cell n with
    | .scalar s => .scalar s
    | .list _ => .list []
    | .pairs _ => .list []
    | .set members => .set members
    | .map _ => .map []
  | depth + 1, n =>
    match d.cell n with
    | .scalar s => .scalar s
    | .list items => .list (items.map (value d depth))
    | .pairs entries => .list (entries.map fun (k, v) => .list [value d depth k, value d depth v])
    | .set members => .set members
    | .map fields => .map (fields.map fun (k, v) => (k, value d depth v))

/-- One pass over the cells from the last to the first: those that all end, given the ones known to
end so far. -/
def endingOnce (d : Document) (ends : Array Bool) : Array Bool :=
  (List.range d.cells.size).foldr
    (fun n ends => ends.setIfInBounds n ((d.cell n).parts.all fun m => ends.getD m true)) ends

/-- The cells that are found to end in so many passes, or until a pass finds no further one. -/
def ending (d : Document) : Nat → Array Bool → Array Bool
  | 0, ends => ends
  | passes + 1, ends =>
    let next := d.endingOnce ends
    if next == ends then ends else ending d passes next

/-- Whether some part comes up inside itself. Every pass but the last finds a further cell that
ends. -/
def isEndless (d : Document) : Bool :=
  !(d.ending (d.cells.size + 1) (Array.replicate d.cells.size false)).all id

/-- The whole document as a tree, if it is one. -/
def tree? (d : Document) : Option Value :=
  if d.isEndless then none else some (d.value d.cells.size d.root)

/-! ## 2. Wording -/

/-- A part as it is shown inside the parts `above`. Of parts that hold each other no more than all
can be above each other. -/
def shownInside (d : Document) : (fuel : Nat) → (above : List Nat) → Nat → String
  | 0, _, _ => ""
  | fuel + 1, above, n =>
    let part := shownInside d fuel (n :: above)
    match d.cell n with
    | .scalar s => s.shown
    | .list items =>
      if above.contains n then "[...]" else "[" ++ Text.joinWith ", " (items.map part) ++ "]"
    | .pairs entries =>
      if above.contains n then "[...]"
      else
        "[" ++ Text.joinWith ", " (entries.map fun (k, v) => "(" ++ part k ++ ", " ++ part v ++ ")")
          ++ "]"
    | .set members => shownSet members
    | .map fields =>
      if above.contains n then "\x7b...\x7d"
      else
        "\x7b" ++ Text.joinWith ", " (fields.map fun (k, v) => k.shown ++ ": " ++ part v) ++ "\x7d"

/-- A part as it is shown inside other values. -/
def shown (d : Document) (n : Nat) : String :=
  d.shownInside (d.cells.size + 1) [] n

/-- A part on its own. -/
def display (d : Document) (n : Nat) : String :=
  match d.cell n with
  | .scalar s => (Value.scalar s).display
  | _ => d.shown n

end Document

end Runbook
