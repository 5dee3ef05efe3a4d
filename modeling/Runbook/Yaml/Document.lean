import Runbook.Document
import Runbook.Yaml.Graph

/-!
# The value of a document in YAML

Scalars become values when they are met. Collections are only begun then, and filled in the order
in which they were begun, which settles what is wrong first:

* `Graph.scalarText`: the text of a node under a tag for scalars;
* `Making`: the cells made so far, and the collections that were begun;
* `Making.meet`: a node met as a part;
* `Making.fill`: a collection with its parts;
* `read`: the document of a text.
-/

namespace Runbook.Yaml

/-- Whether a character may stand in a document. -/
def isPrintable (c : Char) : Bool :=
  let n := c.toNat
  n == 9 || n == 10 || n == 13 || (0x20 ≤ n && n ≤ 0x7E) || n == 0x85 ||
    (0xA0 ≤ n && n ≤ 0xD7FF) || (0xE000 ≤ n && n ≤ 0xFFFD) || 0x10000 ≤ n

/-! ## 1. Texts of scalars -/

namespace Graph

/-- The code points of a node under a tag for scalars: those of a scalar, or those of the value
under a single equals sign in a mapping. No more values than there are nodes can be one under the
other without an end. -/
def scalarText (g : Graph) : (fuel : Nat) → Nat → Except Problem (List Nat)
  | 0, _ => .error .endlessText
  | fuel + 1, n =>
    match g.content n with
    | .scalar codes => .ok codes
    | .sequence _ => .error .wrongKind
    | .mapping entries =>
      match entries.find? fun entry => g.tag entry.1 = coreTag "value" with
      | some (_, v) => scalarText g fuel v
      | none => .error .wrongKind

/-- Whether a node is a scalar. -/
def isScalar (g : Graph) (n : Nat) : Bool :=
  match g.content n with
  | .scalar _ => true
  | .sequence _ => false
  | .mapping _ => false

/-- The value of a node under a tag for scalars, `none` under any other tag. A moment is given by a
scalar only. -/
def scalarValue (g : Graph) (n : Nat) : Except Problem (Option Scalar) :=
  if scalarTags.contains (g.tag n) then
    (g.scalarText (g.size + 1) n).bind fun codes =>
      if g.tag n = coreTag "timestamp" && !g.isScalar n then .error .momentNotText
      else
        match scalarOf? (g.tag n) codes with
        | some r => r.map some
        | none => .ok none
  else .ok none

end Graph

/-! ## 2. Collections -/

/-- What a collection becomes under its tag. -/
inductive Shape where
  | items
  | entries
  | pairs
  | members
deriving DecidableEq, Repr

/-- The shape that a tag for collections asks for. -/
def shapeOf? (tag : String) : Option Shape :=
  if tag = coreTag "seq" then some .items
  else if tag = coreTag "map" then some .entries
  else if tag = coreTag "omap" || tag = coreTag "pairs" then some .pairs
  else if tag = coreTag "set" then some .members
  else none

/-- A collection of a shape that holds nothing yet. -/
def Shape.emptyCell : Shape → Cell
  | .items => .list []
  | .entries => .map []
  | .pairs => .pairs []
  | .members => .set []

/-- The cells made so far by the numbers of their nodes, and the collections in the order in which
they were begun. -/
structure Making where
  graph : Graph
  cells : Array (Option Cell)
  begun : Array (Nat × Shape)

namespace Making

/-- The state with a cell for a node. -/
def put (m : Making) (n : Nat) (c : Cell) : Making :=
  { m with cells := m.cells.setIfInBounds n (some c) }

/-- Meets a node as a part: makes a scalar, or begins a collection. What was met before stays. -/
def meet (m : Making) (n : Nat) : Except Problem Making :=
  match m.cells.getD n none with
  | some _ => .ok m
  | none =>
    (m.graph.scalarValue n).bind fun s =>
      match s, shapeOf? (m.graph.tag n) with
      | some s, _ => .ok (m.put n (.scalar s))
      | none, some shape =>
        .ok { m.put n shape.emptyCell with begun := m.begun.push (n, shape) }
      | none, none => .error .undefinedTag

/-- Meets nodes from left to right. -/
def meetAll (m : Making) : List Nat → Except Problem Making
  | [] => .ok m
  | n :: rest => (m.meet n).bind fun m => m.meetAll rest

/-- The scalar that a node was made, as a key; collections are none. -/
def keyAt (m : Making) (n : Nat) : Except Problem Scalar :=
  match m.cells.getD n none with
  | some (.scalar s) => .ok s
  | _ => .error .keyIsCollection

/-- Meets keys and values from left to right, and puts the values under their keys. -/
def meetEntries (m : Making) (fields : List (Scalar × Nat)) :
    List (Nat × Nat) → Except Problem (Making × List (Scalar × Nat))
  | [] => .ok (m, fields)
  | (k, v) :: rest =>
    (m.meet k).bind fun m =>
      (m.keyAt k).bind fun key =>
        (m.meet v).bind fun m => m.meetEntries (Value.putField key v fields) rest

/-- Meets the keys and values of mappings with one entry each. -/
def meetPairs (m : Making) : List Nat → Except Problem (Making × List (Nat × Nat))
  | [] => .ok (m, [])
  | n :: rest =>
    match m.graph.content n with
    | .mapping [(k, v)] =>
      (m.meetAll [k, v]).bind fun m =>
        (m.meetPairs rest).map fun (m, entries) => (m, (k, v) :: entries)
    | _ => .error .wrongKind

/-- The entries of a mapping under their keys, those that it merges included. -/
def fillEntries (m : Making) (n : Nat) : Except Problem (Making × List (Scalar × Nat)) :=
  match m.graph.content n with
  | .mapping _ =>
    (Graph.flatten n (m.graph.entryCount + 1) [] m.graph).bind fun g =>
      { m with graph := g }.meetEntries [] (g.entries n)
  | .sequence _ => .error .wrongKind
  | .scalar _ => .error .wrongKind

/-- Fills a collection of a shape with its parts. -/
def fill (m : Making) (n : Nat) : Shape → Except Problem Making
  | .items =>
    match m.graph.content n with
    | .sequence items => (m.meetAll items).map fun m => m.put n (.list items)
    | .mapping _ => .error .wrongKind
    | .scalar _ => .error .wrongKind
  | .entries => (m.fillEntries n).map fun (m, fields) => m.put n (.map fields)
  | .members => (m.fillEntries n).map fun (m, fields) => m.put n (.set (fields.map (·.1)))
  | .pairs =>
    match m.graph.content n with
    | .sequence items => (m.meetPairs items).map fun (m, entries) => m.put n (.pairs entries)
    | .mapping _ => .error .wrongKind
    | .scalar _ => .error .wrongKind

/-- Fills the collections that were begun from a position on. No node is begun twice. -/
def fillFrom : (fuel : Nat) → (position : Nat) → Making → Except Problem Making
  | 0, _, m => .ok m
  | fuel + 1, position, m =>
    match m.begun[position]? with
    | none => .ok m
    | some (n, shape) => (m.fill n shape).bind fun m => fillFrom fuel (position + 1) m

/-- The document of a graph. -/
def document (g : Graph) : Except Problem Document :=
  let m : Making := ⟨g, Array.replicate g.size none, #[]⟩
  (m.meet 0).bind fun m =>
    (fillFrom (g.size + 1) 0 m).map fun m =>
      ⟨m.cells.map fun c => c.getD (.scalar .null), 0⟩

end Making

/-- The only document of a text; without a document it is null. -/
def read (text : List Char) : Except Problem Document :=
  if text.all isPrintable then
    let (tokens, problem) := Token.ofText text
    (Node.ofTokens? tokens problem).bind fun n =>
      match n with
      | none => .ok ⟨#[.scalar .null], 0⟩
      | some n => (Graph.ofNode n).bind Making.document
  else .error .unprintableCharacter

end Runbook.Yaml
