import Runbook.Yaml.Scalar

/-!
# The graph of a document

A document as its nodes with numbers, so that an alias is the number of the node that its anchor
names. Numbers are given in the order in which nodes start:

* `Content`, `Vertex`: a node with its tag;
* `Graph.ofNode`: the graph of a tree of nodes, the root being number 0;
* `Graph.flatten`: the entries of a mapping with those that it merges in front of them.

An anchor is known inside its own node, so that a node may hold itself.
-/

namespace Runbook.Yaml

/-- What a node is made of. -/
inductive Content where
  | scalar (codes : List Nat)
  | sequence (items : List Nat)
  | mapping (entries : List (Nat × Nat))
deriving Repr

/-- A node with its tag. -/
structure Vertex where
  tag : String
  content : Content
deriving Repr

/-- The nodes of a document by their numbers. -/
abbrev Graph := Array Vertex

/-! ## 1. From trees -/

/-- A graph under way, with the numbers of the nodes that anchors name. -/
structure Draft where
  graph : Graph
  anchors : Assoc String Nat

namespace Draft

/-- A further node and its number. -/
def add (d : Draft) (v : Vertex) : Nat × Draft :=
  (d.graph.size, { d with graph := d.graph.push v })

/-- A node whose parts have become known. -/
def complete (d : Draft) (n : Nat) (v : Vertex) : Draft :=
  { d with graph := d.graph.setIfInBounds n v }

mutual

/-- Adds a tree, and gives the number of its root. -/
def node (d : Draft) : Node → Except Problem (Nat × Draft)
  | .scalar tag isPlain codes =>
    .ok (d.add ⟨scalarTag tag isPlain (Text.charsOf codes), .scalar codes⟩)
  | .sequence tag items =>
    let tag := collectionTag "seq" tag
    let (n, d) := d.add ⟨tag, .sequence []⟩
    (nodes d items).map fun (ns, d) => (n, d.complete n ⟨tag, .sequence ns⟩)
  | .mapping tag entries =>
    let tag := collectionTag "map" tag
    let (n, d) := d.add ⟨tag, .mapping []⟩
    (entryNodes d entries).map fun (ns, d) => (n, d.complete n ⟨tag, .mapping ns⟩)
  | .anchored name n =>
    if d.anchors.contains name then .error .repeatedAnchor
    else node { d with anchors := d.anchors.put name d.graph.size } n
  | .alias name =>
    match d.anchors.get? name with
    | some n => .ok (n, d)
    | none => .error .undefinedAlias

/-- Adds trees from left to right. -/
def nodes (d : Draft) : List Node → Except Problem (List Nat × Draft)
  | [] => .ok ([], d)
  | n :: rest =>
    (node d n).bind fun (n, d) => (nodes d rest).map fun (ns, d) => (n :: ns, d)

/-- Adds the keys and values of entries from left to right. -/
def entryNodes (d : Draft) : List (Node × Node) → Except Problem (List (Nat × Nat) × Draft)
  | [] => .ok ([], d)
  | (k, v) :: rest =>
    (node d k).bind fun (k, d) =>
      (node d v).bind fun (v, d) =>
        (entryNodes d rest).map fun (ns, d) => ((k, v) :: ns, d)

end

end Draft

namespace Graph

/-- The graph of a tree, whose root has the number 0. -/
def ofNode (n : Node) : Except Problem Graph :=
  (Draft.node ⟨#[], []⟩ n).map fun (_, d) => d.graph

/-! ## 2. Reading and changing -/

/-- The tag of a node. -/
def tag (g : Graph) (n : Nat) : String :=
  ((g[n]?).map (·.tag)).getD ""

/-- What a node is made of. -/
def content (g : Graph) (n : Nat) : Content :=
  ((g[n]?).map (·.content)).getD (.scalar [])

/-- The entries of a mapping. -/
def entries (g : Graph) (n : Nat) : List (Nat × Nat) :=
  match g.content n with
  | .mapping entries => entries
  | .sequence _ => []
  | .scalar _ => []

/-- The graph with other entries for a mapping. -/
def withEntries (g : Graph) (n : Nat) (entries : List (Nat × Nat)) : Graph :=
  g.modify n fun v => { v with content := .mapping entries }

/-- The graph with another tag for a node. -/
def withTag (g : Graph) (n : Nat) (tag : String) : Graph :=
  g.modify n fun v => { v with tag := tag }

/-- The number of all entries. -/
def entryCount (g : Graph) : Nat :=
  g.foldl (fun sum v => match v.content with
    | .mapping entries => sum + entries.length
    | .sequence _ => sum
    | .scalar _ => sum) 0

/-! ## 3. Merging -/

/-- The value of the first entry whose key says that it is merged, and the entries without it. -/
def firstMerge? (g : Graph) : List (Nat × Nat) → Option (Nat × List (Nat × Nat))
  | [] => none
  | (k, v) :: rest =>
    if g.tag k = coreTag "merge" then some (v, rest)
    else (firstMerge? g rest).map fun (m, others) => (m, (k, v) :: others)

/-- The graph in which the keys of entries that are a single equals sign are texts. -/
def withTextKeys (g : Graph) (entries : List (Nat × Nat)) : Graph :=
  entries.foldl (fun g (k, _) =>
    if g.tag k = coreTag "value" then g.withTag k (coreTag "str") else g) g

/-- Puts the entries that a mapping merges in front of its own, `merged` being those found so far.
An entry that merges holds a mapping, or a sequence of mappings of which the last comes first; those
are flattened themselves. Every call takes such an entry out of the graph, so that there are no more
calls one inside the other than entries. -/
def flatten (n : Nat) : (fuel : Nat) → (merged : List (Nat × Nat)) → Graph → Except Problem Graph
  | 0, _, g => .ok g
  | fuel + 1, merged, g =>
    match g.firstMerge? (g.entries n) with
    | none =>
      let g := g.withTextKeys (g.entries n)
      .ok (if merged.isEmpty then g else g.withEntries n (merged ++ g.entries n))
    | some (v, others) =>
      let g := g.withEntries n others
      match g.content v with
      | .mapping _ =>
        (flatten v fuel [] g).bind fun g => flatten n fuel (merged ++ g.entries v) g
      | .sequence items =>
        let add (state : List (List (Nat × Nat)) × Graph) (m : Nat) :
            Except Problem (List (List (Nat × Nat)) × Graph) :=
          match state.2.content m with
          | .mapping _ =>
            (flatten m fuel [] state.2).map fun g => (g.entries m :: state.1, g)
          | .sequence _ => .error .notMergeable
          | .scalar _ => .error .notMergeable
        (items.foldlM add ([], g)).bind fun (found, g) =>
          flatten n fuel (merged ++ found.flatten) g
      | .scalar _ => .error .notMergeable

end Graph

end Runbook.Yaml
