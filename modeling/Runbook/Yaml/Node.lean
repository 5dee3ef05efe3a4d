import Runbook.Assoc
import Runbook.Yaml.Token.Lexer

/-!
# The tree of a document

* `Node`: scalars, sequences and mappings with their tags, anchors and aliases as written;
* `NodeReader`: nodes from tokens;
* `nesting`, `aliasesDefined`: what tokens show before their structure is known;
* `Node.ofTokens?`: the tree of a document, of which there is at most one.
-/

namespace Runbook.Yaml

/-- A part of the tree of a document. A tag is absent if the text has none. -/
inductive Node where
  | scalar (tag : Option String) (isPlain : Bool) (codes : List Nat)
  | sequence (tag : Option String) (items : List Node)
  | mapping (tag : Option String) (entries : List (Node × Node))
  | anchored (name : String) (node : Node)
  | alias (name : String)
deriving Repr

/-- The node of a place where nothing is written. -/
def Node.empty : Node := .scalar none true []

/-! ## 1. Tags -/

/-- What the tags that a document needs not declare start with. -/
def coreTag (name : String) : String :=
  "tag:yaml.org,2002:" ++ name

/-- What handles stand for. -/
abbrev Handles := Assoc String String

/-- The handles that a document needs not declare. -/
def standardHandles : Handles :=
  [("!", "!"), ("!!", coreTag "")]

/-- The whole tag that is written so. -/
def fullTag (handles : Handles) (t : TagText) : Except Problem String :=
  match t.handle with
  | none => .ok t.suffix
  | some handle =>
    match handles.get? handle with
    | some value => .ok (value ++ t.suffix)
    | none => .error .undefinedHandle

/-! ## 2. Nodes from tokens -/

/-- What stands in front of a node: its anchor and its tag. -/
structure Properties where
  anchor : Option String
  tag : Option String

/-- The anchor and the tag in front of a node, in either order. -/
def readProperties (handles : Handles) (ts : List Token) :
    Except Problem (Properties × List Token) := do
  match ts with
  | .anchor name :: .tag t :: rest => return (⟨some name, some (← fullTag handles t)⟩, rest)
  | .tag t :: .anchor name :: rest => return (⟨some name, some (← fullTag handles t)⟩, rest)
  | .anchor name :: rest => return (⟨some name, none⟩, rest)
  | .tag t :: rest => return (⟨none, some (← fullTag handles t)⟩, rest)
  | _ => return (⟨none, none⟩, ts)

/-- The node with its anchor. -/
def Properties.attach (p : Properties) (node : Node) : Node :=
  match p.anchor with
  | some name => .anchored name node
  | none => node

/-- Where a node stands: between brackets, in a block, or as a part of a mapping in a block, where a
sequence needs no indentation. -/
inductive Setting where
  | flow
  | block
  | entry
deriving DecidableEq, Repr

/-- Whether a token at the end of an entry of a block mapping shows that nothing is written there.
-/
def endsEntry : List Token → Bool
  | .key :: _ => true
  | .value :: _ => true
  | .blockEnd :: _ => true
  | _ => false

/-- Whether an item of a block sequence is empty. -/
def endsItem : List Token → Bool
  | .blockEntry :: _ => true
  | .blockEnd :: _ => true
  | _ => false

/-- Whether a key or a value between brackets is empty; `close` is the closing bracket. -/
def endsFlow (close : Token) : List Token → Bool
  | [] => false
  | t :: _ => t == .flowEntry || t == close

namespace NodeReader

/-- What is wrong where no token that could stand there does. -/
def outOfPlace (ts : List Token) : Problem :=
  if ts.isEmpty then .endOfTokens else .unexpectedToken

mutual

/-- A node. Every call spends one unit of `fuel`. -/
def node (handles : Handles) (setting : Setting) :
    Nat → List Token → Except Problem (Node × List Token)
  | 0, _ => .error .unexpectedToken
  | fuel + 1, ts =>
    match ts with
    | .alias name :: rest => .ok (.alias name, rest)
    | _ => do
      let (p, rest) ← readProperties handles ts
      match rest, setting with
      | .blockEntry :: _, .entry =>
        let (items, rest) ← looseItems handles fuel rest
        return (p.attach (.sequence p.tag items), rest)
      | .scalar codes isPlain :: rest, _ =>
        return (p.attach (.scalar p.tag isPlain codes), rest)
      | .flowSequenceStart :: rest, _ =>
        let (items, rest) ← flowItems handles true fuel rest
        return (p.attach (.sequence p.tag items), rest)
      | .flowMappingStart :: rest, _ =>
        let (entries, rest) ← flowEntries handles true fuel rest
        return (p.attach (.mapping p.tag entries), rest)
      | .blockSequenceStart :: rest, .block =>
        let (items, rest) ← blockItems handles fuel rest
        return (p.attach (.sequence p.tag items), rest)
      | .blockSequenceStart :: rest, .entry =>
        let (items, rest) ← blockItems handles fuel rest
        return (p.attach (.sequence p.tag items), rest)
      | .blockMappingStart :: rest, .block =>
        let (entries, rest) ← blockEntries handles fuel rest
        return (p.attach (.mapping p.tag entries), rest)
      | .blockMappingStart :: rest, .entry =>
        let (entries, rest) ← blockEntries handles fuel rest
        return (p.attach (.mapping p.tag entries), rest)
      | rest, _ =>
        if p.anchor.isSome || p.tag.isSome then return (p.attach (.scalar p.tag true []), rest)
        else throw (outOfPlace rest)

/-- The items of a block sequence up to its end. -/
def blockItems (handles : Handles) : Nat → List Token → Except Problem (List Node × List Token)
  | 0, _ => .error .unexpectedToken
  | fuel + 1, ts =>
    match ts with
    | .blockEntry :: rest => do
      let (item, rest) ←
        if endsItem rest then .ok (Node.empty, rest) else node handles .block fuel rest
      let (items, rest) ← blockItems handles fuel rest
      return (item :: items, rest)
    | .blockEnd :: rest => .ok ([], rest)
    | ts => .error (outOfPlace ts)

/-- The items of a sequence that has no indentation of its own. -/
def looseItems (handles : Handles) : Nat → List Token → Except Problem (List Node × List Token)
  | 0, _ => .error .unexpectedToken
  | fuel + 1, ts =>
    match ts with
    | .blockEntry :: rest => do
      let (item, rest) ←
        if endsItem rest || endsEntry rest then .ok (Node.empty, rest)
        else node handles .block fuel rest
      let (items, rest) ← looseItems handles fuel rest
      return (item :: items, rest)
    | _ => .ok ([], ts)

/-- The entries of a block mapping up to its end. -/
def blockEntries (handles : Handles) :
    Nat → List Token → Except Problem (List (Node × Node) × List Token)
  | 0, _ => .error .unexpectedToken
  | fuel + 1, ts =>
    match ts with
    | .key :: rest => do
      let (k, rest) ←
        if endsEntry rest then .ok (Node.empty, rest) else node handles .entry fuel rest
      let (v, rest) ← blockValue handles fuel rest
      let (entries, rest) ← blockEntries handles fuel rest
      return ((k, v) :: entries, rest)
    | .blockEnd :: rest => .ok ([], rest)
    | ts => .error (outOfPlace ts)

/-- The value of an entry of a block mapping, which may be left out with its colon. -/
def blockValue (handles : Handles) : Nat → List Token → Except Problem (Node × List Token)
  | 0, _ => .error .unexpectedToken
  | fuel + 1, ts =>
    match ts with
    | .value :: rest =>
      if endsEntry rest then .ok (Node.empty, rest) else node handles .entry fuel rest
    | _ => .ok (Node.empty, ts)

/-- The items of a flow sequence up to its closing bracket. A pair is a mapping of one entry. -/
def flowItems (handles : Handles) (isFirst : Bool) :
    Nat → List Token → Except Problem (List Node × List Token)
  | 0, _ => .error .unexpectedToken
  | fuel + 1, ts =>
    match ts, isFirst with
    | .flowSequenceEnd :: rest, _ => .ok ([], rest)
    | .flowEntry :: .flowSequenceEnd :: rest, false => .ok ([], rest)
    | .flowEntry :: rest, false => flowItem handles fuel rest
    | ts, true => flowItem handles fuel ts
    | ts, _ => .error (outOfPlace ts)

/-- An item of a flow sequence and those behind it. -/
def flowItem (handles : Handles) : Nat → List Token → Except Problem (List Node × List Token)
  | 0, _ => .error .unexpectedToken
  | fuel + 1, ts =>
    match ts with
    | .key :: rest => do
      let (k, rest) ←
        if endsFlow .flowSequenceEnd rest || rest.head? == some .value then .ok (Node.empty, rest)
        else node handles .flow fuel rest
      let (v, rest) ← flowValue handles .flowSequenceEnd fuel rest
      let (items, rest) ← flowItems handles false fuel rest
      return (.mapping none [(k, v)] :: items, rest)
    | _ => do
      let (item, rest) ← node handles .flow fuel ts
      let (items, rest) ← flowItems handles false fuel rest
      return (item :: items, rest)

/-- The value of a pair between brackets, which may be left out with its colon. -/
def flowValue (handles : Handles) (close : Token) :
    Nat → List Token → Except Problem (Node × List Token)
  | 0, _ => .error .unexpectedToken
  | fuel + 1, ts =>
    match ts with
    | .value :: rest =>
      if endsFlow close rest then .ok (Node.empty, rest) else node handles .flow fuel rest
    | _ => .ok (Node.empty, ts)

/-- The entries of a flow mapping up to its closing bracket. -/
def flowEntries (handles : Handles) (isFirst : Bool) :
    Nat → List Token → Except Problem (List (Node × Node) × List Token)
  | 0, _ => .error .unexpectedToken
  | fuel + 1, ts =>
    match ts, isFirst with
    | .flowMappingEnd :: rest, _ => .ok ([], rest)
    | .flowEntry :: .flowMappingEnd :: rest, false => .ok ([], rest)
    | .flowEntry :: rest, false => flowPair handles fuel rest
    | ts, true => flowPair handles fuel ts
    | ts, _ => .error (outOfPlace ts)

/-- An entry of a flow mapping and those behind it. A node on its own is a key without a value. -/
def flowPair (handles : Handles) :
    Nat → List Token → Except Problem (List (Node × Node) × List Token)
  | 0, _ => .error .unexpectedToken
  | fuel + 1, ts =>
    match ts with
    | .key :: rest => do
      let (k, rest) ←
        if endsFlow .flowMappingEnd rest || rest.head? == some .value then .ok (Node.empty, rest)
        else node handles .flow fuel rest
      let (v, rest) ← flowValue handles .flowMappingEnd fuel rest
      let (entries, rest) ← flowEntries handles false fuel rest
      return ((k, v) :: entries, rest)
    | _ => do
      let (k, rest) ← node handles .flow fuel ts
      let (entries, rest) ← flowEntries handles false fuel rest
      return ((k, Node.empty) :: entries, rest)

end

/-! ## 3. Documents -/

/-- What the directives in front of a document declare: whether a version was given, and handles. -/
structure Declared where
  hasVersion : Bool
  handles : Handles

/-- The directives in front of a document. -/
def directives : List Token → Declared → Except Problem (Declared × List Token)
  | .directive d :: rest, declared =>
    match d with
    | .version major _ =>
      if declared.hasVersion then .error .repeatedDirective
      else if major ≠ 1 then .error .incompatibleVersion
      else directives rest { declared with hasVersion := true }
    | .handle name value =>
      if declared.handles.contains name then .error .repeatedDirective
      else directives rest { declared with handles := declared.handles.put name value }
    | .other => directives rest declared
  | ts, declared => .ok (declared, ts)

/-- Whether a document is empty: its start is followed by the next line of its kind. -/
def isEmptyDocument : List Token → Bool
  | [] => true
  | .directive _ :: _ => true
  | .documentStart :: _ => true
  | .documentEnd :: _ => true
  | _ => false

/-- The node of a document with directives or a line that starts it. -/
def declaredDocument (fuel : Nat) (ts : List Token) :
    Except Problem (Option Node × List Token) := do
  let (declared, rest) ← directives ts ⟨false, []⟩
  match rest with
  | .documentStart :: rest =>
    if isEmptyDocument rest then return (some Node.empty, rest)
    else
      let (n, rest) ← node (standardHandles.overlay declared.handles) .block fuel rest
      return (some n, rest)
  | ts => throw (outOfPlace ts)

/-- The node of the first document, if there is one. -/
def document (fuel : Nat) (ts : List Token) : Except Problem (Option Node × List Token) := do
  match ts with
  | [] => return (none, [])
  | .directive _ :: _ => declaredDocument fuel ts
  | .documentStart :: _ => declaredDocument fuel ts
  | _ =>
    let (n, rest) ← node standardHandles .block fuel ts
    return (some n, rest)

end NodeReader

/-! ## 4. What tokens show -/

/-- How deep collections can be nested. -/
def maxNesting : Nat := 490

/-- The greatest number of collections that are open at a time, `depth` of them from the start. -/
def nesting (depth : Nat) : List Token → Nat
  | [] => depth
  | t :: rest =>
    if [.blockSequenceStart, .blockMappingStart, .flowSequenceStart, .flowMappingStart].contains t
    then nesting (depth + 1) rest
    else if [.blockEnd, .flowSequenceEnd, .flowMappingEnd].contains t then
      max depth (nesting (depth - 1) rest)
    else nesting depth rest

/-- Whether every alias has its anchor in front of it, and no anchor is there twice. -/
def aliasesDefined (known : List String) : List Token → Bool
  | [] => true
  | .anchor name :: rest => !known.contains name && aliasesDefined (name :: known) rest
  | .alias name :: rest => known.contains name && aliasesDefined known rest
  | _ :: rest => aliasesDefined known rest

/-! ## 5. The only document -/

/-- The tree of the only document, if there is one. Each node spends at most three units of fuel on
a token. `problem` is what is wrong behind the last token; what is wrong with the tokens themselves
comes before it. -/
def Node.ofTokens? (ts : List Token) (problem : Option Problem) : Except Problem (Option Node) :=
  if maxNesting < nesting 0 ts then .error .tooDeep
  else
    match NodeReader.document (3 * ts.length + 3) ts, problem with
    | .ok (n, rest), none =>
      if rest.all (· == .documentEnd) then .ok n else .error .furtherDocument
    | .ok (_, rest), some problem =>
      if !rest.all (· == .documentEnd) then .error .furtherDocument
      else if aliasesDefined [] ts then .error problem
      else .error .undefinedAlias
    | .error .endOfTokens, some problem =>
      if aliasesDefined [] ts then .error problem else .error .undefinedAlias
    | .error e, _ => .error e

end Runbook.Yaml
