import Runbook.Text.CharClass

/-!
# Patterns

Regular expressions over characters with positions as assertions, and where they match in a text:

* `CharSet`: a set of characters by its description;
* `Pattern`: the syntax;
* `Marks`: a set of positions in a text, as one truth value for each position;
* `Pattern.image`: the positions that a pattern can lead to from the positions of a set;
* `Pattern.search`, `Pattern.matchesStart`: whether a pattern matches somewhere, or at the start.

Only whether a pattern matches is asked here; so a set of positions at a time is enough, and the
order of alternatives does not matter. What a group took matters only where a pattern asks for the
same text again: then every text that the group could take is tried.
-/

namespace Runbook

/-! ## 1. Syntax -/

/-- A set of characters. -/
inductive CharSet where
  | one (c : Char)
  | range (first last : Char)
  | digit
  | blank
  | word
  | notLineFeed
  | union (a b : CharSet)
  | complement (a : CharSet)
  | caseless (a : CharSet)
deriving DecidableEq, Repr

/-- Whether a character is in the set. -/
def CharSet.contains : CharSet → Char → Bool
  | .one c, x => x == c
  | .range first last, x => first ≤ x && x ≤ last
  | .digit, x => Text.isDecimal x
  | .blank, x => Text.isBlank x
  | .word, x => Text.isWordChar x
  | .notLineFeed, x => x != '\n'
  | .union a b, x => a.contains x || b.contains x
  | .complement a, x => !a.contains x
  | .caseless a, x => a.contains x || a.contains (Text.lowerOf x) || a.contains x.toUpper

/-- What can be asserted of a position: that the text starts there, that it ends there or before one
last line feed, that it ends exactly there, that a line starts there, that one ends there, that a
word starts or ends there, or that none does, which is never so of a text without characters. -/
inductive Anchor where
  | start
  | lineEnd
  | finish
  | everyLineStart
  | everyLineEnd
  | wordEdge
  | noWordEdge
deriving DecidableEq, Repr

/-- A pattern. `repeated p least most` is `p` at least `least` times, and at most `most` times if
there is such a bound; `ahead` and `behind` assert that `p` matches from a position on or, with its
width, up to one, and the negated ones that it does not; `again n` is the text of group `n`. -/
inductive Pattern where
  | empty
  | char (set : CharSet)
  | anchor (a : Anchor)
  | seq (p q : Pattern)
  | alt (p q : Pattern)
  | repeated (p : Pattern) (least : Nat) (most : Option Nat)
  | ahead (isNegated : Bool) (p : Pattern)
  | behind (isNegated : Bool) (width : Nat) (p : Pattern)
  | group (n : Nat) (p : Pattern)
  | again (n : Nat)
deriving DecidableEq, Repr

/-! ## 2. Sets of positions -/

/-- A set of positions of a text: position `i` stands before the character at index `i`, and the
last position behind all characters. -/
abbrev Marks := List Bool

namespace Marks

/-- The positions of either set. -/
def union (a b : Marks) : Marks := List.zipWith (· || ·) a b

/-- The positions of both sets. -/
def inter (a b : Marks) : Marks := List.zipWith (· && ·) a b

/-- Whether there is any position. -/
def any (a : Marks) : Bool := a.contains true

/-- The positions behind one character of the set. -/
def step (set : CharSet) (text : List Char) (a : Marks) : Marks :=
  false :: List.zipWith (fun marked c => marked && set.contains c) a text

/-- The positions from which a text stands. -/
def standing (wanted : List Char) : List Char → Marks
  | [] => [wanted.isEmpty]
  | c :: rest => wanted.isPrefixOf (c :: rest) :: standing wanted rest

/-- The positions behind a text of a length that starts at a position of the set. -/
def shift (length : Nat) (a : Marks) : Marks :=
  List.replicate (min length a.length) false ++ a.take (a.length - length)

/-- Each position alone, with whether it is in the set. -/
def singles (a : Marks) : List (Bool × Marks) :=
  a.zipIdx.map fun (marked, i) => (marked, (List.range a.length).map (· == i))

/-- Repeats a step as often as told; it stops where nothing changes. -/
def times (f : Marks → Marks) : Nat → Marks → Marks
  | 0, a => a
  | n + 1, a =>
    let b := f a
    if b = a then a else times f n b

/-- The positions reached by at most so many steps; it stops where nothing is gained. -/
def within (f : Marks → Marks) : Nat → Marks → Marks
  | 0, a => a
  | n + 1, a =>
    let b := union a (f a)
    if b = a then a else within f n b

end Marks

/-- Whether the character before a position and the one behind it differ in being part of a word. -/
def isWordEdge (before after : Option Char) : Bool :=
  (before.map Text.isWordChar).getD false != (after.map Text.isWordChar).getD false

/-- The positions at which a word starts or ends, `before` standing in front of the text. -/
def wordEdges (before : Option Char) : List Char → Marks
  | [] => [isWordEdge before none]
  | c :: rest => isWordEdge before (some c) :: wordEdges (some c) rest

/-- The last position, and the one before a final line feed. -/
def lineEnds : List Char → Marks
  | [] => [true]
  | ['\n'] => [true, true]
  | _ :: rest => false :: lineEnds rest

/-- The position behind each line feed, `atStart` telling about the first one. -/
def lineStarts (atStart : Bool) : List Char → Marks
  | [] => [atStart]
  | c :: rest => atStart :: lineStarts (c == '\n') rest

/-- The last position, and the one before each line feed. -/
def everyLineEnds : List Char → Marks
  | [] => [true]
  | c :: rest => (c == '\n') :: everyLineEnds rest

/-- The positions that an anchor holds at. -/
def Anchor.marks (text : List Char) : Anchor → Marks
  | .start => true :: text.map fun _ => false
  | .lineEnd => lineEnds text
  | .finish => (text.map fun _ => false) ++ [true]
  | .everyLineStart => lineStarts true text
  | .everyLineEnd => everyLineEnds text
  | .wordEdge => wordEdges none text
  | .noWordEdge => if text.isEmpty then [false] else (wordEdges none text).map (!·)

namespace Pattern

/-! ## 3. Matching -/

/-- The texts that groups are taken to have, by their numbers. -/
abbrev Taken := List (Nat × List Char)

/-- The positions that the pattern can lead to from the given ones. As a repetition that gains no
position gains none later either, as many rounds as there are positions are enough. -/
def imageWith (taken : Taken) (text : List Char) : Pattern → Marks → Marks
  | .empty, a => a
  | .char set, a => Marks.step set text a
  | .anchor x, a => Marks.inter a (x.marks text)
  | .seq p q, a => imageWith taken text q (imageWith taken text p a)
  | .alt p q, a => Marks.union (imageWith taken text p a) (imageWith taken text q a)
  | .repeated p least most, a =>
    let rounds := match most with
      | some n => n - least
      | none => text.length + 1
    Marks.within (imageWith taken text p) rounds (Marks.times (imageWith taken text p) least a)
  | .ahead isNegated p, a =>
    (Marks.singles a).map fun (marked, here) =>
      marked && (imageWith taken text p here).any != isNegated
  | .behind isNegated width p, a =>
    a.zipIdx.map fun (marked, i) =>
      let start := (List.range a.length).map fun j => j + width == i
      marked && ((imageWith taken text p start)[i]?.getD false) != isNegated
  | .group n p, a =>
    match taken.find? fun entry => entry.1 == n with
    | none => imageWith taken text p a
    | some (_, wanted) =>
      let starts := Marks.inter a (Marks.standing wanted text)
      let fitting := (Marks.singles starts).map fun (marked, here) =>
        marked &&
          Marks.any (Marks.inter (imageWith taken text p here) (Marks.shift wanted.length here))
      Marks.shift wanted.length fitting
  | .again n, a =>
    match taken.find? fun entry => entry.1 == n with
    | none => a.map fun _ => false
    | some (_, wanted) =>
      Marks.shift wanted.length (Marks.inter a (Marks.standing wanted text))

/-- The groups whose texts a pattern asks for again. -/
def asked : Pattern → List Nat
  | .seq p q => asked p ++ asked q
  | .alt p q => asked p ++ asked q
  | .repeated p _ _ => asked p
  | .ahead _ p => asked p
  | .behind _ _ p => asked p
  | .group _ p => asked p
  | .again n => [n]
  | _ => []

/-- The texts within a text. -/
def textsWithin (text : List Char) : List (List Char) :=
  ((List.range (text.length + 1)).flatMap fun start =>
    (List.range (text.length + 1 - start)).map fun n => (text.drop start).take n).eraseDups

/-- Every way in which groups can have texts of a list. -/
def assignments (texts : List (List Char)) : List Nat → List Taken
  | [] => [[]]
  | n :: rest => (assignments texts rest).flatMap fun taken => texts.map fun t => (n, t) :: taken

/-- The positions that the pattern can lead to from the given ones, whatever its groups take. -/
def image (text : List Char) (p : Pattern) (a : Marks) : Marks :=
  match (asked p).eraseDups with
  | [] => imageWith [] text p a
  | groups =>
    (assignments (textsWithin text) groups).foldl
      (fun b taken => Marks.union b (imageWith taken text p a)) (a.map fun _ => false)

/-- Whether the pattern matches somewhere in the text. -/
def search (p : Pattern) (text : List Char) : Bool :=
  (image text p (true :: text.map fun _ => true)).any

/-- Whether the pattern matches at the start of the text. -/
def matchesStart (p : Pattern) (text : List Char) : Bool :=
  (image text p (true :: text.map fun _ => false)).any

/-- The least and the most characters that a pattern can take, if there is a most. -/
def widths : Pattern → Nat × Option Nat
  | .empty => (0, some 0)
  | .char _ => (1, some 1)
  | .anchor _ => (0, some 0)
  | .seq p q => ((widths p).1 + (widths q).1, do return (← (widths p).2) + (← (widths q).2))
  | .alt p q => (min (widths p).1 (widths q).1, do return max (← (widths p).2) (← (widths q).2))
  | .repeated p least most =>
    (least * (widths p).1, do return (← most) * (← (widths p).2))
  | .ahead _ _ => (0, some 0)
  | .behind _ _ _ => (0, some 0)
  | .group _ p => widths p
  | .again _ => (0, none)

/-- One pattern after the other. -/
def sequence : List Pattern → Pattern
  | [] => .empty
  | [p] => p
  | p :: rest => .seq p (sequence rest)

/-- The characters of a text, one after the other. -/
def literal (s : String) : Pattern :=
  sequence (s.toList.map fun c => .char (.one c))

end Pattern

end Runbook
