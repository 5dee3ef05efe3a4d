import Runbook.Text.CharClass

/-!
# Texts as lists of characters

What the readers of this library do with text, on `List Char`:

* `trimLeft`, `trimRight`, `trim`, `skipBlanks?`: blanks at the ends;
* `dropStart?`, `dropEnd?`: what is left without a given start or end;
* `wordsOf`: the maximal runs without blanks;
* `linesOf`: the lines, at every line boundary of Unicode;
* `occursIn`, `countOf`: substrings and characters; `occursIn_iff`: a substring is an infix;
* `Piece`, `pieces`: a text cut from left to right into tokens and single characters, and
  `replaceAll` as an instance of it;
* `joinWith`: texts with a separator between them.
-/

namespace Runbook.Text

/-! ## 1. Ends -/

/-- The text without its leading blanks. -/
def trimLeft (s : List Char) : List Char :=
  s.dropWhile isBlank

/-- The text without its trailing blanks. -/
def trimRight : List Char → List Char
  | [] => []
  | c :: rest =>
    match trimRight rest with
    | [] => if isBlank c then [] else [c]
    | kept => c :: kept

/-- The text without the blanks at its ends. -/
def trim (s : List Char) : List Char :=
  trimRight (trimLeft s)

/-- `some` of what follows the given start. -/
def dropStart? : List Char → List Char → Option (List Char)
  | [], s => some s
  | _ :: _, [] => none
  | p :: ps, c :: rest => if p = c then dropStart? ps rest else none

/-- Whether the text starts so. -/
def startsWith (start s : List Char) : Bool :=
  (dropStart? start s).isSome

/-- Whether the text ends so. -/
def endsWith (ending s : List Char) : Bool :=
  startsWith ending.reverse s.reverse

@[simp] theorem dropStart?_append (p s : List Char) : dropStart? p (p ++ s) = some s := by
  induction p with
  | nil => rfl
  | cons c p ih => simp [dropStart?, ih]

theorem dropStart?_eq_some_iff {p s r : List Char} : dropStart? p s = some r ↔ s = p ++ r := by
  induction p generalizing s with
  | nil => simp [dropStart?]
  | cons c p ih =>
    cases s with
    | nil => simp [dropStart?]
    | cons d s =>
      by_cases h : c = d
      · simp [dropStart?, h, ih]
      · simp [dropStart?, h, Ne.symm h]

theorem startsWith_iff {start s : List Char} : startsWith start s = true ↔ start <+: s := by
  unfold startsWith
  rw [Option.isSome_iff_exists]
  constructor
  · rintro ⟨rest, h⟩
    exact ⟨rest, (dropStart?_eq_some_iff.mp h).symm⟩
  · rintro ⟨rest, rfl⟩
    exact ⟨rest, dropStart?_append start rest⟩

/-- `some` of what comes before the given end. -/
def dropEnd? (ending s : List Char) : Option (List Char) :=
  (dropStart? ending.reverse s.reverse).map List.reverse

theorem dropEnd?_eq_some_iff {e s r : List Char} : dropEnd? e s = some r ↔ s = r ++ e := by
  simp only [dropEnd?, Option.map_eq_some_iff, dropStart?_eq_some_iff]
  constructor
  · rintro ⟨t, h, rfl⟩
    rw [← List.reverse_reverse s, h]
    simp
  · rintro rfl
    exact ⟨r.reverse, by simp, by simp⟩

@[simp] theorem dropEnd?_append (e s : List Char) : dropEnd? e (s ++ e) = some s :=
  dropEnd?_eq_some_iff.2 rfl

/-- The text without a line feed at its very end, where many patterns do not count it. -/
def withoutLastBreak (s : List Char) : List Char :=
  (dropEnd? ['\n'] s).getD s

/-- At least one blank, and then as many as there are. -/
def skipBlanks? : List Char → Option (List Char)
  | [] => none
  | c :: rest => if isBlank c then some (rest.dropWhile isBlank) else none

/-! ## 2. Words and lines -/

/-- The words, `current` being the one under way, in reverse. -/
def wordsFrom (current : List Char) : List Char → List (List Char)
  | [] => if current.isEmpty then [] else [current.reverse]
  | c :: rest =>
    if isBlank c then
      if current.isEmpty then wordsFrom [] rest else current.reverse :: wordsFrom [] rest
    else wordsFrom (c :: current) rest

/-- The maximal runs of characters that are no blanks. -/
def wordsOf (s : List Char) : List (List Char) :=
  wordsFrom [] s

/-- The line boundaries: line feed, vertical tab, form feed, carriage return, the three upper
separators, next line, line separator and paragraph separator. -/
def isLineEnd (c : Char) : Bool :=
  let n := c.toNat
  (10 ≤ n && n ≤ 13) || (28 ≤ n && n ≤ 30) || n == 0x85 || n == 0x2028 || n == 0x2029

/-- The lines, `current` being the one under way, in reverse. -/
def linesFrom (current : List Char) : List Char → List (List Char)
  | [] => if current.isEmpty then [] else [current.reverse]
  | '\r' :: '\n' :: rest => current.reverse :: linesFrom [] rest
  | c :: rest =>
    if isLineEnd c then current.reverse :: linesFrom [] rest else linesFrom (c :: current) rest

/-- The lines of a text; a boundary at its very end starts no further line. -/
def linesOf (s : List Char) : List (List Char) :=
  linesFrom [] s

/-! ## 3. Occurrences -/

/-- Whether the pattern stands somewhere in the text. -/
def occursIn (pattern : List Char) : List Char → Bool
  | [] => pattern.isEmpty
  | c :: rest => startsWith pattern (c :: rest) || occursIn pattern rest

/-- **A text occurs in another one if and only if it is an infix of it.** -/
theorem occursIn_iff {pattern s : List Char} : occursIn pattern s = true ↔ pattern <:+: s := by
  induction s with
  | nil => rw [occursIn, List.isEmpty_iff, List.infix_nil]
  | cons c rest ih => rw [occursIn, Bool.or_eq_true, startsWith_iff, ih, List.infix_cons_iff]

theorem occursIn_singleton_iff {c : Char} {s : List Char} : occursIn [c] s = true ↔ c ∈ s := by
  rw [occursIn_iff]
  constructor
  · rintro ⟨front, back, rfl⟩
    simp
  · intro h
    obtain ⟨front, back, rfl⟩ := List.append_of_mem h
    exact ⟨front, back, by simp⟩

/-- How often a character stands in the text. -/
def countOf (c : Char) (s : List Char) : Nat :=
  s.count c

/-! ## 4. Pieces -/

/-- A part of a text that was cut from left to right: one character, or a token with the text it
was written as. -/
inductive Piece (α : Type) where
  | plain (c : Char)
  | token (value : α) (text : List Char)
deriving Repr

/-- The text that a piece was cut from. -/
def Piece.source {α : Type} : Piece α → List Char
  | .plain c => [c]
  | .token _ text => text

/-- Cuts a text into pieces. `read c rest` reads a token that starts with `c`, and answers its value
and how many characters of `rest` belong to it; the leftmost token wins and none overlap.
`skip` counts the characters of the last token that are still to be passed over. -/
def piecesFrom {α : Type} (read : Char → List Char → Option (α × Nat)) :
    Nat → List Char → List (Piece α)
  | _, [] => []
  | skip + 1, _ :: rest => piecesFrom read skip rest
  | 0, c :: rest =>
    match read c rest with
    | some (value, n) => .token value (c :: rest.take n) :: piecesFrom read n rest
    | none => .plain c :: piecesFrom read 0 rest

/-- The pieces of a whole text. -/
def pieces {α : Type} (read : Char → List Char → Option (α × Nat)) (s : List Char) :
    List (Piece α) :=
  piecesFrom read 0 s

/-- The values of the tokens, from left to right. -/
def tokens {α : Type} (ps : List (Piece α)) : List α :=
  ps.filterMap fun
    | .plain _ => none
    | .token value _ => some value

theorem piecesFrom_eq_drop {α : Type} (read : Char → List Char → Option (α × Nat)) (n : Nat)
    (s : List Char) : piecesFrom read n s = pieces read (s.drop n) := by
  induction n generalizing s with
  | zero => simp [pieces]
  | succ n ih =>
    cases s with
    | nil => simp [pieces, piecesFrom]
    | cons c s => simp [piecesFrom, ih]

/-- **Cutting loses nothing: the pieces of a text spell it.** -/
theorem flatMap_source_pieces {α : Type} (read : Char → List Char → Option (α × Nat))
    (s : List Char) : (pieces read s).flatMap Piece.source = s := by
  suffices h : ∀ m (s : List Char), s.length ≤ m → (pieces read s).flatMap Piece.source = s from
    h s.length s (Nat.le_refl _)
  intro m
  induction m with
  | zero =>
    intro s hs
    have : s = [] := List.length_eq_zero_iff.1 (Nat.le_zero.1 hs)
    subst this
    rfl
  | succ m ih =>
    intro s hs
    cases s with
    | nil => rfl
    | cons c rest =>
      have hr : rest.length ≤ m := by simpa using hs
      simp only [pieces, piecesFrom]
      split
      · rename_i value n _
        have hd : (rest.drop n).length ≤ m := by simp; omega
        rw [piecesFrom_eq_drop, List.flatMap_cons, ih _ hd]
        simp [Piece.source]
      · have := ih rest hr
        simp only [pieces] at this
        rw [List.flatMap_cons, this]
        rfl

/-- Every occurrence of a non-empty pattern replaced, from left to right, without overlap. -/
def replaceAll (pattern replacement s : List Char) : List Char :=
  match pattern with
  | [] => s
  | p :: ps =>
    (pieces (fun c rest => if c = p && startsWith ps rest then some ((), ps.length) else none)
      s).flatMap fun
        | .plain c => [c]
        | .token _ _ => replacement

/-! ## 5. Joining -/

/-- The texts with a separator between them. -/
def joinWith (separator : String) (texts : List String) : String :=
  separator.intercalate texts

end Runbook.Text
