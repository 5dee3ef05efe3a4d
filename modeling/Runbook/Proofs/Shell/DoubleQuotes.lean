import Mathlib.Tactic.SplitIfs
import Runbook.Proofs.Fallible
import Runbook.Shell.Command

/-!
# Texts in double quotes

What a POSIX shell makes of a text that stands between double quotes:

* `Word.plainText`: the literal text of a word;
* `isInert`: whether a text stands for itself between double quotes;
* `ReadStep`, `readStep_of_readParts`: what a reader of a word does next;
* `length_readParts`, `eq_of_length_readParts`: no text gets longer by reading it, and one that keeps its
  length is kept as it stands;
* **`isInert_of_quoted_word`**, **`readParts_quoted_of_isInert`**: what comes through double quotes stands
  for itself there, and the other way round;
* `readParts_bare`: text without a meaning in front of what is read behind it.
-/

namespace Runbook.Shell

/-! ## 1. The text of a word -/

/-- The literal text of a part; what is expanded has none. -/
def Part.plainText : Part → List Char
  | .text cs _ => cs
  | .parameter .. => []
  | .output .. => []
  | .arithmetic .. => []
  | .senseless _ => []

/-- The literal text of a word. -/
def Word.plainText (w : Word) : List Char := w.flatMap Part.plainText

@[simp] theorem Word.plainText_nil : Word.plainText [] = [] := rfl

@[simp] theorem Word.plainText_cons (p : Part) (w : Word) :
    Word.plainText (p :: w) = p.plainText ++ Word.plainText w := List.flatMap_cons

/-- Joining literal texts of one kind keeps the text of a word. -/
@[simp] theorem Word.plainText_cons' (p : Part) (w : Word) :
    Word.plainText (Word.cons p w) = p.plainText ++ Word.plainText w := by
  unfold Word.cons
  split
  · split
    · simp [Part.plainText]
    · rfl
  · rfl

theorem Word.plainText_foldr (inner w : Word) :
    Word.plainText (inner.foldr Word.cons w) = Word.plainText inner ++ Word.plainText w := by
  induction inner with
  | nil => rfl
  | cons p inner ih => rw [List.foldr_cons, plainText_cons', ih, plainText_cons, List.append_assoc]

/-! ## 2. What expansions take of a text -/

theorem length_upToClosing {opening closing : Char} {depth : Nat} {q : Quoting} {skip : Bool}
    {s a b : List Char} (h : upToClosing opening closing depth q skip s = some (a, b)) :
    b.length < s.length := by
  induction s generalizing depth q skip a with
  | nil => cases h
  | cons c s ih =>
    have go : ∀ {depth q skip}, ((upToClosing opening closing depth q skip s).map
        fun r => (c :: r.1, r.2)) = some (a, b) → b.length < (c :: s).length := by
      intro depth q skip hgo
      obtain ⟨⟨a', b'⟩, hab, heq⟩ := Option.map_eq_some_iff.mp hgo
      cases heq
      exact Nat.lt_succ_of_lt (ih hab)
    unfold upToClosing at h
    dsimp only at h
    split at h
    · exact go h
    · split at h
      · exact go h
      · split at h
        · exact go h
        · exact go h
      · split_ifs at h
        · exact go h
        · exact go h
        · exact go h
        · exact go h
        · split at h
          · cases h
            exact Nat.lt_succ_self _
          · exact go h
        · exact go h

theorem length_upToBackquote {s a b : List Char} (h : upToBackquote s = some (a, b)) :
    b.length < s.length := by
  fun_induction upToBackquote s generalizing a with
  | case1 => cases h
  | case2 rest =>
    cases h
    exact Nat.lt_succ_self _
  | case3 c rest ih =>
    obtain ⟨⟨a', b'⟩, hab, heq⟩ := Option.map_eq_some_iff.mp h
    cases heq
    have := ih hab
    simp only [List.length_cons]
    omega
  | case4 c rest _ _ ih =>
    obtain ⟨⟨a', b'⟩, hab, heq⟩ := Option.map_eq_some_iff.mp h
    cases heq
    exact Nat.lt_succ_of_lt (ih hab)

theorem length_parameterName? {s rest : List Char} {name : String}
    (h : parameterName? s = some (name, rest)) : rest.length ≤ s.length := by
  unfold parameterName? at h
  split at h
  · cases h
  · split_ifs at h
    · cases h
      exact (List.dropWhile_suffix _).length_le
    · cases h
      exact Nat.le_succ _

theorem plainText_readBraced {dialect : Dialect} {isQuoted : Bool} {fuel : Nat} {body : List Char}
    {p : Part} (h : readBraced dialect isQuoted fuel body = .ok p) : p.plainText = [] := by
  unfold readBraced at h
  split at h
  · cases h
    rfl
  · split at h
    · cases h
      rfl
    · split at h
      · cases h
        rfl
      · split at h
        · cases h
          rfl
        · obtain ⟨operands, -, h⟩ := ok_of_bind h
          cases h
          rfl

/-- An expansion has no literal text, and takes something of the text behind its dollar sign. -/
theorem readDollar_eq_ok {dialect : Dialect} {isQuoted : Bool} {fuel : Nat} {s rest : List Char}
    {p : Part} (h : readDollar dialect isQuoted fuel s = .ok (some (p, rest))) :
    p.plainText = [] ∧ rest.length ≤ s.length := by
  unfold readDollar at h
  split at h
  · cases h
  · split at h
    · split at h
      · cases h
      · next script rest' hclose =>
        have hlen := length_upToClosing hclose
        have hle : rest'.length ≤ ('(' :: _).length := Nat.le_succ_of_le (Nat.le_of_lt hlen)
        split at h
        · split at h
          · obtain ⟨operand, -, h⟩ := ok_of_bind h
            cases h
            exact ⟨rfl, hle⟩
          · cases h
            exact ⟨rfl, hle⟩
        · cases h
          exact ⟨rfl, hle⟩
    · split at h
      · cases h
      · next body rest' hclose =>
        have hlen := length_upToClosing hclose
        obtain ⟨p', hp, h⟩ := ok_of_bind h
        cases h
        exact ⟨plainText_readBraced hp, Nat.le_succ_of_le (Nat.le_of_lt hlen)⟩
    · split at h
      · next name rest' hname =>
        cases h
        exact ⟨rfl, length_parameterName? hname⟩
      · cases h

/-! ## 3. Texts that stand for themselves -/

/-- Whether a dollar sign in front of a character starts an expansion. -/
def opensExpansion (c : Char) : Bool :=
  c = '(' || c = '\x7b' || Text.isIdentStart c || isSpecialName c

/-- Whether a dollar sign in front of a text starts an expansion. -/
def startsExpansion (s : List Char) : Bool := s.head?.any opensExpansion

@[simp] theorem startsExpansion_cons (c : Char) (s : List Char) :
    startsExpansion (c :: s) = opensExpansion c := rfl

/-- Whether a text stands for itself between double quotes: no quote and no backquote is in it, no
backslash in front of something whose meaning it takes or at the end, and no dollar sign that starts an
expansion. -/
def isInert : List Char → Bool
  | [] => true
  | c :: rest =>
    isInert rest && match c with
      | '"' => false
      | '\x60' => false
      | '\\' => rest.head?.any fun d => d ≠ '\n' && !Mode.quoted.escapes d
      | '$' => !startsExpansion rest
      | _ => true

/-- A dollar sign that starts nothing is none that starts an expansion. -/
theorem not_startsExpansion {dialect : Dialect} {isQuoted : Bool} {fuel : Nat} {s : List Char}
    (h : readDollar dialect isQuoted (fuel + 1) s = .ok none) : startsExpansion s = false := by
  unfold readDollar at h
  split at h
  · split at h
    · cases h
    · split at h
      · split at h
        · obtain ⟨operand, -, h⟩ := ok_of_bind h
          cases h
        · cases h
      · cases h
  · split at h
    · cases h
    · obtain ⟨p, -, h⟩ := ok_of_bind h
      cases h
  · next hparen hbrace =>
    split at h
    · cases h
    · next hname =>
      cases s with
      | nil => rfl
      | cons c s =>
        unfold parameterName? at hname
        dsimp only at hname
        split_ifs at hname with hstart hspecial
        have hc : c ≠ '(' ∧ c ≠ '\x7b' :=
          ⟨fun heq => hparen s (by rw [heq]), fun heq => hbrace s (by rw [heq])⟩
        simp [opensExpansion, hc, hstart, hspecial]

/-! ## 4. One step of reading -/

/-- Characters that are kept as they stand in front of a text, with some fuel left: a character without
a meaning, a backslash with a character that it takes no meaning from, or a last backslash. -/
inductive Keeps (mode : Mode) (fuel : Nat) : List Char → List Char → Prop
  | char {c : Char} {behind : List Char} (hquote : c ≠ '"') (hback : c ≠ '\x60') (hslash : c ≠ '\\')
      (hdollar : c = '$' → 0 < fuel → startsExpansion behind = false) : Keeps mode fuel [c] behind
  | pair {d : Char} {behind : List Char} (hm : mode = .quoted) (hd : d ≠ '\n')
      (he : Mode.quoted.escapes d = false) : Keeps mode fuel ['\\', d] behind
  | last : Keeps mode fuel ['\\'] []

/-- **What a reader of a word, or of what stands in double quotes, does next**: it comes to the end, keeps
characters as they stand, reads what stands in quotes, or goes on with less text than it has passed. -/
inductive ReadStep (mode : Mode) (fuel : Nat) (s : List Char) (w : Word) (rest : List Char) : Prop
  | ended (hw : w = []) (h : mode = .word ∧ rest = s ∨ mode = .quoted ∧ s = '"' :: rest)
  | kept {cs behind : List Char} {w' : Word} (hs : s = cs ++ behind)
      (hkeeps : Keeps mode fuel cs behind) (hw : w.plainText = cs ++ w'.plainText)
      (later : readParts .plain mode fuel behind = .ok (w', rest))
  | quoted {within behind : List Char} {inner w' : Word} (hs : s = '"' :: within)
      (inside : readParts .plain .quoted fuel within = .ok (inner, behind))
      (hw : w.plainText = inner.plainText ++ w'.plainText)
      (later : readParts .plain mode fuel behind = .ok (w', rest))
  | lost {behind : List Char} {w' : Word} (hbehind : behind.length < s.length)
      (hw : w.plainText.length + behind.length < w'.plainText.length + s.length)
      (later : readParts .plain mode fuel behind = .ok (w', rest))

/-- Literal text in front of what is read of the rest. -/
theorem exists_of_literal {read : Except ReadError (Word × List Char)} {cs rest : List Char}
    {q : Bool} {w : Word}
    (h : (read >>= fun r => Except.ok (Word.cons (.text cs q) r.1, r.2)) = .ok (w, rest)) :
    ∃ w', read = .ok (w', rest) ∧ w.plainText = cs ++ w'.plainText := by
  obtain ⟨⟨w', rest'⟩, hw', h⟩ := ok_of_bind h
  cases h
  exact ⟨w', hw', Word.plainText_cons' _ _⟩

theorem readStep_of_readParts {mode : Mode} (hm : mode = .word ∨ mode = .quoted) {fuel : Nat}
    {s rest : List Char} {w : Word} (h : readParts .plain mode (fuel + 1) s = .ok (w, rest)) :
    ReadStep mode fuel s w rest := by
  unfold readParts at h
  cases s with
  | nil =>
    dsimp only at h
    split at h
    · cases h
    · next hq =>
      cases h
      exact .ended rfl (.inl ⟨hm.resolve_right hq, rfl⟩)
  | cons c s =>
    dsimp only at h
    split_ifs at h with hend hclose hslash hsingle hdouble hback hdollar
    · obtain ⟨rfl, -⟩ : mode = .word ∧ endsShellWord c = true := by simpa using hend
      cases h
      exact .ended rfl (.inl ⟨rfl, rfl⟩)
    · obtain ⟨rfl, rfl⟩ : mode = .quoted ∧ c = '"' := by simpa using hclose
      cases h
      exact .ended rfl (.inr ⟨rfl, rfl⟩)
    · subst hslash
      cases s with
      | nil =>
        obtain ⟨w', hw', hw⟩ := exists_of_literal h
        exact .kept rfl .last hw hw'
      | cons d s =>
        have hbehind : s.length < ('\\' :: d :: s).length := Nat.lt_add_of_pos_right Nat.two_pos
        dsimp only at h
        split_ifs at h with hnewline hescapes
        · exact .lost hbehind (Nat.add_lt_add_left hbehind _) h
        · obtain ⟨w', hw', hw⟩ := exists_of_literal h
          refine .lost hbehind ?_ hw'
          simp only [hw, List.length_append, List.length_cons, List.length_nil]
          omega
        · obtain ⟨w', hw', hw⟩ := exists_of_literal h
          rcases hm with rfl | rfl
          · simp [Mode.escapes, Mode.isQuoted] at hescapes
          · exact .kept rfl (.pair rfl hnewline (by simpa using hescapes)) hw hw'
    · obtain ⟨rfl, -⟩ : c = '\'' ∧ mode.isQuoted = false := by simpa using hsingle
      have hsplit := List.takeWhile_append_dropWhile (p := (· ≠ '\'')) (l := s)
      split at h
      · cases h
      · next d after hafter =>
        obtain ⟨w', hw', hw⟩ := exists_of_literal h
        have hlen := congrArg List.length hsplit
        rw [hafter, List.length_append, List.length_cons] at hlen
        refine .lost ?_ ?_ hw'
        · rw [List.length_cons]
          omega
        · rw [hw, List.length_append, List.length_cons]
          omega
    · obtain ⟨rfl, -⟩ : c = '"' ∧ mode.isQuoted = false := by simpa using hdouble
      obtain ⟨⟨inner, behind⟩, hinner, h⟩ := ok_of_bind h
      obtain ⟨⟨w', rest'⟩, hw', h⟩ := ok_of_bind h
      cases h
      refine .quoted rfl hinner ?_ hw'
      rw [Word.plainText_foldr]
      split <;> simp_all [Part.plainText]
    · split at h
      · cases h
      · next script behind hscript =>
        obtain ⟨⟨w', rest'⟩, hw', h⟩ := ok_of_bind h
        cases h
        have hlen := length_upToBackquote hscript
        refine .lost (Nat.lt_succ_of_lt hlen) ?_ hw'
        show (Word.plainText w').length + _ < _
        rw [List.length_cons]
        omega
    · subst hdollar
      obtain ⟨part?, hpart, h⟩ := ok_of_bind h
      cases part? with
      | none =>
        obtain ⟨w', hw', hw⟩ := exists_of_literal h
        refine .kept rfl (.char (by decide) (by decide) (by decide) fun _ hfuel => ?_) hw hw'
        cases fuel with
        | zero => exact absurd hfuel (Nat.lt_irrefl 0)
        | succ fuel => exact not_startsExpansion hpart
      | some part =>
        obtain ⟨p, behind⟩ := part
        obtain ⟨⟨w', rest'⟩, hw', h⟩ := ok_of_bind h
        cases h
        obtain ⟨hp, hlen⟩ := readDollar_eq_ok hpart
        refine .lost (Nat.lt_succ_of_le hlen) ?_ hw'
        rw [Word.plainText_cons, hp, List.nil_append, List.length_cons]
        dsimp only
        omega
    · obtain ⟨w', hw', hw⟩ := exists_of_literal h
      have hquote : c ≠ '"' := by
        rintro rfl
        rcases hm with rfl | rfl
        · exact hdouble (by decide)
        · exact hclose (by decide)
      exact .kept rfl (.char hquote hback hslash fun hc => absurd hc hdollar) hw hw'

/-! ## 5. What can come through as it stands -/

/-- What has to stand behind a text that is read in this mode. -/
def Mode.closing : Mode → List Char
  | .quoted => ['"']
  | .word => []
  | .operand => []
  | .document => []

theorem Keeps.nonempty {mode : Mode} {fuel : Nat} {cs behind : List Char}
    (h : Keeps mode fuel cs behind) : 0 < cs.length := by
  cases h <;> simp

/-- **No text gets longer by reading it**: the literal text of a word and what follows it take the
place of what was read, with its closing quote. -/
theorem length_readParts {mode : Mode} (hm : mode = .word ∨ mode = .quoted) {fuel : Nat}
    {s rest : List Char} {w : Word} (hfuel : s.length < fuel)
    (h : readParts .plain mode fuel s = .ok (w, rest)) :
    w.plainText.length + mode.closing.length + rest.length ≤ s.length := by
  induction fuel generalizing mode s rest w with
  | zero => exact absurd hfuel (Nat.not_lt_zero _)
  | succ fuel ih =>
    cases readStep_of_readParts hm h with
    | ended hw hend =>
      subst hw
      rcases hend with ⟨rfl, rfl⟩ | ⟨rfl, rfl⟩
      · simp [Mode.closing]
      · simp [Mode.closing]
        omega
    | kept hs hkeeps hw later =>
      subst hs
      have hpos := hkeeps.nonempty
      rw [List.length_append] at hfuel ⊢
      have := ih hm (by omega) later
      rw [hw, List.length_append]
      omega
    | quoted hs inside hw later =>
      subst hs
      rw [List.length_cons] at hfuel ⊢
      have hinner := ih (.inr rfl) (by omega) inside
      have := ih hm (by omega) later
      rw [hw, List.length_append]
      omega
    | lost hbehind hw later =>
      have := ih hm (by omega) later
      omega

/-- **A text that comes through at its full length comes through as it stands**, and has no quote. -/
theorem eq_of_length_readParts {mode : Mode} (hm : mode = .word ∨ mode = .quoted) {fuel : Nat}
    {s rest : List Char} {w : Word} (hfuel : s.length < fuel)
    (h : readParts .plain mode fuel s = .ok (w, rest))
    (hlen : s.length ≤ w.plainText.length + mode.closing.length + rest.length) :
    s = w.plainText ++ (mode.closing ++ rest) ∧ '"' ∉ w.plainText := by
  induction fuel generalizing s rest w with
  | zero => exact absurd hfuel (Nat.not_lt_zero _)
  | succ fuel ih =>
    cases readStep_of_readParts hm h with
    | ended hw hend =>
      subst hw
      rcases hend with ⟨rfl, rfl⟩ | ⟨rfl, rfl⟩
      · exact ⟨rfl, List.not_mem_nil⟩
      · exact ⟨rfl, List.not_mem_nil⟩
    | @kept cs behind w' hs hkeeps hw later =>
      subst hs
      have hpos := hkeeps.nonempty
      rw [List.length_append] at hfuel hlen
      rw [hw, List.length_append] at hlen
      obtain ⟨hbehind, hno⟩ := ih (by omega) later (by omega)
      have hquote : '"' ∉ cs := by
        cases hkeeps with
        | char hquote _ _ _ => simpa using Ne.symm hquote
        | @pair d _ _ hd he =>
          have hquote : d ≠ '"' := by
            rintro rfl
            exact absurd he (by decide)
          simpa using hquote.symm
        | last => decide
      refine ⟨?_, ?_⟩
      · rw [hw, List.append_assoc, ← hbehind]
      · rw [hw, List.mem_append, not_or]
        exact ⟨hquote, hno⟩
    | quoted hs inside hw later =>
      subst hs
      rw [List.length_cons] at hfuel hlen
      have hinner := length_readParts (.inr rfl) (by omega) inside
      have hlater := length_readParts hm (by omega) later
      rw [hw, List.length_append] at hlen
      omega
    | lost hbehind hw later =>
      have hlater := length_readParts hm (by omega) later
      omega

theorem Keeps.isInert_append {fuel : Nat} {cs behind t rest : List Char}
    (h : Keeps .quoted fuel cs behind) (hfuel : 0 < fuel) (hbehind : behind = t ++ '"' :: rest)
    (ht : isInert t = true) : isInert (cs ++ t) = true := by
  cases h with
  | @char c _ hquote hback hslash hdollar =>
    have hexpansion : c = '$' → startsExpansion t = false := by
      intro hc
      have hstarts := hdollar hc hfuel
      subst hbehind
      cases t with
      | nil => rfl
      | cons d t => exact hstarts
    rw [List.singleton_append]
    unfold isInert
    rw [ht, Bool.true_and]
    split
    · exact absurd rfl hquote
    · exact absurd rfl hback
    · exact absurd rfl hslash
    · rw [hexpansion rfl]
      rfl
    · rfl
  | @pair d _ _ hd he =>
    have hhead : isInert (d :: t) = true := by
      unfold isInert
      rw [ht, Bool.true_and]
      split
      · cases he
      · cases he
      · cases he
      · cases he
      · rfl
    show (isInert (d :: t) && (decide (d ≠ '\n') && !Mode.quoted.escapes d)) = true
    simp [hhead, hd, he]
  | last => simp at hbehind

/-- **What comes through double quotes at its full length stands for itself there.** -/
theorem isInert_of_length_readParts {fuel : Nat} {s rest : List Char} {w : Word}
    (hfuel : s.length < fuel) (h : readParts .plain .quoted fuel s = .ok (w, rest))
    (hlen : s.length ≤ w.plainText.length + 1 + rest.length) : isInert w.plainText = true := by
  induction fuel generalizing s rest w with
  | zero => exact absurd hfuel (Nat.not_lt_zero _)
  | succ fuel ih =>
    cases readStep_of_readParts (.inr rfl) h with
    | ended hw hend =>
      subst hw
      rfl
    | @kept cs behind w' hs hkeeps hw later =>
      subst hs
      have hpos := hkeeps.nonempty
      rw [List.length_append] at hfuel hlen
      rw [hw, List.length_append] at hlen
      have hinert := ih (by omega) later (by omega)
      obtain ⟨hbehind, -⟩ := eq_of_length_readParts (.inr rfl) (by omega) later
        (show _ ≤ _ + 1 + _ by omega)
      rw [hw]
      exact hkeeps.isInert_append (by omega) hbehind hinert
    | quoted hs inside hw later =>
      subst hs
      rw [List.length_cons] at hfuel hlen
      have hinner := length_readParts (.inr rfl) (by omega) inside
      have hlater := length_readParts (.inr rfl) (by omega) later
      rw [hw, List.length_append] at hlen
      dsimp only [Mode.closing, List.length_cons, List.length_nil] at hinner hlater
      omega
    | lost hbehind hw later =>
      have hlater := length_readParts (.inr rfl) (by omega) later
      dsimp only [Mode.closing, List.length_cons, List.length_nil] at hlater
      omega

/-- The parts of what stands in double quotes; if it is empty, it is still a text. -/
def Word.quoted (inner : Word) : Word := if inner.isEmpty then [.text [] true] else inner

@[simp] theorem Word.plainText_quoted (inner : Word) :
    Word.plainText (Word.quoted inner) = Word.plainText inner := by
  cases inner <;> rfl

theorem readParts_word_quote (fuel : Nat) (s : List Char) :
    readParts .plain .word (fuel + 1) ('"' :: s) = (do
      let (inner, behind) ← readParts .plain .quoted fuel s
      let (w, rest) ← readParts .plain .word fuel behind
      return ((Word.quoted inner).foldr Word.cons w, rest)) := by
  conv => lhs; unfold readParts
  rfl

/-- **A word in double quotes whose text is what stands between them stands for itself.** -/
theorem isInert_of_quoted_word {v rest : List Char} {w : Word} {fuel : Nat}
    (hfuel : v.length + 2 < fuel)
    (h : readParts .plain .word fuel ('"' :: (v ++ ['"'])) = .ok (w, rest)) (hw : w.plainText = v) :
    isInert v = true := by
  cases fuel with
  | zero => exact absurd hfuel (Nat.not_lt_zero _)
  | succ fuel =>
    rw [readParts_word_quote] at h
    obtain ⟨⟨inner, behind⟩, inside, h⟩ := ok_of_bind h
    obtain ⟨⟨w', rest'⟩, later, h⟩ := ok_of_bind h
    cases h
    rw [Word.plainText_foldr, Word.plainText_quoted] at hw
    have hsum : v.length = (Word.plainText inner).length + (Word.plainText w').length := by
      rw [← hw, List.length_append]
    have hlast : (v ++ ['"']).length = v.length + 1 := List.length_append
    have hinner : _ + 1 + _ ≤ _ := length_readParts (.inr rfl) (by omega) inside
    have hlater : _ + 0 + _ ≤ _ := length_readParts (.inl rfl) (by omega) later
    -- nothing is lost in either part, so the quote that closes the first one is the last character
    obtain ⟨hv, -⟩ := eq_of_length_readParts (.inr rfl) (by omega) inside
      (show _ ≤ _ + 1 + _ by omega)
    obtain ⟨-, hno⟩ := eq_of_length_readParts (.inl rfl) (by omega) later
      (show _ ≤ _ + 0 + _ by omega)
    have hinert := isInert_of_length_readParts (by omega) inside (by omega)
    have hclosing : Word.plainText w' ++ ['"'] = '"' :: behind := by
      rw [← hw, List.append_assoc] at hv
      exact List.append_cancel_left hv
    have hnone : Word.plainText w' = [] := by
      cases htext : Word.plainText w' with
      | nil => rfl
      | cons c t =>
        rw [htext] at hclosing hno
        exact absurd (List.cons_eq_cons.mp hclosing).1 fun hc => hno (hc ▸ List.mem_cons_self)
    rw [← hw, hnone, List.append_nil]
    exact hinert

/-! ## 6. What does come through -/

/-- A text in quotes as parts of a word. -/
def Word.ofQuoted (t : List Char) : Word := if t.isEmpty then [] else [.text t true]

theorem Word.cons_ofQuoted {cs : List Char} (hne : cs ≠ []) (t : List Char) :
    Word.cons (.text cs true) (Word.ofQuoted t) = Word.ofQuoted (cs ++ t) := by
  cases cs with
  | nil => exact absurd rfl hne
  | cons c cs =>
    cases t with
    | nil => simp [Word.ofQuoted, Word.cons]
    | cons d t => simp [Word.ofQuoted, Word.cons]

theorem readDollar_of_not_startsExpansion {isQuoted : Bool} {fuel : Nat} {t tail : List Char}
    (h : startsExpansion t = false) :
    readDollar .plain isQuoted fuel (t ++ '"' :: tail) = .ok none := by
  cases fuel with
  | zero => rfl
  | succ fuel =>
    cases t with
    | nil => rfl
    | cons c t =>
      simp only [startsExpansion_cons, opensExpansion, Bool.or_eq_false_iff,
        decide_eq_false_iff_not] at h
      obtain ⟨⟨⟨hparen, hbrace⟩, hstart⟩, hspecial⟩ := h
      rw [List.cons_append]
      unfold readDollar parameterName?
      split
      · next heq => exact absurd (List.cons_eq_cons.mp heq).1 hparen
      · next heq => exact absurd (List.cons_eq_cons.mp heq).1 hbrace
      · simp [hstart, hspecial]

theorem of_isInert_cons {c : Char} {t : List Char} (h : isInert (c :: t) = true) :
    isInert t = true ∧ c ≠ '"' ∧ c ≠ '\x60' ∧
      (c = '\\' → t.head?.any (fun d => d ≠ '\n' && !Mode.quoted.escapes d) = true) ∧
      (c = '$' → startsExpansion t = false) := by
  unfold isInert at h
  obtain ⟨ht, hc⟩ := Bool.and_eq_true_iff.mp h
  refine ⟨ht, ?_, ?_, ?_, ?_⟩
  · rintro rfl
    cases hc
  · rintro rfl
    cases hc
  · rintro rfl
    exact hc
  · rintro rfl
    simpa using hc

/-- Literal text in front of what is read of the rest. -/
def putBefore (cs : List Char) (isQuoted : Bool) (read : Except ReadError (Word × List Char)) :
    Except ReadError (Word × List Char) :=
  read.map fun (w, rest) => (Word.cons (.text cs isQuoted) w, rest)

section Steps
variable {fuel : Nat} {s : List Char}

theorem readParts_char {mode : Mode} (hm : mode = .word ∨ mode = .quoted) {c : Char}
    (hword : mode = .word → endsShellWord c = false ∧ c ≠ '\'') (hquote : c ≠ '"') (hback : c ≠ '\x60')
    (hslash : c ≠ '\\') (hdollar : c ≠ '$') :
    readParts .plain mode (fuel + 1) (c :: s) =
      putBefore [c] mode.isQuoted (readParts .plain mode fuel s) := by
  conv => lhs; unfold readParts
  have hend : (mode = .word && endsShellWord c) = false := by
    rcases hm with rfl | rfl
    · simpa using (hword rfl).1
    · rfl
  have hsingle : (c = '\'' && !mode.isQuoted) = false := by
    rcases hm with rfl | rfl
    · simpa using fun h => absurd h (hword rfl).2
    · simp [Mode.isQuoted]
  dsimp only
  simp only [hend, hsingle, hquote, hback, hslash, hdollar, decide_false, Bool.and_false,
    Bool.false_and, Bool.false_eq_true, if_false]
  cases readParts .plain mode fuel s <;> rfl

theorem readParts_pair {d : Char} (hd : d ≠ '\n') (he : Mode.quoted.escapes d = false) :
    readParts .plain .quoted (fuel + 1) ('\\' :: d :: s) =
      putBefore ['\\', d] true (readParts .plain .quoted fuel s) := by
  conv => lhs; unfold readParts
  dsimp only
  rw [if_neg (by decide), if_neg (by decide), if_pos rfl, if_neg hd, if_neg (by simp [he])]
  cases readParts .plain .quoted fuel s <;> rfl

theorem readParts_dollar (h : readDollar .plain true fuel s = .ok none) :
    readParts .plain .quoted (fuel + 1) ('$' :: s) =
      putBefore ['$'] true (readParts .plain .quoted fuel s) := by
  conv => lhs; unfold readParts
  dsimp only [Mode.isQuoted]
  rw [h]
  rw [if_neg (by decide), if_neg (by decide), if_neg (by decide), if_neg (by decide),
    if_neg (by decide), if_neg (by decide), if_pos rfl]
  cases readParts .plain .quoted fuel s <;> rfl

end Steps

/-- **A text that stands for itself between double quotes is read as it stands.** -/
theorem readParts_of_isInert {t tail : List Char} {fuel : Nat} (hfuel : t.length < fuel)
    (h : isInert t = true) :
    readParts .plain .quoted fuel (t ++ '"' :: tail) = .ok (Word.ofQuoted t, tail) := by
  induction fuel generalizing t with
  | zero => exact absurd hfuel (Nat.not_lt_zero _)
  | succ fuel ih =>
    cases t with
    | nil =>
      unfold readParts
      rfl
    | cons c t =>
      rw [List.length_cons] at hfuel
      obtain ⟨hinert, hquote, hback, hslash, hdollar⟩ := of_isInert_cons h
      have later := ih (Nat.lt_of_succ_lt_succ hfuel) hinert
      have kept : ∀ (cs t : List Char), cs ≠ [] →
          putBefore cs true (.ok (Word.ofQuoted t, tail)) = .ok (Word.ofQuoted (cs ++ t), tail) :=
        fun cs t hne => by rw [← Word.cons_ofQuoted hne]; rfl
      rw [List.cons_append]
      by_cases hs : c = '\\'
      · subst hs
        cases t with
        | nil => cases hslash rfl
        | cons d t =>
          obtain ⟨hd, he⟩ : d ≠ '\n' ∧ Mode.quoted.escapes d = false := by simpa using hslash rfl
          rw [List.length_cons] at hfuel
          have later := ih (by omega) (of_isInert_cons hinert).1
          rw [List.cons_append, readParts_pair hd he, later]
          exact kept ['\\', d] t (List.cons_ne_nil _ _)
      · by_cases hd : c = '$'
        · subst hd
          rw [readParts_dollar (readDollar_of_not_startsExpansion (hdollar rfl)), later]
          exact kept ['$'] t (List.cons_ne_nil _ _)
        · rw [readParts_char (.inr rfl) nofun hquote hback hs hd, later]
          exact kept [c] t (List.cons_ne_nil _ _)

theorem readParts_quoted_of_isInert {v : List Char} {fuel : Nat} (hfuel : v.length + 1 < fuel)
    (h : isInert v = true) :
    readParts .plain .word fuel ('"' :: (v ++ ['"'])) = .ok ([.text v true], []) := by
  cases fuel with
  | zero => exact absurd hfuel (Nat.not_lt_zero _)
  | succ fuel =>
    have hnil : readParts .plain .word fuel [] = .ok ([], []) := by
      cases fuel <;> (unfold readParts; rfl)
    rw [readParts_word_quote, readParts_of_isInert (Nat.lt_of_succ_lt_succ hfuel) h]
    show (readParts .plain .word fuel [] >>= _) = _
    rw [hnil]
    cases v <;> rfl

/-! ## 7. What stands in front of the quotes -/

/-- Whether a character has no meaning in a word outside quotes. -/
def isBare (c : Char) : Bool :=
  !(endsShellWord c || "\\'\"\x60$".toList.contains c)

theorem isBare_of_isIdentChar {c : Char} (h : Text.isIdentChar c = true) : isBare c = true := by
  have hnone : (" \t\n;&|<>()".toList ++ "\\'\"\x60$".toList).all (!Text.isIdentChar ·) = true := by
    decide
  have hno : c ∉ " \t\n;&|<>()".toList ++ "\\'\"\x60$".toList := fun hc => by
    simpa [h] using List.all_eq_true.mp hnone c hc
  rw [List.mem_append, not_or] at hno
  simp only [isBare, endsShellWord, List.contains_eq_mem, hno.1, hno.2]
  rfl

theorem readParts_of_isBare {c : Char} (h : isBare c = true) (fuel : Nat) (s : List Char) :
    readParts .plain .word (fuel + 1) (c :: s) =
      putBefore [c] false (readParts .plain .word fuel s) := by
  obtain ⟨hend, hmarks⟩ : endsShellWord c = false ∧ c ∉ "\\'\"\x60$".toList := by
    simpa [isBare] using h
  have hother : ∀ d ∈ "\\'\"\x60$".toList, c ≠ d := fun d hd hc => hmarks (hc ▸ hd)
  exact readParts_char (.inl rfl) (fun _ => ⟨hend, hother _ (by decide)⟩) (hother _ (by decide))
    (hother _ (by decide)) (hother _ (by decide)) (hother _ (by decide))

@[simp] theorem Word.cons_cons (a b : List Char) (q : Bool) (w : Word) :
    Word.cons (.text a q) (Word.cons (.text b q) w) = Word.cons (.text (a ++ b) q) w := by
  cases w with
  | nil => simp [Word.cons]
  | cons p w =>
    cases p with
    | text c r =>
      by_cases hr : q = r
      · subst hr
        simp [Word.cons]
      · simp [Word.cons, hr]
    | _ => simp [Word.cons]

@[simp] theorem putBefore_putBefore (a b : List Char) (q : Bool)
    (read : Except ReadError (Word × List Char)) :
    putBefore a q (putBefore b q read) = putBefore (a ++ b) q read := by
  cases read with
  | error e => rfl
  | ok r => simp [putBefore, Except.map]

/-- **Text without a meaning stays in front of what is read behind it.** -/
theorem readParts_bare {p : List Char} (hne : p ≠ []) (hp : ∀ c ∈ p, isBare c = true) (fuel : Nat)
    (s : List Char) : readParts .plain .word (fuel + p.length) (p ++ s) =
      putBefore p false (readParts .plain .word fuel s) := by
  induction p with
  | nil => exact absurd rfl hne
  | cons c p ih =>
    obtain ⟨hc, hp⟩ := List.forall_mem_cons.mp hp
    rw [List.cons_append, List.length_cons, ← Nat.add_assoc, readParts_of_isBare hc]
    cases p with
    | nil => rfl
    | cons d p => rw [ih (List.cons_ne_nil _ _) hp, putBefore_putBefore, List.singleton_append]

end Runbook.Shell
