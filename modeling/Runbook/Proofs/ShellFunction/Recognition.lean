import Runbook.Proofs.ShellFunction.Grammar
import Runbook.Proofs.Text.Tidy

/-!
# Lines as they are printed

The texts that a statement can be printed with, the lines that they are printed on, and what is read from
such a line:

* `CommandText`, `ConditionText`, `NameText`, `IdentifierText`, `PatternText`, `ValueText`: the texts;
* `Starts`: a line that starts a statement in whatever block it stands, `starts_of_ends`: seen from its
  ends;
* `conditionalLine`, `whileLine`, `forLine`, `caseLine`, `armLine`, `inlineArmLine`, `lastCommandLine`,
  `assignmentLine`, `quotedLine`, `localLine`: the lines, each with what it opens or ends, what is taken
  from it, and that it is tidy.
-/

namespace Runbook.ShellFunction

/-! ## 1. Ends of a line -/

theorem dropEnd?_of_last {e s : List Char} {c d : Char} (he : e.getLast? = some c)
    (hs : s.getLast? = some d) (hne : c ≠ d) : Text.dropEnd? e s = none := by
  refine Option.eq_none_iff_forall_ne_some.mpr fun r hr => hne ?_
  rw [Text.dropEnd?_eq_some_iff] at hr
  rw [hr, List.getLast?_append, he] at hs
  exact Option.some.inj hs

/-- Only a text with a semicolon has something before a closing keyword. -/
theorem beforeClosing?_of_not_mem {keyword s : List Char} (h : ';' ∉ s) :
    beforeClosing? keyword s = none := by
  refine Option.eq_none_iff_forall_ne_some.mpr fun r hr => h ?_
  obtain ⟨t, ht, hr⟩ := Option.bind_eq_some_iff.mp hr
  rw [Text.dropEnd?_eq_some_iff] at ht hr
  rw [ht]
  refine List.mem_append_left _ ((List.rdropWhile_prefix Text.isBlank t).subset ?_)
  rw [← Text.trimRight_eq, hr]
  simp

theorem beforeClosing?_of_last {keyword s : List Char} {c d : Char} (hk : keyword.getLast? = some c)
    (hs : s.getLast? = some d) (hne : c ≠ d) : beforeClosing? keyword s = none := by
  unfold beforeClosing?
  rw [dropEnd?_of_last hk hs hne]
  rfl

/-- What stands before a semicolon, a blank and a keyword. -/
theorem beforeClosing?_append (keyword s : List Char) :
    beforeClosing? keyword (s ++ (';' :: ' ' :: keyword)) = some s := by
  unfold beforeClosing?
  have htext : s ++ (';' :: ' ' :: keyword) = (s ++ [';'] ++ [' ']) ++ keyword := by simp
  rw [htext, Text.dropEnd?_append]
  show Text.dropEnd? [';'] (Text.trimRight (s ++ [';'] ++ [' '])) = some s
  rw [Text.trimRight_eq, List.rdropWhile_concat_pos _ _ _ (by decide),
    List.rdropWhile_concat_neg _ _ _ (by decide), Text.dropEnd?_append]

theorem trimKeepingOne_of_trim {s t : List Char} (h : Text.trim s = t) (hne : t ≠ []) :
    trimKeepingOne s = t := by
  unfold trimKeepingOne
  rw [h]
  cases t with
  | nil => exact absurd rfl hne
  | cons _ _ => rfl

/-- A line that closes no compound: it has no semicolon, or it ends as no closing keyword does. -/
def Unclosed (line : Line) : Prop :=
  ';' ∉ line ∨ ∃ d, line.getLast? = some d ∧ d ≠ 'i' ∧ d ≠ 'e'

theorem Unclosed.of_suffix {line rest : Line} (h : Unclosed line) (hs : rest <:+ line) :
    Unclosed rest := by
  rcases h with h | ⟨d, hd, hi, he⟩
  · exact .inl fun hm => h (hs.subset hm)
  · cases rest with
    | nil => exact .inl List.not_mem_nil
    | cons c rest =>
      obtain ⟨front, rfl⟩ := hs
      rw [List.getLast?_append] at hd
      exact .inr ⟨d, by simpa using hd, hi, he⟩

theorem Unclosed.beforeClosing?_eq_none {line : Line} (h : Unclosed line) :
    beforeClosing? "fi".toList line = none ∧ beforeClosing? "done".toList line = none := by
  rcases h with h | ⟨d, hd, hi, he⟩
  · exact ⟨beforeClosing?_of_not_mem h, beforeClosing?_of_not_mem h⟩
  · exact ⟨beforeClosing?_of_last rfl hd hi.symm, beforeClosing?_of_last rfl hd he.symm⟩

theorem Unclosed.isOneLineOf_eq_false {line : Line} (h : Unclosed line) (keyword : List Char) :
    isOneLineOf keyword line = false := by
  unfold isOneLineOf
  cases hd : Text.dropStart? keyword line with
  | none => rfl
  | some r =>
    rw [Text.dropStart?_eq_some_iff] at hd
    cases r with
    | nil => rfl
    | cons b rest =>
      have hrest : Unclosed rest := h.of_suffix ⟨keyword ++ [b], by simp [hd]⟩
      dsimp only
      rw [hrest.beforeClosing?_eq_none.1, hrest.beforeClosing?_eq_none.2]
      exact Bool.and_false _

theorem isOneLineCase_of_last {line : Line} {d : Char} (hd : line.getLast? = some d) (hc : d ≠ 'c') :
    isOneLineCase line = false := by
  unfold isOneLineCase
  cases hr : Text.dropStart? "case".toList line with
  | none => rfl
  | some r =>
    rw [Text.dropStart?_eq_some_iff] at hr
    cases r with
    | nil => rfl
    | cons b rest =>
      have hrest : Text.dropEnd? "esac".toList rest = none := by
        cases rest with
        | nil => rfl
        | cons c rest =>
          rw [hr, List.getLast?_append_of_ne_nil _ (List.cons_ne_nil _ _),
            List.getLast?_cons_cons] at hd
          exact dropEnd?_of_last rfl hd hc.symm
      dsimp only
      rw [hrest]
      exact Bool.and_false _

/-- **A line that closes no compound holds none**, if it is none of a choice either. -/
theorem Unclosed.isOneLine_eq_false {line : Line} (h : Unclosed line)
    (hc : Text.dropStart? "case".toList line = none ∨ ∃ d, line.getLast? = some d ∧ d ≠ 'c') :
    isOneLine line = false := by
  have hcase : isOneLineCase line = false := by
    rcases hc with hc | ⟨d, hd, hne⟩
    · unfold isOneLineCase
      rw [hc]
    · exact isOneLineCase_of_last hd hne
  unfold isOneLine
  rw [h.isOneLineOf_eq_false, h.isOneLineOf_eq_false, h.isOneLineOf_eq_false, hcase]
  rfl

/-! ## 2. Texts that can be printed -/

/-- A command: a tidy line that starts no compound and no declaration, is no compound on one line and
no assignment, and ends no block. -/
structure CommandText (s : List Char) : Prop where
  tidy : Text.Tidy s
  noComment : Text.startsWith ['#'] s = false
  noOpener : ∀ opener ∈ ["if ", "elif ", "case ", "for ", "while ", "local "],
    Text.startsWith opener.toList s = false
  noCompound : isOneLine s = false
  noAssignment : assignment? s = none
  noKeyword : ∀ keyword ∈ ["else", "elif", "fi", "done", "esac"], s ≠ keyword.toList
  noArmEnd : Text.dropEnd? ";;".toList s = none

/-- A condition, or the items of a loop: a tidy text without a semicolon. -/
structure ConditionText (s : List Char) : Prop where
  tidy : Text.Tidy s
  noSemicolon : ';' ∉ s

/-- The name of the variable that a choice goes by or a loop sets. -/
structure NameText (s : List Char) : Prop where
  nonempty : s ≠ []
  word : ∀ c ∈ s, Text.isWordChar c = true

/-- A name that can be assigned to. -/
structure IdentifierText (s : List Char) : Prop where
  start : s.head?.any Text.isIdentStart = true
  word : ∀ c ∈ s.tail, Text.isWordChar c = true

/-- The pattern of an arm: a word without parentheses and quotes. -/
structure PatternText (s : List Char) : Prop where
  nonempty : s ≠ []
  char : ∀ c ∈ s, isPatternChar c = true
  noDoubleQuote : '"' ∉ s
  noSingleQuote : '\'' ∉ s

/-- An assigned value: a text on one line without a quote. -/
structure ValueText (s : List Char) : Prop where
  unbroken : Text.Unbroken s
  noQuote : '"' ∉ s

section Decidable
variable (s : List Char)

instance : Decidable (CommandText s) :=
  decidable_of_iff (Text.Tidy s ∧ Text.startsWith ['#'] s = false ∧
      (∀ opener ∈ ["if ", "elif ", "case ", "for ", "while ", "local "],
        Text.startsWith opener.toList s = false) ∧
      isOneLine s = false ∧ assignment? s = none ∧
      (∀ keyword ∈ ["else", "elif", "fi", "done", "esac"], s ≠ keyword.toList) ∧
      Text.dropEnd? ";;".toList s = none)
    ⟨fun ⟨h₁, h₂, h₃, h₄, h₅, h₆, h₇⟩ => ⟨h₁, h₂, h₃, h₄, h₅, h₆, h₇⟩,
      fun ⟨h₁, h₂, h₃, h₄, h₅, h₆, h₇⟩ => ⟨h₁, h₂, h₃, h₄, h₅, h₆, h₇⟩⟩

instance : Decidable (ConditionText s) :=
  decidable_of_iff (Text.Tidy s ∧ ';' ∉ s) ⟨fun ⟨h, h'⟩ => ⟨h, h'⟩, fun ⟨h, h'⟩ => ⟨h, h'⟩⟩

instance : Decidable (NameText s) :=
  decidable_of_iff (s ≠ [] ∧ s.all Text.isWordChar = true)
    ⟨fun ⟨h, h'⟩ => ⟨h, List.all_eq_true.mp h'⟩, fun ⟨h, h'⟩ => ⟨h, List.all_eq_true.mpr h'⟩⟩

instance : Decidable (IdentifierText s) :=
  decidable_of_iff (s.head?.any Text.isIdentStart = true ∧ s.tail.all Text.isWordChar = true)
    ⟨fun ⟨h, h'⟩ => ⟨h, List.all_eq_true.mp h'⟩, fun ⟨h, h'⟩ => ⟨h, List.all_eq_true.mpr h'⟩⟩

instance : Decidable (PatternText s) :=
  decidable_of_iff (s ≠ [] ∧ s.all isPatternChar = true ∧ '"' ∉ s ∧ '\'' ∉ s)
    ⟨fun ⟨h₁, h₂, h₃, h₄⟩ => ⟨h₁, List.all_eq_true.mp h₂, h₃, h₄⟩,
      fun ⟨h₁, h₂, h₃, h₄⟩ => ⟨h₁, List.all_eq_true.mpr h₂, h₃, h₄⟩⟩

instance : Decidable (ValueText s) :=
  decidable_of_iff (Text.Unbroken s ∧ '"' ∉ s) ⟨fun ⟨h, h'⟩ => ⟨h, h'⟩, fun ⟨h, h'⟩ => ⟨h, h'⟩⟩

end Decidable

/-! ## 3. Where a statement starts -/

/-- A line that starts a statement, whatever block it stands in. -/
structure Starts (line : Line) : Prop where
  goesOn : ∀ kind, endingOf? kind line = none
  seen : isSkipped line = false

theorem starts_of {line : Line} (hne : line ≠ []) (hcomment : Text.startsWith ['#'] line = false)
    (hkeyword : ∀ keyword ∈ ["else", "elif", "fi", "done", "esac"], line ≠ keyword.toList)
    (helif : Text.startsWith "elif ".toList line = false)
    (hend : Text.dropEnd? ";;".toList line = none) : Starts line := by
  refine ⟨fun kind => ?_, ?_⟩
  · have helse := hkeyword "else" (by decide)
    have hfi := hkeyword "fi" (by decide)
    cases kind with
    | body => rfl
    | thenBlock =>
      unfold endingOf?
      dsimp only
      rw [if_neg helse, if_neg hfi, helif,
        if_neg (by simpa using hkeyword "elif" (by decide))]
    | elseBlock => exact if_neg hfi
    | arm =>
      unfold endingOf?
      dsimp only
      rw [hend]
      exact if_neg (hkeyword "esac" (by decide))
    | loopBody => exact if_neg (hkeyword "done" (by decide))
  · unfold isSkipped
    rw [hcomment, List.isEmpty_eq_false_iff.mpr hne]
    rfl

/-- **A command starts a statement.** -/
theorem CommandText.starts {s : List Char} (h : CommandText s) : Starts s :=
  starts_of h.tidy.nonempty h.noComment h.noKeyword (h.noOpener "elif " (by decide)) h.noArmEnd

/-- **Whether a line starts a statement can be seen from its first two characters and its last.** -/
theorem starts_of_ends {a b d : Char} {rest : Line}
    (hstart : (a, b) ∉ [('e', 'l'), ('f', 'i'), ('d', 'o'), ('e', 's')]) (hcomment : a ≠ '#')
    (hlast : (a :: b :: rest).getLast? = some d) (hd : d ≠ ';') : Starts (a :: b :: rest) := by
  have hdiffer : ∀ {x y : Char} {other : List Char},
      (x, y) ∈ [('e', 'l'), ('f', 'i'), ('d', 'o'), ('e', 's')] →
        a :: b :: rest ≠ x :: y :: other := by
    rintro x y other hxy ⟨⟩
    exact hstart hxy
  refine starts_of (List.cons_ne_nil _ _) ?_ ?_ ?_ (dropEnd?_of_last rfl hlast hd.symm)
  · simp [Text.startsWith, Text.dropStart?, hcomment.symm]
  · intro keyword hk
    simp only [List.mem_cons, List.not_mem_nil, or_false] at hk
    rcases hk with rfl | rfl | rfl | rfl | rfl
    · exact hdiffer (by decide)
    · exact hdiffer (by decide)
    · exact hdiffer (by decide)
    · exact hdiffer (by decide)
    · exact hdiffer (by decide)
  · cases hs : Text.startsWith "elif ".toList (a :: b :: rest) with
    | false => rfl
    | true =>
      obtain ⟨r, hr⟩ := Option.isSome_iff_exists.mp hs
      exact absurd (Text.dropStart?_eq_some_iff.mp hr) (hdiffer (by decide))

/-! ## 4. First lines of compounds -/

/-- A text whose line a keyword closes; if not, the keyword has a line of its own. -/
def closedBy (keyword : List Char) (alone : Bool) (s : List Char) : List Char :=
  if alone then s else s ++ (';' :: ' ' :: keyword)

/-- The line of such a keyword, if it has one of its own. -/
def ownLine (keyword : List Char) (alone : Bool) : List Line := if alone then [keyword] else []

/-- The first line of a conditional, or of a further condition: the keyword, the condition and perhaps
`then`. -/
def conditionalLine (further alone : Bool) (c : List Char) : Line :=
  (if further then "elif ".toList else "if ".toList) ++ closedBy "then".toList alone c

/-- The first line of a loop by a condition. -/
def whileLine (alone : Bool) (c : List Char) : Line :=
  "while ".toList ++ closedBy "do".toList alone c

/-- The first line of a loop over items. -/
def forLine (alone : Bool) (v items : List Char) : Line :=
  "for ".toList ++ (v ++ (" in ".toList ++ closedBy "do".toList alone items))

/-- The first line of a choice. -/
def caseLine (v : List Char) : Line := "case \"$".toList ++ (v ++ "\" in".toList)

theorem getLast?_closedBy {keyword s : List Char} {e : Char} (h : keyword.getLast? = some e)
    (front : List Char) : (front ++ closedBy keyword false s).getLast? = some e := by
  have hclosed : front ++ closedBy keyword false s = (front ++ (s ++ "; ".toList)) ++ keyword := by
    simp [closedBy]
  rw [hclosed, List.getLast?_append, h]
  rfl

theorem tidy_closedBy (keyword : List Char) {s : List Char} (h : ConditionText s)
    (hk : Text.Tidy keyword) (alone : Bool) : Text.Tidy (closedBy keyword alone s) := by
  cases alone with
  | true => exact h.tidy
  | false => exact h.tidy.append (m := "; ".toList) (by decide) hk

/-- The keywords that close the first line of a compound end as no closing keyword does. -/
theorem last_of_inner {keyword : List Char} (hk : keyword ∈ ["then".toList, "do".toList]) :
    ∃ e, keyword.getLast? = some e ∧ e ≠ ';' ∧ e ≠ 'i' ∧ e ≠ 'e' := by
  simp only [List.mem_cons, List.not_mem_nil, or_false] at hk
  rcases hk with rfl | rfl
  · exact ⟨'n', rfl, by decide⟩
  · exact ⟨'o', rfl, by decide⟩

section Header
variable (keyword : List Char) {s : List Char} (h : ConditionText s)
  (hk : keyword ∈ ["then".toList, "do".toList]) (alone : Bool) (front : List Char)
include h hk

/-- The first line of a compound ends in no semicolon. -/
theorem closedBy_last :
    ∃ d, (front ++ closedBy keyword alone s).getLast? = some d ∧ d ≠ ';' := by
  obtain ⟨e, he, hsemicolon, -⟩ := last_of_inner hk
  cases alone with
  | true =>
    obtain ⟨d, hd, -⟩ := h.tidy.exists_last
    refine ⟨d, (List.getLast?_append_of_ne_nil _ h.tidy.nonempty).trans hd, ?_⟩
    rintro rfl
    exact h.noSemicolon (List.mem_of_getLast? hd)
  | false => exact ⟨e, (getLast?_closedBy he front), hsemicolon⟩

/-- The first line of a compound does not close it. -/
theorem closedBy_unclosed (hfront : ';' ∉ front) : Unclosed (front ++ closedBy keyword alone s) := by
  obtain ⟨e, he, -, hi, hne⟩ := last_of_inner hk
  cases alone with
  | true => exact .inl fun hm => (List.mem_append.mp hm).elim hfront h.noSemicolon
  | false => exact .inr ⟨e, getLast?_closedBy he front, hi, hne⟩

end Header

/-! ### Conditionals -/

theorem inlineCondition?_conditionalLine {c : List Char} (h : ConditionText c) :
    inlineCondition? (conditionalLine false false c) = some c := by
  have hclosing : beforeClosing? "then".toList (' ' :: closedBy "then".toList false c) =
      some (' ' :: c) := beforeClosing?_append "then".toList (' ' :: c)
  have hkept : trimKeepingOne c = c := trimKeepingOne_of_trim h.tidy.trimmed h.tidy.nonempty
  show ((beforeClosing? "then".toList (' ' :: closedBy "then".toList false c)).bind _) = some c
  rw [hclosing]
  show (if Text.isBlank ' ' && !c.isEmpty then some (trimKeepingOne c) else none) = some c
  rw [hkept, List.isEmpty_eq_false_iff.mpr h.tidy.nonempty]
  rfl

/-- **The condition of a printed conditional**, and its `then`, if that has a line of its own. -/
theorem conditionOf_conditionalLine {c : List Char} (h : ConditionText c) (alone : Bool) :
    conditionOf (conditionalLine false alone c) = (c, ownLine "then".toList alone) := by
  unfold conditionOf
  cases alone with
  | true =>
    have hnone : inlineCondition? (conditionalLine false true c) = none := by
      show ((beforeClosing? "then".toList (' ' :: c)).bind _) = none
      rw [beforeClosing?_of_not_mem]
      · rfl
      · simpa using h.noSemicolon
    rw [hnone]
    exact Prod.ext h.tidy.trimmed rfl
  | false =>
    rw [inlineCondition?_conditionalLine h]
    rfl

theorem tidy_conditionalLine {c : List Char} (h : ConditionText c) (further alone : Bool) :
    Text.Tidy (conditionalLine further alone c) := by
  have hclosed := tidy_closedBy "then".toList h (by decide) alone
  cases further with
  | true => exact Text.Tidy.append (a := "elif".toList) (m := [' ']) (by decide) (by decide) hclosed
  | false => exact Text.Tidy.append (a := "if".toList) (m := [' ']) (by decide) (by decide) hclosed

theorem openerOf_conditionalLine {c : List Char} (h : ConditionText c) (alone : Bool) :
    openerOf (conditionalLine false alone c) = .conditional := by
  have hone : isOneLine (conditionalLine false alone c) = false :=
    (closedBy_unclosed _ h (by decide) alone _ (by decide)).isOneLine_eq_false (.inl rfl)
  unfold openerOf
  rw [hone]
  rfl

theorem starts_conditionalLine {c : List Char} (h : ConditionText c) (alone : Bool) :
    Starts (conditionalLine false alone c) := by
  obtain ⟨d, hd, hne⟩ := closedBy_last "then".toList h (by decide) alone "if ".toList
  exact starts_of_ends (by decide) (by decide) hd hne

/-- **A further condition goes on with a conditional of its own.** -/
theorem endingOf?_elif (alone : Bool) (c : List Char) :
    endingOf? .thenBlock (conditionalLine true alone c) =
      some (.otherwiseIf (conditionalLine false alone c)) := by
  unfold endingOf?
  dsimp only
  rw [if_neg (by simp [conditionalLine]), if_neg (by simp [conditionalLine]), if_pos]
  · rfl
  · exact Bool.or_eq_true_iff.mpr (.inr rfl)

/-! ### Loops -/

theorem loopHead_closedBy {s : List Char} (h : ConditionText s) (alone : Bool) :
    loopHead (closedBy "do".toList alone s) = (s, !alone) := by
  unfold loopHead
  cases alone with
  | true =>
    have hclosed : closedBy "do".toList true s = s := rfl
    rw [hclosed, beforeClosing?_of_not_mem h.noSemicolon]
    rfl
  | false =>
    have hclosing : beforeClosing? "do".toList (closedBy "do".toList false s) = some s :=
      beforeClosing?_append "do".toList s
    rw [hclosing]
    cases s with
    | nil => exact absurd rfl h.tidy.nonempty
    | cons c rest =>
      show (Text.trimRight (c :: rest), true) = _
      rw [h.tidy.trimRight]
      rfl

theorem tidy_whileLine {c : List Char} (h : ConditionText c) (alone : Bool) :
    Text.Tidy (whileLine alone c) :=
  Text.Tidy.append (a := "while".toList) (m := [' ']) (by decide) (by decide)
    (tidy_closedBy "do".toList h (by decide) alone)

theorem openerOf_whileLine {c : List Char} (h : ConditionText c) (alone : Bool) :
    openerOf (whileLine alone c) = .whileLoop := by
  have hone : isOneLine (whileLine alone c) = false :=
    (closedBy_unclosed _ h (by decide) alone _ (by decide)).isOneLine_eq_false (.inl rfl)
  unfold openerOf
  rw [hone]
  rfl

theorem starts_whileLine {c : List Char} (h : ConditionText c) (alone : Bool) :
    Starts (whileLine alone c) := by
  obtain ⟨d, hd, hne⟩ := closedBy_last "do".toList h (by decide) alone "while ".toList
  exact starts_of_ends (by decide) (by decide) hd hne

/-- **The condition of a printed loop.** -/
theorem whileHead?_whileLine {c : List Char} (h : ConditionText c) (alone : Bool) :
    whileHead? (whileLine alone c) = some (c, !alone) := by
  have tidy := tidy_closedBy "do".toList h (by decide) alone
  show ((Text.skipBlanks? (' ' :: closedBy "do".toList alone c)).bind _) = _
  rw [Text.skipBlanks?_space tidy.head]
  show (if (closedBy "do".toList alone c).isEmpty then none else some (loopHead _)) = _
  rw [List.isEmpty_eq_false_iff.mpr tidy.nonempty, loopHead_closedBy h]
  rfl

theorem NameText.tidy {v : List Char} (h : NameText v) : Text.Tidy v :=
  Text.tidy_of_no_blank h.nonempty fun c hc => Text.isBlank_of_isWordChar (h.word c hc)

theorem NameText.noSemicolon {v : List Char} (h : NameText v) : ';' ∉ v :=
  fun hm => absurd (h.word _ hm) (by decide)

/-- A name is taken up to the character behind it. -/
theorem takeName?_append {v rest : List Char} {c : Char} (h : NameText v)
    (hc : Text.isWordChar c = false) : takeName? (v ++ c :: rest) = some (v, c :: rest) := by
  unfold takeName?
  rw [List.takeWhile_append_of_pos h.word, List.takeWhile_cons_of_neg (by simp [hc]),
    List.dropWhile_append_of_pos h.word, List.dropWhile_cons_of_neg (by simp [hc]), List.append_nil]
  cases v with
  | nil => exact absurd rfl h.nonempty
  | cons _ _ => rfl

theorem forLine_eq (alone : Bool) (v items : List Char) : forLine alone v items =
    ("for ".toList ++ (v ++ " in ".toList)) ++ closedBy "do".toList alone items := by
  simp [forLine]

section ForLoop
variable {v items : List Char} (hv : NameText v) (h : ConditionText items) (alone : Bool)
include hv h

theorem tidy_forLine : Text.Tidy (forLine alone v items) := by
  have hmiddle : Text.Unbroken (' ' :: (v ++ " in ".toList)) :=
    Text.Unbroken.append (a := [' ']) (by decide) (hv.tidy.unbroken.append (by decide))
  have hline : forLine alone v items =
      "for".toList ++ (' ' :: (v ++ " in ".toList) ++ closedBy "do".toList alone items) := by
    simp [forLine]
  rw [hline]
  exact Text.Tidy.append (by decide) hmiddle (tidy_closedBy "do".toList h (by decide) alone)

theorem openerOf_forLine : openerOf (forLine alone v items) = .forLoop := by
  have hfront : ';' ∉ "for ".toList ++ (v ++ " in ".toList) := by
    simpa using hv.noSemicolon
  have hone : isOneLine (forLine alone v items) = false := by
    rw [forLine_eq]
    exact (closedBy_unclosed _ h (by decide) alone _ hfront).isOneLine_eq_false (.inl rfl)
  unfold openerOf
  rw [hone]
  rfl

omit hv in
theorem starts_forLine : Starts (forLine alone v items) := by
  obtain ⟨d, hd, hne⟩ := closedBy_last "do".toList h (by decide) alone
    ("for ".toList ++ (v ++ " in ".toList))
  rw [← forLine_eq] at hd
  exact starts_of_ends (by decide) (by decide) hd hne

/-- **The variable and the items of a printed loop.** -/
theorem forHead?_forLine : forHead? (forLine alone v items) = some (v, items, !alone) := by
  have tidy := tidy_closedBy "do".toList h (by decide) alone
  have hname : ∀ c ∈ (v ++ (" in ".toList ++ closedBy "do".toList alone items)).head?,
      Text.isBlank c = false := by
    rw [List.head?_append_of_ne_nil _ hv.nonempty]
    exact hv.tidy.head
  show ((Text.skipBlanks? (' ' :: (v ++ (" in ".toList ++ closedBy "do".toList alone items)))).bind
    _) = _
  rw [Text.skipBlanks?_space hname]
  show ((takeName? (v ++ ' ' :: ("in ".toList ++ closedBy "do".toList alone items))).bind _) = _
  rw [takeName?_append hv (by decide)]
  have hitems : ((Text.skipBlanks? (' ' :: ("in ".toList ++ closedBy "do".toList alone items))).bind
      fun r => (Text.dropStart? "in".toList r).bind Text.skipBlanks?) =
      some (closedBy "do".toList alone items) := Text.skipBlanks?_space tidy.head
  dsimp only [Option.bind_some]
  rw [hitems]
  show (if (closedBy "do".toList alone items).isEmpty then none else some (v, loopHead _)) = _
  rw [List.isEmpty_eq_false_iff.mpr tidy.nonempty, loopHead_closedBy h]
  rfl

end ForLoop

/-! ### Choices -/

theorem getLast?_caseLine (v : List Char) : (caseLine v).getLast? = some 'n' := by
  unfold caseLine
  rw [List.getLast?_append_of_ne_nil _ (by simp), List.getLast?_append_of_ne_nil _ (by simp)]
  rfl

theorem tidy_caseLine {v : List Char} (h : NameText v) : Text.Tidy (caseLine v) := by
  have hmiddle : Text.Unbroken (" \"$".toList ++ (v ++ "\" ".toList)) :=
    Text.Unbroken.append (by decide) (h.tidy.unbroken.append (by decide))
  have hline : caseLine v =
      "case".toList ++ (" \"$".toList ++ (v ++ "\" ".toList) ++ "in".toList) := by
    rw [List.append_assoc, List.append_assoc]
    rfl
  rw [hline]
  exact Text.Tidy.append (by decide) hmiddle (by decide)

theorem openerOf_caseLine (v : List Char) : openerOf (caseLine v) = .choice := by
  have hlast := getLast?_caseLine v
  have hunclosed : Unclosed (caseLine v) := .inr ⟨'n', hlast, by decide, by decide⟩
  have hone : isOneLine (caseLine v) = false :=
    hunclosed.isOneLine_eq_false (.inr ⟨'n', hlast, by decide⟩)
  unfold openerOf
  rw [hone]
  rfl

theorem starts_caseLine (v : List Char) : Starts (caseLine v) :=
  starts_of_ends (by decide) (by decide) (getLast?_caseLine v) (by decide)

theorem dropOptional_of_head {c : Char} {s : List Char} (h : ∀ d ∈ s.head?, d ≠ c) :
    dropOptional c s = s := by
  cases s with
  | nil => rfl
  | cons d s => exact if_neg (h d rfl)

/-- **The variable of a printed choice.** -/
theorem caseSelector?_caseLine {v : List Char} (h : NameText v) :
    caseSelector? (caseLine v) = some v := by
  have hbrace : dropOptional '\x7b' (v ++ '"' :: " in".toList) = v ++ '"' :: " in".toList := by
    refine dropOptional_of_head fun d hd => ?_
    rw [List.head?_append_of_ne_nil _ h.nonempty] at hd
    rintro rfl
    exact absurd (h.word _ (List.mem_of_mem_head? hd)) (by decide)
  show ((takeName? (dropOptional '\x7b' (v ++ '"' :: " in".toList))).bind _) = _
  rw [hbrace, takeName?_append h (by decide)]
  rfl

/-! ## 5. Lines of arms -/

/-- The head of an arm. -/
def armLine (p : List Char) : Line := p ++ [')']

/-- A command with the end of its arm behind it. -/
def lastCommandLine (text : List Char) : Line := text ++ " ;;".toList

/-- An arm on one line. -/
def inlineArmLine (p text : List Char) : Line := p ++ (") ".toList ++ lastCommandLine text)

theorem armLine_ne_esac (p : List Char) : armLine p ≠ "esac".toList := by
  intro h
  have hmem : ')' ∈ armLine p := by simp [armLine]
  rw [h] at hmem
  exact absurd hmem (by decide)

theorem inlineArmLine_ne_esac (p text : List Char) : inlineArmLine p text ≠ "esac".toList := by
  intro h
  have hmem : ')' ∈ inlineArmLine p text := by simp [inlineArmLine]
  rw [h] at hmem
  exact absurd hmem (by decide)

theorem PatternText.tidy {p : List Char} (h : PatternText p) : Text.Tidy p := by
  refine Text.tidy_of_no_blank h.nonempty fun c hc => ?_
  have hchar := h.char c hc
  unfold isPatternChar at hchar
  simp only [Bool.and_eq_true, Bool.not_eq_true'] at hchar
  exact hchar.1.1

theorem tidy_armLine {p : List Char} (h : PatternText p) : Text.Tidy (armLine p) :=
  h.tidy.append (m := []) (by decide) (b := [')']) (by decide)

theorem tidy_lastCommandLine {text : List Char} (h : CommandText text) :
    Text.Tidy (lastCommandLine text) :=
  h.tidy.append (m := [' ']) (by decide) (b := ";;".toList) (by decide)

theorem tidy_inlineArmLine {p text : List Char} (h : PatternText p) (ht : CommandText text) :
    Text.Tidy (inlineArmLine p text) :=
  h.tidy.append (by decide) (tidy_lastCommandLine ht)

/-- A pattern stands in no quotes. -/
theorem unquote_pattern {p : List Char} (h : PatternText p) : unquote p = p := by
  unfold unquote
  rw [h.tidy.trimmed]
  cases p with
  | nil => rfl
  | cons q rest =>
    have hdouble : q ≠ '"' := by
      rintro rfl
      exact h.noDoubleQuote List.mem_cons_self
    have hsingle : q ≠ '\'' := by
      rintro rfl
      exact h.noSingleQuote List.mem_cons_self
    exact if_neg (by simp [hdouble, hsingle])

section Arm
variable {p : List Char} (h : PatternText p)
include h

theorem takeWhile_pattern (rest : List Char) :
    (p ++ ')' :: rest).takeWhile isPatternChar = p ∧
      (p ++ ')' :: rest).dropWhile isPatternChar = ')' :: rest := by
  rw [List.takeWhile_append_of_pos h.char, List.dropWhile_append_of_pos h.char]
  exact ⟨List.append_nil p, rfl⟩

theorem inlineArm?_armLine : inlineArm? (armLine p) = none := by
  unfold inlineArm? armLine
  obtain ⟨htake, hdrop⟩ := takeWhile_pattern h []
  rw [htake, hdrop]
  cases p with
  | nil => rfl
  | cons _ _ => rfl

/-- **A printed arm on one line is recognised.** -/
theorem inlineArm?_inlineArmLine {text : List Char} (ht : CommandText text) :
    inlineArm? (inlineArmLine p text) = some (p, text) := by
  have hline : inlineArmLine p text = p ++ ')' :: (' ' :: (text ++ [' ']) ++ ";;".toList) := by
    simp [inlineArmLine, lastCommandLine]
  have hkept : trimKeepingOne (' ' :: (text ++ [' '])) = text :=
    trimKeepingOne_of_trim (ht.tidy.trim_between (a := [' ']) (by decide) (by decide))
      ht.tidy.nonempty
  obtain ⟨htake, hdrop⟩ := takeWhile_pattern h (' ' :: (text ++ [' ']) ++ ";;".toList)
  unfold inlineArm?
  rw [hline, htake, hdrop]
  cases p with
  | nil => exact absurd rfl h.nonempty
  | cons c p =>
    have hend : Text.dropEnd? ";;".toList (' ' :: (text ++ [' ']) ++ ";;".toList) =
        some (' ' :: (text ++ [' '])) := Text.dropEnd?_append _ _
    simp only [hend, hkept]

end Arm

theorem endingOf?_arm (text : List Char) :
    endingOf? .arm (text ++ ";;".toList) = some (.armEnd (Text.trim text)) := by
  unfold endingOf?
  dsimp only
  rw [Text.dropEnd?_append]

/-- **A command may stand on the line that ends its arm.** -/
theorem endingOf?_lastCommandLine {text : List Char} (h : CommandText text) :
    endingOf? .arm (lastCommandLine text) = some (.armEnd text) := by
  have hline : lastCommandLine text = (text ++ [' ']) ++ ";;".toList := by simp [lastCommandLine]
  have htrim : Text.trim (text ++ [' ']) = text :=
    h.tidy.trim_between (a := []) rfl (by decide)
  rw [hline, endingOf?_arm, htrim]

/-! ## 6. Simple statements -/

/-- An assignment of a value in quotes. -/
def assignmentLine (name value : List Char) : Line := name ++ ("=\"".toList ++ (value ++ ['"']))

/-- An assignment of a value in quotes of either kind. -/
def quotedLine (q : Char) (name value : List Char) : Line := name ++ '=' :: q :: (value ++ [q])

theorem assignmentLine_eq (name value : List Char) :
    assignmentLine name value = quotedLine '"' name value := rfl

/-- A declaration of a name or of an assignment. -/
def localLine (declared : List Char) : Line := "local ".toList ++ declared

/-- A line that starts with no keyword and closes no compound is a simple statement. -/
theorem openerOf_simple {line : Line} (hone : isOneLine line = false)
    (h : ∀ opener ∈ ["if ", "case ", "for ", "while "], Text.startsWith opener.toList line = false) :
    openerOf line = .simple := by
  unfold openerOf
  rw [hone, h "if " (by decide), h "case " (by decide), h "for " (by decide), h "while " (by decide)]
  rfl

theorem openerOf_command {text : List Char} (h : CommandText text) : openerOf text = .simple := by
  refine openerOf_simple h.noCompound fun opener ho => h.noOpener opener ?_
  simp only [List.mem_cons, List.not_mem_nil, or_false] at ho ⊢
  tauto

theorem dropStart?_eq_none {start s : List Char} (h : Text.startsWith start s = false) :
    Text.dropStart? start s = none :=
  Option.not_isSome_iff_eq_none.mp (by simpa [Text.startsWith] using h)

/-- **A printed command is a command.** -/
theorem simpleStatement_command {text : String} (h : CommandText text.toList) :
    simpleStatement text.toList = .command text := by
  unfold simpleStatement
  rw [dropStart?_eq_none (h.noOpener "local " (by decide))]
  dsimp only
  rw [h.noAssignment, String.ofList_toList]

theorem getLast?_quotedLine (front : List Char) (q : Char) (name value : List Char) :
    (front ++ quotedLine q name value).getLast? = some q := by
  have hline : front ++ quotedLine q name value =
      (front ++ name ++ '=' :: q :: value) ++ [q] := by simp [quotedLine]
  rw [hline, List.getLast?_append_of_ne_nil _ (List.cons_ne_nil _ _)]
  rfl

section Quotes
variable {q : Char} (hq : q = '"' ∨ q = '\'')
include hq

theorem isOneLine_quotedLine (front name value : List Char) :
    isOneLine (front ++ quotedLine q name value) = false := by
  have hlast := getLast?_quotedLine front q name value
  have hother : q ≠ 'i' ∧ q ≠ 'e' ∧ q ≠ 'c' := by rcases hq with rfl | rfl <;> decide
  have hunclosed : Unclosed (front ++ quotedLine q name value) :=
    .inr ⟨q, hlast, hother.1, hother.2.1⟩
  exact hunclosed.isOneLine_eq_false (.inr ⟨q, hlast, hother.2.2⟩)

theorem tidy_quote : Text.Tidy [q] := by
  rcases hq with rfl | rfl <;> decide

/-- A quoted value without its quotes is the value. -/
theorem unquote_quoted {value : List Char} (h : Text.Unbroken value) :
    unquote (q :: (value ++ [q])) = value := by
  have htrim : Text.trim (q :: (value ++ [q])) = q :: (value ++ [q]) :=
    ((tidy_quote hq).append h (tidy_quote hq)).trimmed
  unfold unquote
  rw [htrim]
  dsimp only
  rw [if_pos (by simpa using hq), Text.dropEnd?_append]

end Quotes

theorem isQuotedBy_quoted {q : Char} {value : List Char} (h : q ∉ value) :
    isQuotedBy q (q :: (value ++ [q])) = true := by
  unfold isQuotedBy
  dsimp only
  rw [Text.dropEnd?_append]
  simpa using h

theorem IdentifierText.exists_start {name : List Char} (h : IdentifierText name) :
    ∃ c rest, name = c :: rest ∧ Text.isIdentStart c = true := by
  cases name with
  | nil => exact absurd h.start (by simp)
  | cons c rest => exact ⟨c, rest, rfl, by simpa using h.start⟩

theorem IdentifierText.nameText {name : List Char} (h : IdentifierText name) : NameText name := by
  obtain ⟨c, rest, rfl, hc⟩ := h.exists_start
  exact ⟨List.cons_ne_nil _ _,
    List.forall_mem_cons.mpr ⟨Text.isWordChar_of_isIdentStart hc, h.word⟩⟩

/-- A name with an equals sign behind it starts with no keyword. -/
theorem startsWith_quotedLine (word : List Char) {name : List Char} (hn : IdentifierText name)
    (hw : word.all Text.isWordChar = true) (q : Char) (value : List Char) :
    Text.startsWith (word ++ [' ']) (quotedLine q name value) = false := by
  cases hs : Text.startsWith (word ++ [' ']) (quotedLine q name value) with
  | false => rfl
  | true =>
    obtain ⟨r, hr⟩ := Option.isSome_iff_exists.mp hs
    rw [Text.dropStart?_eq_some_iff, List.append_assoc] at hr
    -- the first character that is none of a word: an equals sign, or a blank
    have hdrop := congrArg (List.dropWhile Text.isWordChar) hr
    unfold quotedLine at hdrop
    rw [List.dropWhile_append_of_pos hn.nameText.word,
      List.dropWhile_append_of_pos (List.all_eq_true.mp hw)] at hdrop
    cases hdrop

section Assignment
variable {name : List Char} (hn : IdentifierText name) {q : Char} (hq : q = '"' ∨ q = '\'')
include hn hq

theorem starts_quotedLine (value : List Char) : Starts (quotedLine q name value) := by
  obtain ⟨c, rest, rfl, hc⟩ := hn.exists_start
  have hlast := getLast?_quotedLine [] q (c :: rest) value
  have hend : ';' ≠ q := by rcases hq with rfl | rfl <;> decide
  refine starts_of (List.cons_ne_nil _ _) ?_ ?_ ?_ (dropEnd?_of_last rfl hlast hend)
  · have hhash : '#' ≠ c := by
      rintro rfl
      exact absurd hc (by decide)
    show (Text.dropStart? ['#'] (c :: _)).isSome = false
    rw [Text.dropStart?, if_neg hhash]
    rfl
  · intro keyword hk heq
    have hmem : '=' ∈ quotedLine q (c :: rest) value := by simp [quotedLine]
    have hno : ∀ keyword ∈ ["else", "elif", "fi", "done", "esac"], '=' ∉ keyword.toList := by decide
    exact hno keyword hk (heq ▸ hmem)
  · exact startsWith_quotedLine "elif".toList hn (by decide) q value

theorem openerOf_quotedLine (value : List Char) : openerOf (quotedLine q name value) = .simple := by
  refine openerOf_simple (isOneLine_quotedLine hq [] name value) fun opener ho => ?_
  simp only [List.mem_cons, List.not_mem_nil, or_false] at ho
  rcases ho with rfl | rfl | rfl | rfl
  · exact startsWith_quotedLine "if".toList hn (by decide) q value
  · exact startsWith_quotedLine "case".toList hn (by decide) q value
  · exact startsWith_quotedLine "for".toList hn (by decide) q value
  · exact startsWith_quotedLine "while".toList hn (by decide) q value

theorem tidy_quotedLine {value : List Char} (hv : Text.Unbroken value) :
    Text.Tidy (quotedLine q name value) := by
  have hmiddle : Text.Unbroken (['='] ++ ([q] ++ value)) :=
    Text.Unbroken.append (by decide) ((tidy_quote hq).unbroken.append hv)
  have hline : quotedLine q name value = name ++ ((['='] ++ ([q] ++ value)) ++ [q]) := by
    simp [quotedLine]
  rw [hline]
  exact hn.nameText.tidy.append hmiddle (tidy_quote hq)

variable {value : List Char} (hv : Text.Unbroken value)
include hv

theorem assignment?_quotedLine (hno : q ∉ value) :
    assignment? (quotedLine q name value) = some (name, value) := by
  obtain ⟨c, rest, rfl, hc⟩ := hn.exists_start
  have hword : ∀ d ∈ rest, Text.isWordChar d = true := hn.word
  have hquoted : (isQuotedBy '"' (q :: (value ++ [q])) || isQuotedBy '\'' (q :: (value ++ [q])) ||
      (q :: (value ++ [q])).all (!Text.isBlank ·)) = true := by
    rcases hq with rfl | rfl
    · rw [isQuotedBy_quoted hno, Bool.true_or, Bool.true_or]
    · rw [isQuotedBy_quoted hno, Bool.or_true, Bool.true_or]
  unfold assignment? quotedLine
  rw [List.cons_append]
  dsimp only
  rw [if_pos hc, List.dropWhile_append_of_pos hword, List.takeWhile_append_of_pos hword]
  show (if _ then some (c :: (rest ++ []), unquote (q :: (value ++ [q]))) else none) = _
  rw [if_pos hquoted, unquote_quoted hq hv, List.append_nil]

/-- **An assignment of a quoted value assigns the value to the name.** -/
theorem simpleStatement_quotedLine (hno : q ∉ value) :
    simpleStatement (quotedLine q name value) =
      .assignment (String.ofList name) (String.ofList value) false := by
  unfold simpleStatement
  have hlocal : Text.startsWith "local ".toList (quotedLine q name value) = false :=
    startsWith_quotedLine "local".toList hn (by decide) q value
  rw [dropStart?_eq_none hlocal]
  dsimp only
  rw [assignment?_quotedLine hn hq hv hno]

/-! ### Declarations -/

theorem localAssignment_quotedLine : localAssignment (quotedLine q name value) = (name, value) := by
  have hname : ∀ c ∈ name, decide (c ≠ '=') = true :=
    fun c hc => decide_eq_true fun he => absurd (hn.nameText.word c hc) (by rw [he]; decide)
  unfold localAssignment
  rw [(tidy_quotedLine hn hq hv).trimmed]
  unfold quotedLine
  dsimp only
  rw [List.dropWhile_append_of_pos hname, List.takeWhile_append_of_pos hname]
  show (Text.trim (name ++ []), unquote (q :: (value ++ [q]))) = _
  rw [List.append_nil, hn.nameText.tidy.trimmed, unquote_quoted hq hv]

/-- **A declaration of a quoted value declares it.** -/
theorem simpleStatement_localLine :
    simpleStatement (localLine (quotedLine q name value)) =
      .assignment (String.ofList name) (String.ofList value) true := by
  unfold simpleStatement localLine
  rw [Text.dropStart?_append]
  dsimp only
  rw [localAssignment_quotedLine hn hq hv]

end Assignment

section Name
variable {name : List Char} (hn : IdentifierText name)
include hn

/-- A name alone is declared with no value. -/
theorem localAssignment_name : localAssignment name = (name, []) := by
  have hname : name.dropWhile (· ≠ '=') = [] := List.dropWhile_eq_nil_iff.mpr
    fun c hc => decide_eq_true fun he => absurd (hn.nameText.word c hc) (by rw [he]; decide)
  unfold localAssignment
  rw [hn.nameText.tidy.trimmed]
  dsimp only
  rw [hname]

theorem simpleStatement_localLine_name :
    simpleStatement (localLine name) = .assignment (String.ofList name) "" true := by
  unfold simpleStatement localLine
  rw [Text.dropStart?_append]
  dsimp only
  rw [localAssignment_name hn]

end Name

theorem tidy_localLine {declared : List Char} (h : Text.Tidy declared) :
    Text.Tidy (localLine declared) :=
  Text.Tidy.append (a := "local".toList) (m := [' ']) (by decide) (by decide) h

theorem starts_localLine {declared : List Char} {d : Char} (hd : declared.getLast? = some d)
    (hne : d ≠ ';') : Starts (localLine declared) := by
  refine starts_of_ends (by decide) (by decide) (d := d) ?_ hne
  show ("local ".toList ++ declared).getLast? = some d
  rw [List.getLast?_append, hd]
  rfl

theorem openerOf_localLine {declared : List Char} (h : isOneLine (localLine declared) = false) :
    openerOf (localLine declared) = .simple := by
  refine openerOf_simple h fun opener ho => ?_
  simp only [List.mem_cons, List.not_mem_nil, or_false] at ho
  rcases ho with rfl | rfl | rfl | rfl <;> rfl

theorem isOneLine_localLine_name {name : List Char} (hn : IdentifierText name) :
    isOneLine (localLine name) = false := by
  refine Unclosed.isOneLine_eq_false (.inl fun hm => ?_) (.inl rfl)
  exact (List.mem_append.mp hm).elim (by decide) hn.nameText.noSemicolon

end Runbook.ShellFunction
