import Mathlib.Data.List.Infix
import Mathlib.Data.List.TakeWhile
import Runbook.Proofs.Text.Pieces
import Runbook.ShellFunction.Conversion

/-!
# The function that is taken out of a script

A definition is looked for at the starts of lines, and its text goes up to the first closing brace that
starts a line, whatever stands in between:

* `FunctionName`, `Heads`: names, and the headers of definitions; `bodyAt?_append`: behind a header there is
  what is read; `Heads.lastName_eq`: a header says one name;
* `UpToClosingLine`: the text in front of a closing brace that starts a line;
* `DefinedFunction`, `scriptOf`: definitions, and scripts made of them;
* `bodyAt?_within`: inside a definition no line starts with a header but its own, unless one of its body
  does;
* **`extractBody_takenOut`**: what is taken out of a script that defines each function once.
-/

namespace Runbook.ShellFunction

/-! ## 1. Headers -/

/-- Whether a character can stand in the name of a function. -/
def isFunctionNameChar (c : Char) : Bool :=
  !Text.isBlank c && !"()\x7b\x7d".toList.contains c

/-- The name of a function: at least one character, and not the start of a comment. -/
def FunctionName (name : List Char) : Prop :=
  name ≠ [] ∧ name.head? ≠ some '#' ∧ ∀ c ∈ name, isFunctionNameChar c = true

instance (name : List Char) : Decidable (FunctionName name) :=
  decidable_of_iff (name ≠ [] ∧ name.head? ≠ some '#' ∧ name.all isFunctionNameChar = true)
    (by rw [List.all_eq_true, FunctionName])

/-- What follows the name in the header of a definition, up to and with the opening brace: a pair of
parentheses, which may be left out, and blanks, line breaks among them. -/
inductive Opening : List Char → Prop
  | bare {before : List Char} (h : ∀ c ∈ before, Text.isBlank c = true) :
      Opening (before ++ ['\x7b'])
  | parenthesised {between before : List Char} (hb : ∀ c ∈ between, Text.isBlank c = true)
      (h : ∀ c ∈ before, Text.isBlank c = true) :
      Opening (between ++ ("()".toList ++ (before ++ ['\x7b'])))

/-- The header of a definition of a name, with or without the keyword `function`. -/
inductive Heads (name : List Char) : List Char → Prop
  | plain {opening : List Char} (ho : Opening opening) : Heads name (name ++ opening)
  | keyword {blanks opening : List Char} (hne : blanks ≠ [])
      (hb : ∀ c ∈ blanks, Text.isBlank c = true) (ho : Opening opening) :
      Heads name ("function".toList ++ (blanks ++ (name ++ opening)))

/-- A text starts with a header for the name. -/
def Opens (name s : List Char) : Prop := ∃ header rest, Heads name header ∧ s = header ++ rest

section Headers

variable {name header opening s rest body : List Char}

theorem trimLeft_append {blanks : List Char} (h : ∀ c ∈ blanks, Text.isBlank c = true)
    (s : List Char) : Text.trimLeft (blanks ++ s) = Text.trimLeft s :=
  List.dropWhile_append_of_pos h

theorem exists_trimLeft (s : List Char) :
    ∃ blanks, (∀ c ∈ blanks, Text.isBlank c = true) ∧ s = blanks ++ Text.trimLeft s :=
  ⟨s.takeWhile Text.isBlank, fun _ => List.mem_takeWhile_imp,
    (List.takeWhile_append_dropWhile ..).symm⟩

/-- **What is read behind a name is an opening and what follows it.** -/
theorem bodyBehindName?_eq_some (h : bodyBehindName? name s = some body) :
    ∃ opening rest, Opening opening ∧ s = name ++ (opening ++ rest) ∧
      untilClosingBrace? false rest = some body := by
  unfold bodyBehindName? at h
  cases hname : Text.dropStart? name s with
  | none => simp [hname] at h
  | some r =>
    rw [hname, Option.map_some] at h
    obtain rfl := Text.dropStart?_eq_some_iff.mp hname
    obtain ⟨between, hbetween, hr⟩ := exists_trimLeft r
    unfold dropParentheses at h
    cases hpar : Text.dropStart? "()".toList (Text.trimLeft r) with
    | none =>
      rw [hpar] at h
      dsimp only at h
      split at h
      · next rest hrest =>
        refine ⟨between ++ ['\x7b'], rest, .bare hbetween, ?_, h⟩
        rw [hr, Option.some.inj hrest]
        simp
      · cases h
    | some r' =>
      rw [hpar] at h
      dsimp only at h
      obtain ⟨before, hbefore, hr'⟩ := exists_trimLeft r'
      split at h
      · next rest hrest =>
        refine ⟨_, rest, .parenthesised hbetween hbefore, ?_, h⟩
        rw [hr, Text.dropStart?_eq_some_iff.mp hpar, hr', Option.some.inj hrest]
        simp
      · cases h

theorem bodyBehindName?_append (ho : Opening opening) (name rest : List Char) :
    bodyBehindName? name (name ++ (opening ++ rest)) = untilClosingBrace? false rest := by
  unfold bodyBehindName?
  rw [Text.dropStart?_append, Option.map_some]
  cases ho with
  | bare h =>
    rw [List.append_assoc, trimLeft_append h]
    rfl
  | parenthesised hb h =>
    rw [List.append_assoc, List.append_assoc, List.append_assoc, trimLeft_append hb]
    have hpar : ∀ t, dropParentheses (Text.trimLeft ("()".toList ++ t)) = Text.trimLeft t := by
      intro t
      rfl
    rw [hpar, trimLeft_append h]
    rfl

theorem mem_behindBlanks {r : List Char} : r ∈ behindBlanks s ↔
    ∃ blanks, blanks ≠ [] ∧ (∀ c ∈ blanks, Text.isBlank c = true) ∧ s = blanks ++ r := by
  induction s with
  | nil => simp [behindBlanks]
  | cons c s ih =>
    unfold behindBlanks
    constructor
    · intro h
      split at h
      · next hc =>
        rcases List.mem_append.mp h with h | h
        · obtain ⟨blanks, -, hblanks, rfl⟩ := ih.mp h
          exact ⟨c :: blanks, by simp, List.forall_mem_cons.mpr ⟨hc, hblanks⟩, rfl⟩
        · obtain rfl := List.mem_singleton.mp h
          exact ⟨[c], by simp, List.forall_mem_singleton.mpr hc, rfl⟩
      · cases h
    · rintro ⟨blanks, hne, hblanks, hs⟩
      cases blanks with
      | nil => exact absurd rfl hne
      | cons d blanks =>
        obtain ⟨rfl, rfl⟩ := List.cons.inj hs
        obtain ⟨hc, hrest⟩ := List.forall_mem_cons.mp hblanks
        rw [if_pos hc]
        cases blanks with
        | nil => exact List.mem_append_right _ (List.mem_singleton_self _)
        | cons d blanks =>
          exact List.mem_append_left _ (ih.mpr ⟨d :: blanks, by simp, hrest, rfl⟩)

/-- What is read where a line starts is a header and what follows it. -/
theorem bodyAt?_eq_some (h : bodyAt? name s = some body) :
    ∃ header rest, Heads name header ∧ s = header ++ rest ∧
      untilClosingBrace? false rest = some body := by
  have plain : bodyBehindName? name s = some body → ∃ header rest, Heads name header ∧
      s = header ++ rest ∧ untilClosingBrace? false rest = some body := fun h => by
    obtain ⟨opening, rest, ho, rfl, hbody⟩ := bodyBehindName?_eq_some h
    exact ⟨_, rest, .plain ho, (List.append_assoc ..).symm, hbody⟩
  unfold bodyAt? at h
  split at h
  · next r hr =>
    split at h
    · next b hb =>
      cases h
      obtain ⟨t, ht, hbody⟩ := List.exists_of_findSome?_eq_some hb
      obtain ⟨blanks, hne, hblanks, rfl⟩ := mem_behindBlanks.mp ht
      obtain ⟨opening, rest, ho, rfl, hrest⟩ := bodyBehindName?_eq_some hbody
      refine ⟨_, rest, .keyword hne hblanks ho, ?_, hrest⟩
      rw [Text.dropStart?_eq_some_iff.mp hr]
      simp
    · exact plain h
  · exact plain h

/-- An opening is made of blanks, parentheses and the brace at its end. -/
theorem Opening.cases (ho : Opening opening) : ∃ front, opening = front ++ ['\x7b'] ∧
    ∀ c ∈ front, Text.isBlank c = true ∨ c ∈ "()".toList := by
  cases ho with
  | @bare before h => exact ⟨before, rfl, fun c hc => Or.inl (h c hc)⟩
  | @parenthesised between before hb h =>
    refine ⟨between ++ ("()".toList ++ before), by simp, fun c hc => ?_⟩
    rcases List.mem_append.mp hc with hc | hc
    · exact Or.inl (hb c hc)
    · exact (List.mem_append.mp hc).symm.imp_left (h c)

/-- Neither a brace nor a character of a name stands in front of the brace of an opening. -/
theorem char_of_opening {c : Char} (hc : Text.isBlank c = true ∨ c ∈ "()".toList) :
    c ≠ '\x7b' ∧ c ≠ '\x7d' ∧ isFunctionNameChar c = false := by
  rcases hc with hc | hc
  · refine ⟨?_, ?_, by simp [isFunctionNameChar, hc]⟩
    · rintro rfl
      exact absurd hc (by decide)
    · rintro rfl
      exact absurd hc (by decide)
  · obtain rfl | rfl : c = '(' ∨ c = ')' := by simpa using hc
    · decide
    · decide

/-- A header has one brace, which is its last character. -/
theorem Heads.exists_front (hn : FunctionName name) (h : Heads name header) :
    ∃ front, header = front ++ ['\x7b'] ∧ '\x7b' ∉ front ∧ '\x7d' ∉ front := by
  have hname : ∀ {c}, isFunctionNameChar c = false → c ∉ name := fun hc hm => by
    simp [hn.2.2 _ hm] at hc
  have hopen : '\x7b' ∉ name := hname (by decide)
  have hclose : '\x7d' ∉ name := hname (by decide)
  cases h with
  | plain ho =>
    obtain ⟨front, rfl, hfront⟩ := ho.cases
    refine ⟨name ++ front, (List.append_assoc ..).symm, fun hm => ?_, fun hm => ?_⟩
    · exact (List.mem_append.mp hm).elim hopen fun hm => (char_of_opening (hfront _ hm)).1 rfl
    · exact (List.mem_append.mp hm).elim hclose fun hm => (char_of_opening (hfront _ hm)).2.1 rfl
  | @keyword blanks _ hne hb ho =>
    obtain ⟨front, rfl, hfront⟩ := ho.cases
    have hkeyword : '\x7b' ∉ "function".toList ∧ '\x7d' ∉ "function".toList := by decide
    have hchars : ∀ c ∈ "function".toList ++ (blanks ++ (name ++ front)),
        c ≠ '\x7b' ∧ c ≠ '\x7d' := by
      intro c hc
      rcases List.mem_append.mp hc with hc | hc
      · exact ⟨ne_of_mem_of_not_mem hc hkeyword.1, ne_of_mem_of_not_mem hc hkeyword.2⟩
      rcases List.mem_append.mp hc with hc | hc
      · exact ⟨(char_of_opening (Or.inl (hb c hc))).1, (char_of_opening (Or.inl (hb c hc))).2.1⟩
      rcases List.mem_append.mp hc with hc | hc
      · exact ⟨ne_of_mem_of_not_mem hc hopen, ne_of_mem_of_not_mem hc hclose⟩
      · exact ⟨(char_of_opening (hfront c hc)).1, (char_of_opening (hfront c hc)).2.1⟩
    exact ⟨_, by simp, fun hm => (hchars _ hm).1 rfl, fun hm => (hchars _ hm).2 rfl⟩

/-- A text is cut in one way at its first brace. -/
theorem cut_at_brace {front front' rest' : List Char} (hf : '\x7b' ∉ front) (hf' : '\x7b' ∉ front')
    (h : front ++ '\x7b' :: rest = front' ++ '\x7b' :: rest') : front = front' ∧ rest = rest' := by
  have cut : ∀ {front : List Char}, '\x7b' ∉ front → ∀ back,
      (front ++ '\x7b' :: back).takeWhile (· ≠ '\x7b') = front ∧
        (front ++ '\x7b' :: back).dropWhile (· ≠ '\x7b') = '\x7b' :: back := fun hf back =>
    Text.takeWhile_stop (fun d hd => decide_eq_true (ne_of_mem_of_not_mem hd hf)) (by simp)
  obtain ⟨ht, hd⟩ := cut hf rest
  obtain ⟨ht', hd'⟩ := cut hf' rest'
  rw [h] at ht hd
  exact ⟨ht.symm.trans ht', (List.cons.inj (hd.symm.trans hd')).2⟩

/-- **Headers at the start of one text are the same.** -/
theorem Heads.append_inj {other header' rest' : List Char} (hn : FunctionName name)
    (ho : FunctionName other) (h : Heads name header) (h' : Heads other header')
    (heq : header ++ rest = header' ++ rest') : header = header' ∧ rest = rest' := by
  obtain ⟨front, rfl, hfront, -⟩ := h.exists_front hn
  obtain ⟨front', rfl, hfront', -⟩ := h'.exists_front ho
  rw [List.append_assoc, List.append_assoc] at heq
  obtain ⟨rfl, hrest⟩ := cut_at_brace hfront hfront' heq
  exact ⟨rfl, hrest⟩

/-- **Behind a header there is what is read.** -/
theorem bodyAt?_append (hn : FunctionName name) (h : Heads name header) (rest : List Char) :
    bodyAt? name (header ++ rest) = untilClosingBrace? false rest := by
  have only : ∀ {b}, bodyAt? name (header ++ rest) = some b →
      untilClosingBrace? false rest = some b := by
    intro b hb
    obtain ⟨header', rest', h', heq, hbody⟩ := bodyAt?_eq_some hb
    rwa [(h.append_inj hn hn h' heq).2]
  cases hbody : untilClosingBrace? false rest with
  | none =>
    cases hb : bodyAt? name (header ++ rest) with
    | none => rfl
    | some b => rw [hbody] at only; cases only hb
  | some body =>
    obtain ⟨b, hb⟩ : ∃ b, bodyAt? name (header ++ rest) = some b := by
      cases h with
      | plain ho =>
        rw [List.append_assoc] at only ⊢
        unfold bodyAt?
        rw [bodyBehindName?_append ho, hbody]
        split
        · split <;> exact ⟨_, rfl⟩
        · exact ⟨_, rfl⟩
      | @keyword blanks opening hne hb ho =>
        unfold bodyAt?
        rw [List.append_assoc, Text.dropStart?_append, List.append_assoc, List.append_assoc]
        have hsome : ((behindBlanks (blanks ++ (name ++ (opening ++ rest)))).findSome?
            (bodyBehindName? name)).isSome := by
          rw [List.findSome?_isSome_iff]
          refine ⟨_, mem_behindBlanks.mpr ⟨blanks, hne, hb, rfl⟩, ?_⟩
          rw [bodyBehindName?_append ho, hbody]
          rfl
        obtain ⟨b, hfound⟩ := Option.isSome_iff_exists.mp hsome
        dsimp only
        rw [hfound]
        exact ⟨b, rfl⟩
    rw [hb, ← only hb, hbody]

/-- The last stretch of a text that can be a name. -/
def lastName (s : List Char) : List Char :=
  ((s.reverse.dropWhile (!isFunctionNameChar ·)).takeWhile isFunctionNameChar).reverse

/-- **A header says one name**: the last stretch that can be one, whatever stands in front of it. -/
theorem Heads.lastName_eq (hn : FunctionName name) (h : Heads name header) {front : List Char}
    (hf : ∀ c ∈ front.getLast?, isFunctionNameChar c = false) : lastName (front ++ header) = name := by
  -- in front of the name there is the keyword with blanks, or nothing but the text in front
  obtain ⟨keyword, opening, ho, rfl, hk⟩ : ∃ keyword opening, Opening opening ∧
      header = keyword ++ (name ++ opening) ∧
      ∀ c ∈ (front ++ keyword).getLast?, isFunctionNameChar c = false := by
    cases h with
    | plain ho => exact ⟨[], _, ho, rfl, by simpa using hf⟩
    | @keyword blanks opening hne hb ho =>
      refine ⟨"function".toList ++ blanks, opening, ho, (List.append_assoc ..).symm, fun c hc => ?_⟩
      rw [← List.append_assoc, List.getLast?_append_of_ne_nil _ hne] at hc
      simp [isFunctionNameChar, hb c (List.mem_of_getLast? hc)]
  have hnot : ∀ c ∈ opening, isFunctionNameChar c = false := by
    obtain ⟨last, rfl, hlast⟩ := ho.cases
    intro c hc
    rcases List.mem_append.mp hc with hc | hc
    · exact (char_of_opening (hlast c hc)).2.2
    · rw [List.mem_singleton.mp hc]
      decide
  have hdrop : (front ++ (keyword ++ (name ++ opening))).reverse.dropWhile
      (!isFunctionNameChar ·) = name.reverse ++ (front ++ keyword).reverse := by
    have hrev : (front ++ (keyword ++ (name ++ opening))).reverse =
        opening.reverse ++ (name.reverse ++ (front ++ keyword).reverse) := by simp
    rw [hrev]
    refine (Text.takeWhile_stop (fun d hd => ?_) fun d hd => ?_).2
    · simp [hnot d (List.mem_reverse.mp hd)]
    · rw [List.head?_append_of_ne_nil _ (by simpa using hn.1)] at hd
      simp [hn.2.2 d (List.mem_reverse.mp (List.mem_of_mem_head? hd))]
  unfold lastName
  rw [hdrop, (Text.takeWhile_stop (fun d hd => hn.2.2 d (List.mem_reverse.mp hd))
    fun d hd => hk d (by simpa using hd)).1, List.reverse_reverse]

/-- A header starts with no blank and not as a comment. -/
theorem Heads.head_cases (hn : FunctionName name) (h : Heads name header) :
    ∃ c, header.head? = some c ∧ Text.isBlank c = false ∧ c ≠ '#' := by
  cases h with
  | plain ho =>
    obtain ⟨hne, hhash, hchars⟩ := hn
    cases name with
    | nil => exact absurd rfl hne
    | cons c name =>
      have hc := hchars c List.mem_cons_self
      rw [isFunctionNameChar, Bool.and_eq_true, Bool.not_eq_true'] at hc
      exact ⟨c, rfl, hc.1, fun h => hhash (congrArg some h)⟩
  | keyword => exact ⟨'f', rfl, by decide, by decide⟩

theorem Heads.not_mem_closing (hn : FunctionName name) (h : Heads name header) :
    '\x7d' ∉ header := by
  obtain ⟨front, rfl, -, hfront⟩ := h.exists_front hn
  simp [hfront]

/-- A text that ends in front of a closing brace starts with a header only by itself. -/
theorem Opens.of_append (hn : FunctionName name) (h : Opens name (s ++ '\x7d' :: rest)) :
    Opens name s := by
  obtain ⟨header, rest', hh, heq⟩ := h
  rcases List.append_eq_append_iff.mp heq with ⟨more, rfl, hmore⟩ | ⟨more, rfl, hmore⟩
  · cases more with
    | nil => exact ⟨s, [], by simpa using hh, (List.append_nil s).symm⟩
    | cons c more =>
      obtain ⟨rfl, -⟩ := List.cons.inj hmore
      exact absurd (List.mem_append_right s List.mem_cons_self) (hh.not_mem_closing hn)
  · exact ⟨header, more, hh, rfl⟩

end Headers

/-! ## 2. Closing braces -/

/-- The text in front of the first closing brace that starts a line. -/
def UpToClosingLine (t s : List Char) : Prop :=
  ∃ more, s = t ++ '\x7d' :: more ∧ t.getLast? = some '\n' ∧ ¬ ['\n', '\x7d'] <:+: t

/-- What is found behind a character: the text up to the first closing brace behind a line feed. -/
theorem untilClosingBrace?_behind (before : Char) (s t : List Char) :
    untilClosingBrace? (before = '\n') s = some t ↔ ∃ more, s = t ++ '\x7d' :: more ∧
      (before :: t).getLast? = some '\n' ∧ ¬ ['\n', '\x7d'] <:+: before :: t := by
  induction s generalizing before t with
  | nil => simp [untilClosingBrace?]
  | cons c s ih =>
    unfold untilClosingBrace?
    by_cases hclosed : before = '\n' ∧ c = '\x7d'
    · obtain ⟨rfl, rfl⟩ := hclosed
      rw [if_pos (by simp)]
      constructor
      · rintro ⟨⟩
        exact ⟨s, rfl, rfl, fun h => absurd h.length_le (by simp)⟩
      · rintro ⟨more, hs, -, hno⟩
        cases t with
        | nil => rfl
        | cons d t =>
          obtain ⟨rfl, -⟩ := List.cons.inj hs
          exact absurd ⟨[], t, rfl⟩ hno
    · rw [if_neg (by simpa using hclosed), Option.map_eq_some_iff]
      constructor
      · rintro ⟨t, ht, rfl⟩
        obtain ⟨more, rfl, hlast, hno⟩ := (ih c t).mp ht
        refine ⟨more, rfl, by rwa [List.getLast?_cons_cons], fun h => ?_⟩
        rcases List.infix_cons_iff.mp h with h | h
        · obtain ⟨hbefore, h⟩ := List.cons_prefix_cons.mp h
          exact hclosed ⟨hbefore.symm, (List.cons_prefix_cons.mp h).1.symm⟩
        · exact hno h
      · rintro ⟨more, hs, hlast, hno⟩
        cases t with
        | nil =>
          obtain ⟨rfl, -⟩ := List.cons.inj hs
          exact absurd ⟨by simpa using hlast, rfl⟩ hclosed
        | cons d t =>
          obtain ⟨rfl, hrest⟩ := List.cons.inj hs
          rw [List.getLast?_cons_cons] at hlast
          exact ⟨t, (ih c t).mpr ⟨more, hrest, hlast, fun h => hno (List.infix_cons h)⟩, rfl⟩

theorem untilClosingBrace?_eq_some_iff {s t : List Char} :
    untilClosingBrace? false s = some t ↔ UpToClosingLine t s := by
  have h := untilClosingBrace?_behind ' ' s t
  rw [show decide (' ' = '\n') = false from by decide] at h
  rw [h]
  unfold UpToClosingLine
  refine exists_congr fun more => and_congr_right fun _ => and_congr ?_ (not_congr ?_)
  · cases t with
    | nil => decide
    | cons c t => rw [List.getLast?_cons_cons]
  · rw [List.infix_cons_iff, List.cons_prefix_cons]
    exact or_iff_right fun h => absurd h.1 (by decide)

/-! ## 3. Functions of a script -/

/-- A function as a script defines it: its header, the text between its braces, and what stands between
its closing brace and the next definition. The text between the braces either stands on one line with
them, or its closing brace is the first one that starts a line. Behind the line of the closing brace there
are only blank lines, indented ones and comments. -/
structure DefinedFunction where
  name : List Char
  header : List Char
  inner : List Char
  tail : List Char
  isName : FunctionName name
  heads : Heads name header
  closes : '\n' ∉ inner ∨ inner.getLast? = some '\n' ∧ ¬ ['\n', '\x7d'] <:+: inner
  behind : ∀ a b, tail = a ++ '\n' :: b → ∀ c ∈ b.head?, Text.isBlank c = true ∨ c = '#'

/-- The text of a definition, up to the next one. -/
def DefinedFunction.text (d : DefinedFunction) : List Char :=
  d.header ++ (d.inner ++ '\x7d' :: d.tail)

/-- A script: definitions one after another, each starting a line. -/
def scriptOf (ds : List DefinedFunction) : List Char :=
  ['\n'].intercalate (ds.map DefinedFunction.text)

/-- What follows a definition: nothing, or a line feed and the definitions behind it. -/
def following : List DefinedFunction → List Char
  | [] => []
  | d :: ds => '\n' :: scriptOf (d :: ds)

theorem scriptOf_cons (d : DefinedFunction) (ds : List DefinedFunction) :
    scriptOf (d :: ds) = d.text ++ following ds := by
  unfold scriptOf
  cases ds with
  | nil => simp [following]
  | cons e ds => simp [following, scriptOf, List.intercalate_cons_cons]

/-- A line of a text behind the first one starts with a header for the name. -/
def OpensWithin (name s : List Char) : Prop := ∃ a b, s = a ++ '\n' :: b ∧ Opens name b

/-- Whether a line starts behind a text, which starts a line itself or not. -/
def StartsLine (atLineStart : Bool) (s : List Char) : Prop :=
  match s.getLast? with
  | some c => c = '\n'
  | none => atLineStart = true

/-- What is searched for behind a text, of which `more` is left. -/
def bodyBehind? (name more : List Char) : Option (List Char) :=
  match more with
  | [] => none
  | c :: rest => bodyFrom? name (c = '\n') rest

/-- **A text of which no line starts with what is searched for is passed over.** -/
theorem bodyFrom?_append {name : List Char} {b : Bool} {s more : List Char}
    (h : ∀ a c, s = a ++ c → StartsLine b a → bodyAt? name (c ++ more) = none) :
    bodyFrom? name b (s ++ more) = bodyBehind? name more := by
  induction s generalizing b with
  | nil =>
    have hhere : (if b then bodyAt? name more else none) = none := by
      cases b with
      | false => rfl
      | true => exact h [] [] rfl rfl
    rw [List.nil_append]
    cases more <;> simp only [bodyFrom?, bodyBehind?, hhere]
  | cons x s ih =>
    have hhere : (if b then bodyAt? name (x :: s ++ more) else none) = none := by
      cases b with
      | false => rfl
      | true => exact h [] (x :: s) rfl rfl
    unfold bodyFrom?
    rw [hhere]
    refine ih fun a c hs hl => h (x :: a) c (congrArg (x :: ·) hs) ?_
    unfold StartsLine at hl ⊢
    cases a with
    | nil => simpa using hl
    | cons y a => rwa [List.getLast?_cons_cons]

section Search

variable {name : List Char} {d : DefinedFunction} {more : List Char}

/-- Behind its header no line of a definition starts with a header, unless one of its body does. -/
theorem not_opens_behind (hn : FunctionName name) (hq : ¬ OpensWithin name d.inner)
    (hm : ∀ c ∈ more.head?, c = '\n') {a c : List Char} (hs : d.inner ++ '\x7d' :: d.tail = a ++ c)
    (hl : a.getLast? = some '\n') : ¬ Opens name (c ++ more) := by
  intro ho
  rcases List.append_eq_append_iff.mp hs with ⟨a', rfl, htail⟩ | ⟨c', hinner, rfl⟩
  · obtain ⟨header, rest, hh, heq⟩ := ho
    obtain ⟨x, hx, hblank, hhash⟩ := hh.head_cases hn
    have hhead : (c ++ more).head? = some x := by
      rw [heq, List.head?_append, hx]
      rfl
    cases a' with
    | nil =>
      rw [List.nil_append] at htail
      rw [← htail] at hhead
      obtain rfl := Option.some.inj hhead
      exact hh.not_mem_closing hn (List.mem_of_mem_head? hx)
    | cons y a' =>
      obtain ⟨rfl, hbehind⟩ := List.cons.inj htail
      rw [List.getLast?_append_of_ne_nil _ (by simp)] at hl
      cases a' with
      | nil => exact absurd hl (by decide)
      | cons z a' =>
        rw [List.getLast?_cons_cons] at hl
        obtain ⟨front, hfront⟩ := List.getLast?_eq_some_iff.mp hl
        have hcut : d.tail = front ++ '\n' :: c := by
          rw [hbehind, hfront]
          simp
        cases c with
        | nil =>
          rw [hm x hhead] at hblank
          exact absurd hblank (by decide)
        | cons y c =>
          rcases d.behind front (y :: c) hcut x hhead with h | h
          · exact absurd (hblank.symm.trans h) (by decide)
          · exact hhash h
  · obtain ⟨front, rfl⟩ := List.getLast?_eq_some_iff.mp hl
    rw [List.append_assoc, List.cons_append] at ho
    exact hq ⟨front, c', by rw [hinner, List.append_assoc, List.singleton_append], ho.of_append hn⟩

/-- **Inside a definition no line starts with a header but its first ones**, which are headers for its own
name, unless a line of its body does. -/
theorem bodyAt?_within (hn : FunctionName name) (hq : ¬ OpensWithin name d.inner)
    (hm : ∀ c ∈ more.head?, c = '\n') {a c body : List Char} (hs : d.text = a ++ c)
    (hl : StartsLine true a) (hb : bodyAt? name (c ++ more) = some body) :
    d.name = name ∧ untilClosingBrace? false (d.inner ++ '\x7d' :: (d.tail ++ more)) = some body := by
  obtain ⟨header, rest, hh, heq, hbody⟩ := bodyAt?_eq_some hb
  obtain ⟨front, hfront, hbrace, -⟩ := d.heads.exists_front d.isName
  -- no line starts right behind a header
  have hend : a ≠ d.header := by
    rintro rfl
    rw [hfront] at hl
    unfold StartsLine at hl
    simp at hl
  rcases List.append_eq_append_iff.mp hs with ⟨a', rfl, hin⟩ | ⟨c', hheader, rfl⟩
  · have hne : a' ≠ [] := by
      rintro rfl
      exact hend (List.append_nil _)
    unfold StartsLine at hl
    rw [List.getLast?_append_of_ne_nil _ hne, List.getLast?_eq_getLast_of_ne_nil hne] at hl
    exact absurd ⟨header, rest, hh, heq⟩ (not_opens_behind hn hq hm hin
      (by rw [List.getLast?_eq_getLast_of_ne_nil hne, hl]))
  · obtain rfl | ⟨c'', x, rfl⟩ := List.eq_nil_or_concat c'
    · exact absurd (hheader.trans (List.append_nil a)).symm hend
    · rw [hfront, List.concat_eq_append, ← List.append_assoc] at hheader
      obtain ⟨rfl, hx⟩ := List.append_inj' hheader rfl
      obtain rfl := List.singleton_inj.mp hx
      obtain ⟨front', rfl, hbrace', -⟩ := hh.exists_front hn
      simp only [List.concat_eq_append, List.append_assoc, List.singleton_append] at heq
      obtain ⟨rfl, rfl⟩ := cut_at_brace (fun h => hbrace (List.mem_append_right a h)) hbrace' heq
      have hfirst : ∀ c ∈ a.getLast?, isFunctionNameChar c = false := by
        intro c hc
        unfold StartsLine at hl
        rw [hc] at hl
        rw [hl]
        decide
      have hnone : ∀ c ∈ ([] : List Char).getLast?, isFunctionNameChar c = false := nofun
      have hname := hh.lastName_eq hn hfirst
      have hown := d.heads.lastName_eq d.isName hnone
      rw [List.nil_append, hfront, List.append_assoc, hname] at hown
      exact ⟨hown.symm, by simpa using hbody⟩

/-- A definition of another name is passed over. -/
theorem bodyFrom?_other (hn : FunctionName name) (hq : ¬ OpensWithin name d.inner)
    (hm : ∀ c ∈ more.head?, c = '\n') (hne : d.name ≠ name) :
    bodyFrom? name true (d.text ++ more) = bodyBehind? name more := by
  refine bodyFrom?_append fun a c hs hl => ?_
  cases hb : bodyAt? name (c ++ more) with
  | none => rfl
  | some body => exact absurd (bodyAt?_within hn hq hm hs hl hb).1 hne

/-- At a definition of the name the text behind its header is taken, if a closing brace starts a line. -/
theorem bodyFrom?_own (hn : FunctionName name) (hq : ¬ OpensWithin name d.inner)
    (hm : ∀ c ∈ more.head?, c = '\n') (hname : d.name = name) :
    bodyFrom? name true (d.text ++ more) =
      (untilClosingBrace? false (d.inner ++ '\x7d' :: (d.tail ++ more))).or
        (bodyBehind? name more) := by
  cases hbody : untilClosingBrace? false (d.inner ++ '\x7d' :: (d.tail ++ more)) with
  | none =>
    refine bodyFrom?_append fun a c hs hl => ?_
    cases hb : bodyAt? name (c ++ more) with
    | none => rfl
    | some body =>
      have := (bodyAt?_within hn hq hm hs hl hb).2
      rw [hbody] at this
      cases this
  | some body =>
    have hhere : bodyAt? name (d.text ++ more) = some body := by
      rw [DefinedFunction.text, List.append_assoc, List.append_assoc,
        bodyAt?_append hn (hname ▸ d.heads)]
      exact hbody
    unfold bodyFrom?
    rw [if_pos rfl, hhere]
    rfl

theorem head?_following (ds : List DefinedFunction) : ∀ c ∈ (following ds).head?, c = '\n' := by
  cases ds with
  | nil => nofun
  | cons d ds =>
    rintro c ⟨⟩
    rfl

theorem bodyBehind?_following (hn : FunctionName name) (ds : List DefinedFunction) :
    bodyBehind? name (following ds) = bodyFrom? name true (scriptOf ds) := by
  cases ds with
  | nil =>
    have hnil : bodyAt? name [] = none := by
      cases hb : bodyAt? name [] with
      | none => rfl
      | some body =>
        obtain ⟨header, rest, hh, heq, -⟩ := bodyAt?_eq_some hb
        obtain ⟨front, rfl, -⟩ := hh.exists_front hn
        simp at heq
    show none = bodyFrom? name true []
    unfold bodyFrom?
    rw [if_pos rfl, hnil]
  | cons d ds => rfl

/-- **Without a definition of the name nothing is found.** -/
theorem bodyFrom?_scriptOf_eq_none (hn : FunctionName name) {ds : List DefinedFunction}
    (hq : ∀ d ∈ ds, ¬ OpensWithin name d.inner) (hno : ∀ d ∈ ds, d.name ≠ name) :
    bodyFrom? name true (scriptOf ds) = none := by
  induction ds with
  | nil => exact (bodyBehind?_following hn []).symm
  | cons d ds ih =>
    obtain ⟨hd, hds⟩ := List.forall_mem_cons.mp hq
    obtain ⟨hne, hno⟩ := List.forall_mem_cons.mp hno
    rw [scriptOf_cons, bodyFrom?_other hn hd (head?_following ds) hne, bodyBehind?_following hn,
      ih hds hno]

/-- **With one definition of the name the text behind its header is found**, up to the first closing brace
that starts a line. -/
theorem bodyFrom?_scriptOf (hn : FunctionName name) {before after : List DefinedFunction}
    (hq : ∀ e ∈ before ++ d :: after, ¬ OpensWithin name e.inner) (hname : d.name = name)
    (hno : ∀ e ∈ before ++ after, e.name ≠ name) :
    bodyFrom? name true (scriptOf (before ++ d :: after)) =
      untilClosingBrace? false (d.inner ++ '\x7d' :: (d.tail ++ following after)) := by
  induction before with
  | nil =>
    obtain ⟨hd, hds⟩ := List.forall_mem_cons.mp hq
    rw [List.nil_append, scriptOf_cons, bodyFrom?_own hn hd (head?_following after) hname,
      bodyBehind?_following hn, bodyFrom?_scriptOf_eq_none hn hds hno, Option.or_none]
  | cons e before ih =>
    obtain ⟨he, hds⟩ := List.forall_mem_cons.mp hq
    obtain ⟨hne, hno⟩ := List.forall_mem_cons.mp hno
    rw [List.cons_append, scriptOf_cons, bodyFrom?_other hn he (head?_following _) hne,
      bodyBehind?_following hn, ih hds hno]

end Search

/-! ## 4. What is taken out -/

/-- **What is taken out of a script under a name.**

* `undefined`: nothing, if no definition has the name;
* `overLines`: all that stands between the braces of its definition and nothing else, if that goes over
  several lines;
* `onOneLine`: if it stands on one line, what follows the header up to the next closing brace that starts
  a line, which is none of its own; without such a brace nothing. -/
structure TakenOut (ds : List DefinedFunction) (name : String) : Prop where
  undefined : (∀ d ∈ ds, d.name ≠ name.toList) →
    extractBody name (String.ofList (scriptOf ds)) = .error (.notDefined name)
  overLines : ∀ d ∈ ds, d.name = name.toList → '\n' ∈ d.inner →
    extractBody name (String.ofList (scriptOf ds)) = .ok (String.ofList d.inner)
  onOneLine : ∀ before d after, ds = before ++ d :: after → d.name = name.toList → '\n' ∉ d.inner →
    ∀ t, extractBody name (String.ofList (scriptOf ds)) = .ok t ↔
      UpToClosingLine t.toList (d.inner ++ '\x7d' :: (d.tail ++ following after))

/-- **Of a script that defines each function once, the one with the name is taken out**, if no line inside
of a definition could be the header of one with that name. -/
theorem extractBody_takenOut {ds : List DefinedFunction} {name : String}
    (hn : FunctionName name.toList) (hnames : (ds.map DefinedFunction.name).Nodup)
    (hq : ∀ d ∈ ds, ¬ OpensWithin name.toList d.inner) : TakenOut ds name := by
  have hextract : ∀ {r}, bodyFrom? name.toList true (scriptOf ds) = r →
      extractBody name (String.ofList (scriptOf ds)) =
        r.elim (.error (.notDefined name)) fun t => .ok (String.ofList t) := by
    rintro r rfl
    unfold extractBody bodyOf?
    rw [String.toList_ofList]
    cases bodyFrom? name.toList true (scriptOf ds) <;> rfl
  have hfound : ∀ {before d after}, ds = before ++ d :: after → d.name = name.toList →
      bodyFrom? name.toList true (scriptOf ds) =
        untilClosingBrace? false (d.inner ++ '\x7d' :: (d.tail ++ following after)) := by
    rintro before d after rfl hname
    refine bodyFrom?_scriptOf hn hq hname fun e he heq => ?_
    rw [List.map_append, List.map_cons, List.perm_middle.nodup_iff, List.nodup_cons, ← List.map_append] at hnames
    exact hnames.1 (List.mem_map.mpr ⟨e, he, heq.trans hname.symm⟩)
  refine ⟨fun hno => hextract (bodyFrom?_scriptOf_eq_none hn hq hno), fun d hd hname hbreak => ?_,
    fun before d after hds hname _ t => ?_⟩
  · obtain ⟨before, after, hds⟩ := List.append_of_mem hd
    obtain ⟨hlast, hopen⟩ := d.closes.resolve_left (not_not_intro hbreak)
    exact hextract ((hfound hds hname).trans
      (untilClosingBrace?_eq_some_iff.mpr ⟨_, rfl, hlast, hopen⟩))
  · rw [hextract rfl, hfound hds hname, ← untilClosingBrace?_eq_some_iff]
    cases untilClosingBrace? false (d.inner ++ '\x7d' :: (d.tail ++ following after)) with
    | none => simp
    | some s =>
      simp only [Option.elim_some, Except.ok.injEq, Option.some.injEq]
      exact ⟨fun h => by rw [← h, String.toList_ofList], fun h => by rw [h, String.ofList_toList]⟩

/-- A text without an opening brace starts no line with a header. -/
theorem not_opensWithin {name s : List Char} (hn : FunctionName name) (h : '\x7b' ∉ s) :
    ¬ OpensWithin name s := by
  rintro ⟨a, b, rfl, header, rest, hh, rfl⟩
  obtain ⟨front, rfl, -⟩ := hh.exists_front hn
  exact h (by simp)

/-- A definition with its braces behind a pair of parentheses. -/
def definitionOf (name inner tail : String) (isName : FunctionName name.toList)
    (closes : '\n' ∉ inner.toList ∨
      inner.toList.getLast? = some '\n' ∧ ¬ ['\n', '\x7d'] <:+: inner.toList)
    (behind : '\n' ∉ tail.toList ∨ tail = "\n") : DefinedFunction where
  name := name.toList
  header := name.toList ++ "() \x7b".toList
  inner := inner.toList
  tail := tail.toList
  isName := isName
  heads := .plain (@Opening.parenthesised [] [' '] nofun (List.all_eq_true.mp (by decide)))
  closes := closes
  behind := by
    rintro a b hab c hc
    rcases behind with h | rfl
    · exact absurd (hab ▸ List.mem_append_right a List.mem_cons_self) h
    · cases a with
      | nil =>
        obtain rfl := (List.cons.inj hab).2
        cases hc
      | cons x a => simpa using (List.cons.inj hab).2

/-- Three functions, one of them on one line, and two of them with names of which one starts the other. -/
def threeFunctions : List DefinedFunction := [
  definitionOf "go_on" "\n  echo on\n" "" (by decide) (by decide) (by decide),
  definitionOf "say" " echo hi; " " # in short" (by decide) (by decide) (by decide),
  definitionOf "go" "\n  say\n  echo gone\n" "\n" (by decide) (by decide) (by decide)]

/-- The shorter name takes out its own definition. -/
theorem threeFunctions_takenOut :
    FunctionName "go".toList ∧ (threeFunctions.map DefinedFunction.name).Nodup ∧
      (∀ d ∈ threeFunctions, ¬ OpensWithin "go".toList d.inner) ∧
      TakenOut threeFunctions "go" ∧
      extractBody "go" (String.ofList (scriptOf threeFunctions)) = .ok "\n  say\n  echo gone\n" := by
  have hn : FunctionName "go".toList := by decide
  have hnames : (threeFunctions.map DefinedFunction.name).Nodup := by decide
  have hq : ∀ d ∈ threeFunctions, ¬ OpensWithin "go".toList d.inner := fun d hd =>
    not_opensWithin hn (by revert d; decide)
  have h := extractBody_takenOut hn hnames hq
  exact ⟨hn, hnames, hq, h, h.overLines threeFunctions[2] (List.getElem_mem _) rfl (by decide)⟩

/-- A function on one line in front of another one. -/
def shortFirst : List DefinedFunction := [
  definitionOf "f" " echo a; " "" (by decide) (by decide) (by decide),
  definitionOf "g" "\n  echo b\n" "\n" (by decide) (by decide) (by decide)]

/-- A function in which a call of another one stands in front of a group of commands. -/
def callFirst : List DefinedFunction := [
  definitionOf "g" "\nf\n\x7b echo grouped; \x7d\n" "" (by decide) (by decide) (by decide),
  definitionOf "f" "\necho hi\n" "\n" (by decide) (by decide) (by decide)]

/-- What is taken out need not stand between the braces of the definition that has the name: a definition
on one line goes on into the next one, and a call in front of a group of commands is taken for a header. -/
theorem text_of_another_taken_out :
    ((shortFirst.map DefinedFunction.name).Nodup ∧ ∃ body,
      extractBody "f" (String.ofList (scriptOf shortFirst)) = .ok body ∧
        ∀ d ∈ shortFirst, d.name = "f".toList → ¬ body.toList <:+: d.inner) ∧
    ((callFirst.map DefinedFunction.name).Nodup ∧ ∃ body,
      extractBody "f" (String.ofList (scriptOf callFirst)) = .ok body ∧
        ∀ d ∈ callFirst, body.toList <:+: d.inner → d.name = "g".toList) :=
  ⟨⟨by decide, " echo a; \x7d\ng() \x7b\n  echo b\n", by decide +kernel, by decide +kernel⟩,
    by decide, " echo grouped; \x7d\n", by decide +kernel, by decide +kernel⟩

end Runbook.ShellFunction
