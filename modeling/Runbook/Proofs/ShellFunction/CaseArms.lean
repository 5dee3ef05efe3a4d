import Runbook.Proofs.ShellFunction.ConvertedSteps
import Runbook.Proofs.ShellFunction.Grammar
import Runbook.Proofs.Text.Lines

/-!
# The arm that a converted choice takes

A shell goes into the first arm whose pattern the value matches. A branch compares the value with each
pattern as one text, and goes into the arm of any value, wherever it stands, when no other was the value:

* `PlainPattern`, `ShellMatches`, `armOfShell?`: patterns of plain words, and the rule of a shell;
* `ArmsWritten`: arms as they stand in the lines of a choice; `Laid.armsWritten`, `ArmsWritten.laid`: they
  are what the readers take the lines for;
* `armTaken?`: the arm that a branch goes into; `armTaken?_eq_iff`: when it is the arm of a shell;
* `runStep_choice`: a branch runs the body of the arm that it goes into;
* **`choice_goesByArms`**: choices of plain words.
-/

namespace Runbook.ShellFunction

/-! ## 1. Patterns as a shell reads them -/

/-- Whether a character stands for itself in a pattern: it is no blank and nothing that a shell knows as
an operator, as quoting, as the start of an expansion or as standing for other characters. -/
def isPlainChar (c : Char) : Bool :=
  !Text.isBlank c && !("|&;<>()$\x60\\\"'*?[".toList.contains c)

/-- A word of plain characters that starts neither a comment nor the name of a home. -/
def PlainWord (w : List Char) : Prop :=
  w ≠ [] ∧ w.head? ≠ some '#' ∧ w.head? ≠ some '~' ∧ ∀ c ∈ w, isPlainChar c = true

instance (w : List Char) : Decidable (PlainWord w) :=
  decidable_of_iff (w ≠ [] ∧ w.head? ≠ some '#' ∧ w.head? ≠ some '~' ∧ w.all isPlainChar = true)
    (by rw [List.all_eq_true, PlainWord])

/-- The words between the bars of a pattern, with the blanks around them left out. -/
def alternatives (pattern : List Char) : List (List Char) :=
  (pattern.splitOn '|').map Text.trim

/-- The pattern of any value, as it is written. -/
def anything : List Char := ['*']

/-- The pattern of any value, or plain words with bars between them. -/
def PlainPattern (pattern : List Char) : Prop :=
  pattern = anything ∨ ∀ w ∈ alternatives pattern, PlainWord w

instance (pattern : List Char) : Decidable (PlainPattern pattern) :=
  inferInstanceAs (Decidable (_ ∨ _))

/-- **A shell's rule**: the pattern of any value matches all of them, and words match themselves. -/
def ShellMatches (pattern value : List Char) : Prop :=
  pattern = anything ∨ value ∈ alternatives pattern

instance (pattern value : List Char) : Decidable (ShellMatches pattern value) :=
  inferInstanceAs (Decidable (_ ∨ _))

theorem alternatives_of_not_mem {pattern : List Char} (h : '|' ∉ pattern)
    (ht : Text.Trimmed pattern) : alternatives pattern = [pattern] := by
  unfold alternatives
  rw [List.splitOn_eq_singleton h, List.map_singleton, ht]

/-- A word that is matched as one of several is none of several itself. -/
theorem not_mem_of_matched {pattern value : List Char} (hp : PlainPattern pattern)
    (hne : pattern ≠ anything) (hv : value ∈ alternatives pattern) : '|' ∉ value := by
  intro hbar
  have hplain := (hp.resolve_left hne) value hv
  exact absurd (hplain.2.2.2 _ hbar) (by decide)

/-- A character of texts with one separator between them is that separator or stands in one of them. -/
theorem mem_of_mem_intercalate {c d : Char} {texts : List (List Char)}
    (h : d ∈ [c].intercalate texts) : d = c ∨ ∃ text ∈ texts, d ∈ text := by
  induction texts with
  | nil => cases h
  | cons text rest ih =>
    cases rest with
    | nil =>
      rw [List.intercalate_singleton] at h
      exact Or.inr ⟨text, List.mem_cons_self, h⟩
    | cons next rest =>
      rw [List.intercalate_cons_cons, List.append_assoc, List.mem_append, List.mem_append,
        List.mem_singleton] at h
      rcases h with h | h | h
      · exact Or.inr ⟨text, List.mem_cons_self, h⟩
      · exact Or.inl h
      · obtain h | ⟨other, ho, hd⟩ := ih h
        · exact Or.inl h
        · exact Or.inr ⟨other, List.mem_cons_of_mem _ ho, hd⟩

/-- A plain pattern does not start with a quote, so that nothing is taken off it but blanks. -/
theorem unquote_of_plain {pattern : List Char} (hp : PlainPattern pattern)
    (ht : Text.Trimmed pattern) : unquote pattern = pattern := by
  unfold unquote
  rw [ht]
  cases pattern with
  | nil => rfl
  | cons q rest =>
    have hq : ¬ (q = '"' ∨ q = '\'') := by
      rintro hq
      rcases hp with hany | hwords
      · cases hany
        revert hq
        decide
      · have hmem : q ∈ ['|'].intercalate ((q :: rest).splitOn '|') := by
          rw [List.intercalate_splitOn]
          exact List.mem_cons_self
        rcases mem_of_mem_intercalate hmem with rfl | ⟨piece, hpiece, hin⟩
        · revert hq
          decide
        · have hblank : Text.isBlank q = false := by rcases hq with rfl | rfl <;> decide
          have hplain := hwords _ (List.mem_map_of_mem hpiece)
          have := hplain.2.2.2 q (Text.mem_trim hin hblank)
          rcases hq with rfl | rfl <;> exact absurd this (by decide)
    simp [hq]

/-! ## 2. Arms as they are written -/

/-- An arm with its pattern as it is written, quotes and all, and with its body. -/
structure WrittenArm where
  pattern : List Char
  body : List Statement

/-- What the readers take an arm for. -/
def WrittenArm.read (w : WrittenArm) : String × List Statement :=
  (String.ofList (unquote w.pattern), w.body)

/-- **How the lines of a choice write arms down**, in their order and up to the line that ends the choice.
What is neither an arm nor blank nor a comment is passed over, and listed. -/
inductive ArmsWritten : List WrittenArm → List Line → List Line → Prop
  | esac : ArmsWritten [] [] ["esac".toList]
  | inline {line p text : Line} {arms : List WrittenArm} {strays lines : List Line}
      (hne : line ≠ "esac".toList) (h : inlineArm? line = some (p, text))
      (later : ArmsWritten arms strays lines) :
      ArmsWritten (⟨Text.trim p, [.command (String.ofList text)]⟩ :: arms) strays (line :: lines)
  | skipped {line : Line} {arms : List WrittenArm} {strays lines : List Line}
      (hne : line ≠ "esac".toList) (hi : inlineArm? line = none)
      (h : Text.dropEnd? [')'] line = none) (hs : isSkipped line = true)
      (later : ArmsWritten arms strays lines) : ArmsWritten arms strays (line :: lines)
  | stray {line : Line} {arms : List WrittenArm} {strays lines : List Line}
      (hne : line ≠ "esac".toList) (hi : inlineArm? line = none)
      (h : Text.dropEnd? [')'] line = none) (hs : isSkipped line = false)
      (later : ArmsWritten arms strays lines) : ArmsWritten arms (line :: strays) (line :: lines)
  | last {line p : Line} {body : List Statement} {segments : List Segment}
      (hne : line ≠ "esac".toList) (hi : inlineArm? line = none)
      (h : Text.dropEnd? [')'] line = some p)
      (inner : Laid (.block .arm body (some .esac)) segments) :
      ArmsWritten [⟨Text.trim p, body⟩] [] (line :: linesOf segments)
  | arm {line p : Line} {body : List Statement} {text : List Char} {segments : List Segment}
      {arms : List WrittenArm} {strays lines : List Line} (hne : line ≠ "esac".toList)
      (hi : inlineArm? line = none) (h : Text.dropEnd? [')'] line = some p)
      (inner : Laid (.block .arm body (some (.armEnd text))) segments)
      (later : ArmsWritten arms strays lines) :
      ArmsWritten (⟨Text.trim p, body⟩ :: arms) strays (line :: (linesOf segments ++ lines))

theorem read_trim (p : List Char) (body : List Statement) :
    WrittenArm.read ⟨Text.trim p, body⟩ = (String.ofList (unquote p), body) := by
  unfold WrittenArm.read unquote
  rw [show Text.trim (Text.trim p) = Text.trim p from Text.trimmed_trim p]

/-- **The arms of a choice are written in its lines**, in the order in which they are read. -/
theorem Laid.armsWritten {arms : List (String × List Statement)} {segments : List Segment}
    (h : Laid (.arms arms) segments) : ∃ written strays,
      arms = written.map WrittenArm.read ∧ ArmsWritten written strays (linesOf segments) := by
  generalize hpart : Part.arms arms = part at h
  induction h generalizing arms with
  | esac =>
    cases hpart
    exact ⟨[], [], rfl, .esac⟩
  | inlineArm hne h _ ih =>
    cases hpart
    obtain ⟨written, strays, rfl, hw⟩ := ih rfl
    refine ⟨_ :: written, strays, congrArg (· :: _) (read_trim _ _).symm, ?_⟩
    rw [linesOf_append, linesOf_armSegments]
    exact .inline hne h hw
  | @between line arms segments hne hi h _ ih =>
    cases hpart
    obtain ⟨written, strays, rfl, hw⟩ := ih rfl
    rw [linesOf_cons, lines_betweenArms]
    cases hs : isSkipped line with
    | true => exact ⟨written, strays, rfl, .skipped hne hi h hs hw⟩
    | false => exact ⟨written, line :: strays, rfl, .stray hne hi h hs hw⟩
  | lastArm hne hi h inner _ =>
    cases hpart
    exact ⟨[_], [], congrArg (fun arm => [arm]) (read_trim _ _).symm, .last hne hi h inner⟩
  | arm hne hi h inner _ _ ih =>
    cases hpart
    obtain ⟨written, strays, rfl, hw⟩ := ih rfl
    refine ⟨_ :: written, strays, congrArg (· :: _) (read_trim _ _).symm, ?_⟩
    rw [linesOf_append, linesOf_armSegments]
    exact .arm hne hi h inner hw
  | finished | ended | skip | next | oneLine | simple | compound | choice | forLoop | whileLoop
  | withoutElse | withElse | withElif => cases hpart

/-- **Written arms are what the readers take the lines for.** -/
theorem ArmsWritten.laid {written : List WrittenArm} {strays lines : List Line}
    (h : ArmsWritten written strays lines) :
    ∃ segments, linesOf segments = lines ∧ Laid (.arms (written.map WrittenArm.read)) segments := by
  induction h with
  | esac => exact ⟨_, rfl, .esac⟩
  | @inline line p text arms strays lines hne h _ ih =>
    obtain ⟨segments, rfl, hl⟩ := ih
    rw [List.map_cons, read_trim]
    refine ⟨_, ?_, .inlineArm hne h hl⟩
    rw [linesOf_append, linesOf_armSegments]
    rfl
  | @skipped line arms strays lines hne hi h _ _ ih =>
    obtain ⟨segments, rfl, hl⟩ := ih
    exact ⟨_, by rw [linesOf_cons, lines_betweenArms]; rfl, .between hne hi h hl⟩
  | @stray line arms strays lines hne hi h _ _ ih =>
    obtain ⟨segments, rfl, hl⟩ := ih
    exact ⟨_, by rw [linesOf_cons, lines_betweenArms]; rfl, .between hne hi h hl⟩
  | last hne hi h inner =>
    rw [List.map_singleton, read_trim]
    exact ⟨_, rfl, .lastArm hne hi h inner⟩
  | @arm line p body text segs arms strays lines hne hi h inner _ ih =>
    obtain ⟨segments, rfl, hl⟩ := ih
    rw [List.map_cons, read_trim]
    refine ⟨_, ?_, .arm hne hi h inner hl⟩
    rw [linesOf_append, linesOf_armSegments]
    rfl

theorem ArmsWritten.trimmed {written : List WrittenArm} {strays lines : List Line}
    (h : ArmsWritten written strays lines) : ∀ w ∈ written, Text.Trimmed w.pattern := by
  induction h with
  | esac => exact List.forall_mem_nil _
  | inline _ _ _ ih => exact List.forall_mem_cons.mpr ⟨Text.trimmed_trim _, ih⟩
  | skipped _ _ _ _ _ ih => exact ih
  | stray _ _ _ _ _ ih => exact ih
  | last => exact List.forall_mem_singleton.mpr (Text.trimmed_trim _)
  | arm _ _ _ _ _ ih => exact List.forall_mem_cons.mpr ⟨Text.trimmed_trim _, ih⟩

/-- **Every choice that is read has arms written in its lines.** -/
theorem readStatement_armsWritten {first : Line} {rest : List Line} {r : Reading Statement rest}
    (ho : openerOf first = .choice) (h : readStatement first rest = .ok r) :
    ∃ selector written strays lines, caseSelector? first = some selector ∧
      rest = lines ++ r.rest ∧ ArmsWritten written strays lines ∧
      r.value = .choice (String.ofList selector) (written.map WrittenArm.read) := by
  obtain ⟨segments, hl, hlines⟩ := readStatement_laid first rest r h
  generalize hs : r.value = value at hl
  cases hl with
  | choice _ hsel inner =>
    obtain ⟨written, strays, rfl, hw⟩ := inner.armsWritten
    exact ⟨_, written, strays, _, hsel, (List.cons.inj hlines).2, hw, rfl⟩
  | oneLine h | simple h | compound h | forLoop h | whileLoop h => rw [ho] at h; cases h

/-- **And written arms are read as a choice**, whatever lines follow. -/
theorem ArmsWritten.readStatement_eq {first selector : Line} {written : List WrittenArm}
    {strays lines : List Line} (hw : ArmsWritten written strays lines)
    (ho : openerOf first = .choice) (hs : caseSelector? first = some selector) (rest : List Line) :
    ∃ hle, readStatement first (lines ++ rest) =
      .ok ⟨.choice (String.ofList selector) (written.map WrittenArm.read), rest, hle⟩ := by
  obtain ⟨segments, rfl, hl⟩ := hw.laid
  exact (Laid.choice ho hs hl).read (first :: (linesOf segments ++ rest)) rest (by simp [Segment.lines]) _ rfl

/-! ## 3. The arm of a shell and the arm of a branch -/

/-- The arm that a shell goes into: the first one whose pattern the value matches. -/
def armOfShell? (value : List Char) (written : List WrittenArm) : Option WrittenArm :=
  written.find? fun w => ShellMatches w.pattern value

/-- The arm that a branch goes into: the first one of which the pattern is the value, with the values of
names put into it; without one the arm of any value, wherever it stands. -/
def armTaken? (context : Context) (value : List Char) (written : List WrittenArm) :
    Option WrittenArm :=
  (written.find? fun w => w.pattern ≠ anything ∧
      (Template.resolve context (String.ofList w.pattern)).toList = value).or
    (written.find? fun w => w.pattern = anything)

section Agreement

variable {context : Context} {value : List Char} {written : List WrittenArm} {w : WrittenArm}

theorem matches_of_armOfShell? (h : armOfShell? value written = some w) :
    w ∈ written ∧ ShellMatches w.pattern value :=
  ⟨List.mem_of_find?_eq_some h, by simpa using List.find?_some h⟩

theorem armTaken?_of_closed
    (hc : ∀ w ∈ written, Template.resolve context (String.ofList w.pattern) =
      String.ofList w.pattern) :
    armTaken? context value written =
      (written.find? fun w => w.pattern ≠ anything ∧ w.pattern = value).or
        (written.find? fun w => w.pattern = anything) := by
  have hfind : (written.find? fun w =>
      w.pattern ≠ anything ∧ (Template.resolve context (String.ofList w.pattern)).toList = value) =
        written.find? fun w => w.pattern ≠ anything ∧ w.pattern = value :=
    List.find?_congr fun w hw => by rw [hc w hw, String.toList_ofList]
  unfold armTaken?
  rw [hfind]

/-- A shell that goes into an arm of one plain word goes where the branch goes. -/
theorem armTaken?_of_word (hp : ∀ w ∈ written, PlainPattern w.pattern)
    (ht : ∀ w ∈ written, Text.Trimmed w.pattern)
    (hc : ∀ w ∈ written, Template.resolve context (String.ofList w.pattern) =
      String.ofList w.pattern)
    (hs : armOfShell? value written = some w) (hbar : '|' ∉ w.pattern)
    (hne : w.pattern ≠ anything) : armTaken? context value written = some w := by
  obtain ⟨hmatch, front, back, rfl, hfront⟩ := List.find?_eq_some_iff_append.mp hs
  have hw : w.pattern = value := by
    have hv := (of_decide_eq_true hmatch).resolve_left hne
    rw [alternatives_of_not_mem hbar (ht w (by simp))] at hv
    exact (List.mem_singleton.mp hv).symm
  -- an arm in front with the value as its text would be one that a shell goes into
  have hnone : ∀ v ∈ front, v.pattern ≠ value := by
    intro v hv heq
    have hvbar : '|' ∉ v.pattern := heq ▸ hw ▸ hbar
    have hnot := hfront v hv
    rw [Bool.not_eq_true', decide_eq_false_iff_not] at hnot
    refine hnot (Or.inr ?_)
    rw [alternatives_of_not_mem hvbar (ht v (List.mem_append_left _ hv)), heq]
    exact List.mem_singleton_self _
  have hfind : ((front ++ w :: back).find? fun w => w.pattern ≠ anything ∧ w.pattern = value) =
      some w := by
    refine List.find?_eq_some_iff_append.mpr
      ⟨decide_eq_true ⟨hne, hw⟩, front, back, rfl, fun v hv => ?_⟩
    simp [hnone v hv]
  rw [armTaken?_of_closed hc, hfind, Option.some_or]

/-- A shell that goes into the arm of any value, or into none, goes where the branch goes if no other arm
has the value as its text. -/
theorem armTaken?_of_default
    (hc : ∀ w ∈ written, Template.resolve context (String.ofList w.pattern) =
      String.ofList w.pattern)
    (hs : ∀ w, armOfShell? value written = some w → w.pattern = anything)
    (hno : ∀ w ∈ written, w.pattern = value → w.pattern = anything) :
    armTaken? context value written = armOfShell? value written := by
  have hfind : (written.find? fun w => w.pattern ≠ anything ∧ w.pattern = value) = none :=
    List.find?_eq_none.mpr fun w hw => by
      simp only [decide_eq_true_eq, not_and]
      exact fun hne heq => hne (hno w hw heq)
  rw [armTaken?_of_closed hc, hfind, Option.none_or]
  cases hshell : armOfShell? value written with
  | none =>
    refine List.find?_eq_none.mpr fun w hw hany => ?_
    exact List.find?_eq_none.mp hshell w hw
      (decide_eq_true (Or.inl (of_decide_eq_true hany)))
  | some w =>
    obtain ⟨-, front, back, rfl, hfront⟩ := List.find?_eq_some_iff_append.mp hshell
    refine List.find?_eq_some_iff_append.mpr
      ⟨decide_eq_true (hs w hshell), front, back, rfl, fun v hv => ?_⟩
    have hnot := hfront v hv
    rw [Bool.not_eq_true', decide_eq_false_iff_not] at hnot ⊢
    exact fun hany => hnot (Or.inl hany)

/-- **A branch goes into the arm of a shell exactly if that is no arm of several words and, where a shell
goes into the arm of any value or into none, no other arm has the value as its text.** -/
theorem armTaken?_eq_iff (hp : ∀ w ∈ written, PlainPattern w.pattern)
    (ht : ∀ w ∈ written, Text.Trimmed w.pattern)
    (hc : ∀ w ∈ written, Template.resolve context (String.ofList w.pattern) =
      String.ofList w.pattern) :
    armTaken? context value written = armOfShell? value written ↔
      (∀ w, armOfShell? value written = some w → '|' ∉ w.pattern) ∧
      ((∀ w, armOfShell? value written = some w → w.pattern = anything) →
        ∀ w ∈ written, w.pattern = value → w.pattern = anything) := by
  constructor
  · intro heq
    rw [armTaken?_of_closed hc] at heq
    constructor
    · intro w hs hbar
      have hne : w.pattern ≠ anything := by
        rintro hany
        rw [hany] at hbar
        revert hbar
        decide
      obtain ⟨hmem, hmatch⟩ := matches_of_armOfShell? hs
      rw [hs, Option.or_eq_some_iff] at heq
      rcases heq with hfirst | ⟨-, hany⟩
      · have hw : w.pattern ≠ anything ∧ w.pattern = value := by simpa using List.find?_some hfirst
        exact not_mem_of_matched (hp w hmem) hne (hmatch.resolve_left hne) (hw.2 ▸ hbar)
      · exact hne (by simpa using List.find?_some hany)
    · intro hall w hw hvalue
      by_contra hne
      cases hfirst : written.find? fun w => w.pattern ≠ anything ∧ w.pattern = value with
      | none => exact List.find?_eq_none.mp hfirst w hw (decide_eq_true ⟨hne, hvalue⟩)
      | some v =>
        rw [hfirst, Option.some_or] at heq
        have hv : v.pattern ≠ anything ∧ v.pattern = value := by
          simpa using List.find?_some hfirst
        exact hv.1 (hall v heq.symm)
  · rintro ⟨hbar, hdefault⟩
    cases hs : armOfShell? value written with
    | none =>
      rw [← hs]
      exact armTaken?_of_default hc (by simp [hs]) (hdefault (by simp [hs]))
    | some w =>
      by_cases hany : w.pattern = anything
      · rw [← hs]
        have hall : ∀ v, armOfShell? value written = some v → v.pattern = anything := by
          intro v hv
          rw [hs] at hv
          exact Option.some.inj hv ▸ hany
        exact armTaken?_of_default hc hall (hdefault hall)
      · exact armTaken?_of_word hp ht hc hs (hbar w hs) hany

end Agreement

/-! ## 4. The body that is run -/

/-- A branch that nobody is asked about runs the block that it goes into. -/
theorem runStep_branch {σ : Type} (e : Engine σ) (above : String) (top : Bool) {hd : StepHead}
    (selector : String) (cs : List (String × List Step)) (d : Option (List Step)) {s : RunState σ}
    (ha : e.asks (hd.resolve s.context) = false) :
    e.runStep above top (.branch hd selector cs d) s =
      let block := Step.blockOfCase s.context ((s.context.get? selector).getD "") d cs
      e.runBlock (blockPath (stepPath above hd.name) block.1) false block.2 s := by
  have hreach : e.perform ⟨above, top, .branch hd selector cs d, s⟩ .reach s = (.ok (), s) :=
    Engine.gate_of_not_asks ha _ _ _ s
  rw [← Engine.stepCourse_run e _ [], Engine.stepCourse_eq, Course.run_visit, Course.run_bind,
    Engine.run_deed, Run.bind_apply, hreach]
  exact congrFun (Engine.blockCourse_run ..) s

/-- The first of values among which a property holds once only is the last one. -/
theorem getLast?_filter_of_once {α : Type} {p : α → Bool} {xs : List α}
    (h : xs.Pairwise fun a b => p a = true → p b = false) :
    (xs.filter p).getLast? = xs.find? p := by
  induction xs with
  | nil => rfl
  | cons x xs ih =>
    obtain ⟨hx, hxs⟩ := List.pairwise_cons.mp h
    cases hp : p x with
    | true =>
      have hnone : xs.filter p = [] := List.filter_eq_nil_iff.mpr fun y hy => by simp [hx y hy hp]
      rw [List.filter_cons_of_pos hp, List.find?_cons_of_pos hp, hnone]
      rfl
    | false =>
      rw [List.filter_cons_of_neg (by simp [hp]), List.find?_cons_of_neg (by simp [hp])]
      exact ih hxs

/-- The body that a choice of written arms goes into, with the values of names put into its patterns, is
that of the arm that its branch goes into. -/
theorem body_armTaken? (context : Context) (value : String) {written : List WrittenArm}
    (hp : ∀ w ∈ written, PlainPattern w.pattern) (ht : ∀ w ∈ written, Text.Trimmed w.pattern)
    (hone : written.Pairwise fun a b => a.pattern = anything → b.pattern ≠ anything) :
    (((((written.map WrittenArm.read).find? fun arm =>
        arm.1 ≠ anyValue ∧ Template.resolve context arm.1 = value).map (·.2)).or
      (standardBody? (written.map WrittenArm.read))).getD []) =
      (armTaken? context value.toList written).elim [] WrittenArm.body := by
  have hread : ∀ w ∈ written, w.read.1 = String.ofList w.pattern := fun w hw => by
    rw [WrittenArm.read, unquote_of_plain (hp w hw) (ht w hw)]
  have hany : ∀ w ∈ written, w.read.1 = anyValue ↔ w.pattern = anything := fun w hw => by
    rw [hread w hw, ← String.toList_inj, String.toList_ofList]
    rfl
  have hfind : (written.find? fun w => w.read.1 ≠ anyValue ∧
      Template.resolve context w.read.1 = value) = written.find? fun w => w.pattern ≠ anything ∧
        (Template.resolve context (String.ofList w.pattern)).toList = value.toList :=
    List.find?_congr fun w hw => by
      rw [decide_eq_decide, ne_eq, hany w hw, hread w hw, String.toList_inj]
  have hstandard : standardBody? (written.map WrittenArm.read) =
      (written.find? fun w => w.pattern = anything).map WrittenArm.body := by
    unfold standardBody?
    have hfilter : (written.filter fun w => decide (w.read.1 = anyValue)) =
        written.filter fun w => decide (w.pattern = anything) :=
      List.filter_congr fun w hw => by rw [decide_eq_decide, hany w hw]
    rw [List.filter_map, List.getLast?_map, Option.map_map]
    show ((written.filter fun w => decide (w.read.1 = anyValue)).getLast?).map _ = _
    rw [hfilter, getLast?_filter_of_once (hone.imp fun h => by simpa using h)]
    rfl
  rw [List.find?_map, hstandard]
  show (((Option.map WrittenArm.read (written.find? fun w => w.read.1 ≠ anyValue ∧
    Template.resolve context w.read.1 = value)).map _).or _).getD [] = _
  rw [hfind]
  unfold armTaken?
  cases written.find? fun w => w.pattern ≠ anything ∧
      (Template.resolve context (String.ofList w.pattern)).toList = value.toList with
  | some w => rfl
  | none => cases written.find? fun w => decide (w.pattern = anything) <;> rfl

/-! ## 5. Choices of plain words -/

/-- **How a choice goes that is written with some arms.**

* `read`: its lines are read as a choice of these arms, in their order, whatever lines follow;
* `runs`: wherever its branch is run, the body of the arm that the branch goes into is run, and nothing if
  there is no such arm;
* `agrees`: where putting in the values of names changes no pattern, this is the arm that a shell goes into
  exactly if that one is no arm of several words and, where a shell goes into the arm of any value or into
  none, no other arm has the value as its text. -/
structure GoesByArms (first selector : Line) (written : List WrittenArm) (lines : List Line) :
    Prop where
  read : ∀ rest, ∃ hle, readStatement first (lines ++ rest) =
    .ok ⟨.choice (String.ofList selector) (written.map WrittenArm.read), rest, hle⟩
  runs : ∀ {σ : Type} (e : Engine σ) (above : String) (top : Bool) (s : RunState σ), ∃ label,
    e.runStep above top
        (stepOf (.choice (String.ofList selector) (written.map WrittenArm.read))) s =
      e.runBlock (blockPath (stepPath above "Branch by Value") label) false
        (stepsOf ((armTaken? s.context ((s.context.get? (String.ofList selector)).getD "").toList
          written).elim [] WrittenArm.body)) s
  agrees : ∀ (context : Context) (value : List Char),
    (∀ w ∈ written, Template.resolve context (String.ofList w.pattern) = String.ofList w.pattern) →
      (armTaken? context value written = armOfShell? value written ↔
        (∀ w, armOfShell? value written = some w → '|' ∉ w.pattern) ∧
        ((∀ w, armOfShell? value written = some w → w.pattern = anything) →
          ∀ w ∈ written, w.pattern = value → w.pattern = anything))

/-- **A choice whose patterns are plain words, words with bars between them, or that of any value once,
goes into the first arm that has the value as its text, and without one into the arm of any value.** That
is not always the arm of a shell. -/
theorem choice_goesByArms {first selector : Line} {written : List WrittenArm} {lines : List Line}
    (ho : openerOf first = .choice) (hs : caseSelector? first = some selector)
    (hw : ArmsWritten written [] lines) (hp : ∀ w ∈ written, PlainPattern w.pattern)
    (hone : written.Pairwise fun a b => a.pattern = anything → b.pattern ≠ anything) :
    GoesByArms first selector written lines where
  read := hw.readStatement_eq ho hs
  runs := by
    intro σ e above top s
    have ha : e.asks ((choiceHead (String.ofList selector)).resolve s.context) = false := by
      simp [Engine.asks, StepHead.resolve_requireApproval, choiceHead, headOf]
    have hblock := blockOfCase_casesOf s.context
      ((s.context.get? (String.ofList selector)).getD "") (written.map WrittenArm.read)
    rw [body_armTaken? _ _ hp hw.trimmed hone] at hblock
    rw [← hblock]
    exact ⟨_, runStep_branch e above top _ _ _ ha⟩
  agrees := fun context value hc => armTaken?_eq_iff hp hw.trimmed hc

/-- Three arms of which the second has two words. -/
def sizes : List WrittenArm := [
  ⟨"small".toList, [.command "echo few"]⟩,
  ⟨"medium|large".toList, [.command "sort all"]⟩,
  ⟨"*".toList, [.command "echo unknown"]⟩]

/-- The lines in which they are written, behind a comment. -/
def linesOfSizes : List Line :=
  ["# by size", "small) echo few ;;", "medium|large)", "sort all", ";;", "*) echo unknown ;;",
    "esac"].map String.toList

/-- The arms by size are written in these lines, so that the choice goes by them. -/
theorem sizes_goByArms :
    openerOf "case $size in".toList = .choice ∧
      caseSelector? "case $size in".toList = some "size".toList ∧
      ArmsWritten sizes [] linesOfSizes ∧ (∀ w ∈ sizes, PlainPattern w.pattern) ∧
      (sizes.Pairwise fun a b => a.pattern = anything → b.pattern ≠ anything) ∧
      GoesByArms "case $size in".toList "size".toList sizes linesOfSizes := by
  have ho : openerOf "case $size in".toList = .choice := by decide
  have hs : caseSelector? "case $size in".toList = some "size".toList := by decide
  have hbody : Laid (.block .arm [.command "sort all"] (some (.armEnd [])))
      [.leaf "sort all".toList (.command "sort all"), .keyword ";;".toList] :=
    .next (by decide) (by decide) (.simple (show openerOf "sort all".toList = .simple by decide))
      (.ended (show endingOf? .arm ";;".toList = some (.armEnd []) by decide))
  have hw : ArmsWritten sizes [] linesOfSizes :=
    .skipped (by decide) (by decide) (by decide) (by decide) <|
    .inline (by decide) (show inlineArm? _ = some ("small".toList, "echo few".toList) by decide) <|
    .arm (p := "medium|large".toList) (by decide) (by decide) (by decide) hbody <|
    .inline (by decide) (show inlineArm? _ = some ("*".toList, "echo unknown".toList) by decide) .esac
  have hp : ∀ w ∈ sizes, PlainPattern w.pattern := by decide
  have hone : sizes.Pairwise fun a b => a.pattern = anything → b.pattern ≠ anything := by decide
  exact ⟨ho, hs, hw, hp, hone, choice_goesByArms ho hs hw hp hone⟩

/-- An arm of two words in front of that of any value. -/
def barred : List WrittenArm :=
  [⟨"a|b".toList, [.command "echo ab"]⟩, ⟨"*".toList, [.command "echo other"]⟩]

/-- The arm of any value in front of another one. -/
def anyFirst : List WrittenArm :=
  [⟨"*".toList, [.command "echo any"]⟩, ⟨"a".toList, [.command "echo a"]⟩]

/-- A world in which every command and every test succeeds. -/
def willing : World Unit :=
  ⟨fun _ s => (.finished ⟨0, "", ""⟩, s), fun _ s => (.decided true, s),
    fun _ s => (.error .endOfInput, s), none, none⟩

/-- What the branch of a choice by `x` does where `x` is `a`. -/
def eventsAt (written : List WrittenArm) : List Event :=
  ((Engine.runStep ⟨willing, none, 1, false⟩ "" true
    (stepOf (.choice "x" (written.map WrittenArm.read)))
    (Executor.initialState [("x", "a")] ())).2).events

/-- A branch misses the arm of a shell, if that has several words or is the arm of any value in front of
the value's own. -/
theorem arm_of_shell_missed :
    ((∃ hle, readStatement "case $x in".toList
        (["a|b) echo ab ;;", "*) echo other ;;", "esac"].map String.toList) =
          .ok ⟨.choice "x" (barred.map WrittenArm.read), [], hle⟩) ∧
      (∀ w ∈ barred, PlainPattern w.pattern) ∧
      (armOfShell? "a".toList barred).map WrittenArm.body = some [.command "echo ab"] ∧
      eventsAt barred = [.spawned "echo other"]) ∧
    ((∃ hle, readStatement "case $x in".toList
        (["*) echo any ;;", "a) echo a ;;", "esac"].map String.toList) =
          .ok ⟨.choice "x" (anyFirst.map WrittenArm.read), [], hle⟩) ∧
      (∀ w ∈ anyFirst, PlainPattern w.pattern) ∧
      (armOfShell? "a".toList anyFirst).map WrittenArm.body = some [.command "echo any"] ∧
      eventsAt anyFirst = [.spawned "echo a"]) := by
  have ho : openerOf "case $x in".toList = .choice := by decide
  have hs : caseSelector? "case $x in".toList = some "x".toList := by decide
  have hbarred : ArmsWritten barred []
      (["a|b) echo ab ;;", "*) echo other ;;", "esac"].map String.toList) :=
    .inline (by decide) (show inlineArm? _ = some ("a|b".toList, "echo ab".toList) by decide) <|
    .inline (by decide) (show inlineArm? _ = some ("*".toList, "echo other".toList) by decide) .esac
  have hany : ArmsWritten anyFirst []
      (["*) echo any ;;", "a) echo a ;;", "esac"].map String.toList) :=
    .inline (by decide) (show inlineArm? _ = some ("*".toList, "echo any".toList) by decide) <|
    .inline (by decide) (show inlineArm? _ = some ("a".toList, "echo a".toList) by decide) .esac
  exact ⟨⟨hbarred.readStatement_eq ho hs [], by decide, rfl, by decide +kernel⟩,
    hany.readStatement_eq ho hs [], by decide, rfl, by decide +kernel⟩

end Runbook.ShellFunction
