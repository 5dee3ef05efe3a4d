import Runbook.Proofs.Review.Variables
import Runbook.Proofs.ShellFunction.Grammar
import Runbook.Proofs.ShellFunction.Texts
import Runbook.Proofs.Text.Cut

/-!
# Shell variables of statements and of their body

The texts of statements are cut out of the lines of a body, and cutting makes no new shell variables:

* `cutFrom_conditionOf`, `cutFrom_inlineArm?` and their like: what the readers of lines cut out;
* `Review.Refers.of_cutFrom`, `Review.Refers.of_append`: variables of texts that are cut or put together;
* `Covered`: all shell variables of a text stand in the body;
* `Statement.Covered`: those of a statement do, and a choice goes by the selector of a line;
* **`covered_of_ofText`**: all statements of a body are covered by it.
-/

namespace Runbook

open Text

/-! ## 1. Shell variables of texts that are cut or put together -/

namespace Review.Refers

variable {s t a b name : List Char}

/-- **Cutting makes no shell variable.** -/
theorem of_cutFrom (h : Refers s name) (hc : CutFrom s t) : Refers t name := by
  cases h with
  | braced hne hname h =>
    obtain ⟨front, back, rfl, -⟩ := hc
    exact .braced hne hname (h.trans ⟨front, back, by simp⟩)
  | plain hne hname hafter h =>
    obtain ⟨more, hmore, hstop⟩ := hc.extend (List.cons_append ▸ h) hafter
    exact .plain hne hname hstop hmore

/-- A text without dollar signs has none. -/
theorem dollar_mem (h : Refers s name) : '$' ∈ s := by
  cases h with
  | braced _ _ h => exact h.subset List.mem_cons_self
  | plain _ _ _ h => exact h.subset List.mem_cons_self

/-- What stands in a text and holds a character of it not, stands in front of that or behind it. -/
theorem front_or_back {c : Char} {w front back : List Char} (hne : w ≠ []) (hc : c ∉ w)
    (h : front ++ (w ++ back) = a ++ c :: b) :
    (∃ more, a = front ++ (w ++ more) ∧ back = more ++ c :: b) ∨
      ∃ before, b = before ++ (w ++ back) := by
  rcases List.append_eq_append_iff.mp h with ⟨x, ha, hw⟩ | ⟨x, -, hb⟩
  · left
    rcases List.append_eq_append_iff.mp hw with ⟨y, hx, hback⟩ | ⟨y, hwy, hy⟩
    · exact ⟨y, by rw [ha, hx], hback⟩
    · cases y with
      | nil =>
        rw [List.append_nil] at hwy
        exact ⟨[], by rw [ha, hwy, List.append_nil], by simpa using hy.symm⟩
      | cons d y =>
        obtain rfl : c = d := (List.cons.inj hy).1
        exact absurd (by rw [hwy]; simp) hc
  · right
    cases x with
    | nil =>
      obtain ⟨d, w, rfl⟩ := List.exists_cons_of_ne_nil hne
      obtain rfl : c = d := (List.cons.inj hb).1
      exact absurd List.mem_cons_self hc
    | cons d x => exact ⟨x, (List.cons.inj hb).2⟩

/-- **Putting texts together makes no shell variable**, if a character stands between them that cannot
stand in one. -/
theorem of_append {c : Char} (hc : isWordChar c = false) (hd : c ∉ ['$', '\x7b', '\x7d'])
    (h : Refers (a ++ c :: b) name) : Refers a name ∨ Refers b name := by
  have hfree : (∀ d ∈ name, isWordChar d = true) → c ∉ name := fun hname hmem => by
    rw [hname c hmem] at hc
    cases hc
  simp only [List.mem_cons, List.not_mem_nil, or_false, not_or] at hd
  cases h with
  | braced hne hname h =>
    have hout : c ∉ '$' :: '\x7b' :: (name ++ ['\x7d']) := by
      simp only [List.mem_cons, List.not_mem_nil, or_false, not_or, List.mem_append]
      exact ⟨hd.1, hd.2.1, hfree hname, hd.2.2⟩
    obtain ⟨front, back, htext⟩ := h
    rw [List.append_assoc] at htext
    rcases front_or_back (List.cons_ne_nil _ _) hout htext with ⟨more, ha, -⟩ | ⟨before, hb⟩
    · exact Or.inl (.braced hne hname ⟨front, more, by rw [ha, List.append_assoc]⟩)
    · exact Or.inr (.braced hne hname ⟨before, back, by rw [hb, List.append_assoc]⟩)
  | @plain after hne hname hafter h =>
    have hout : c ∉ '$' :: name := List.not_mem_cons_of_ne_of_not_mem hd.1 (hfree hname)
    obtain ⟨front, htext⟩ := h
    rcases front_or_back (List.cons_ne_nil '$' name) hout htext with ⟨more, ha, rfl⟩ | ⟨before, hb⟩
    · refine Or.inl (.plain hne hname ?_ ⟨front, ha.symm⟩)
      cases more with
      | nil => exact fun d hd => absurd hd (by simp)
      | cons d more => exact hafter
    · exact Or.inr (.plain hne hname hafter ⟨before, hb.symm⟩)

end Review.Refers

namespace ShellFunction

/-! ## 2. What the readers cut out of a line -/

theorem cutFrom_trimKeepingOne (s : List Char) : CutFrom (trimKeepingOne s) s := by
  unfold trimKeepingOne
  split
  · refine .of_suffix ?_
    cases hl : s.getLast? with
    | none => exact List.nil_suffix
    | some c =>
      obtain ⟨front, rfl⟩ := List.getLast?_eq_some_iff.mp hl
      exact List.suffix_append front [c]
  · exact cutFrom_trim s

theorem cutFrom_unquote (s : List Char) : CutFrom (unquote s) s := by
  refine CutFrom.trans ?_ (cutFrom_trim s)
  unfold unquote
  split
  · rename_i q rest hq
    rw [hq]
    split
    · rename_i hquote
      split
      · rename_i inner hd
        refine (cutFrom_of_dropEnd? hd ?_).trans (.of_suffix (List.suffix_cons q rest))
        rintro d ⟨⟩
        simp only [Bool.or_eq_true, decide_eq_true_eq] at hquote
        rcases hquote with rfl | rfl <;> decide
      · exact .refl _
    · exact .refl _
  · rename_i hnil
    rw [hnil]
    exact .refl _

theorem cutFrom_beforeClosing? {keyword s t : List Char} (h : beforeClosing? keyword s = some t) :
    CutFrom t s := by
  obtain ⟨u, hu, ht⟩ := Option.bind_eq_some_iff.mp h
  -- a semicolon stands between what is left and the keyword
  obtain ⟨blanks, hblanks, hcut⟩ := exists_trimRight u
  rw [dropEnd?_eq_some_iff.mp hu, hcut, dropEnd?_eq_some_iff.mp ht, List.append_assoc,
    List.append_assoc]
  exact .before t (by rintro d ⟨⟩; decide)

theorem cutFrom_conditionOf (header : Line) : CutFrom (conditionOf header).1 header := by
  unfold conditionOf
  cases hi : inlineCondition? header with
  | none => exact (cutFrom_trim _).trans (.of_suffix (List.drop_suffix 3 header))
  | some condition =>
    obtain ⟨r, hr, h⟩ := Option.bind_eq_some_iff.mp hi
    obtain ⟨x, hx, h⟩ := Option.bind_eq_some_iff.mp h
    have hcut : CutFrom x header :=
      (cutFrom_beforeClosing? hx).trans (.of_suffix (suffix_of_dropStart? hr))
    cases x with
    | nil => cases h
    | cons b rest =>
      dsimp only at h
      split at h
      · cases h
        exact (cutFrom_trimKeepingOne rest).trans
          ((CutFrom.of_suffix (List.suffix_cons b rest)).trans hcut)
      · cases h

theorem cutFrom_loopHead (s : List Char) : CutFrom (loopHead s).1 s := by
  unfold loopHead
  split
  · rename_i c rest h
    exact (cutFrom_trimRight _).trans (cutFrom_beforeClosing? h)
  · exact .refl s

theorem cutFrom_whileHead? {line condition : Line} {inlineDo : Bool}
    (h : whileHead? line = some (condition, inlineDo)) : CutFrom condition line := by
  obtain ⟨r, hr, h⟩ := Option.bind_eq_some_iff.mp h
  obtain ⟨t, ht, hr⟩ := Option.bind_eq_some_iff.mp hr
  split at h
  · cases h
  · have hc : condition = (loopHead r).1 := congrArg Prod.fst (Option.some.inj h).symm
    rw [hc]
    exact (cutFrom_loopHead r).trans
      (.of_suffix ((suffix_of_skipBlanks? hr).trans (suffix_of_dropStart? ht)))

theorem cutFrom_inlineArm? {line p text : Line} (h : inlineArm? line = some (p, text)) :
    CutFrom p line ∧ CutFrom text line := by
  unfold inlineArm? at h
  have hline := List.takeWhile_append_dropWhile (p := isPatternChar) (l := line)
  split at h
  · cases h
  · rename_i rest hdrop hne
    split at h
    · rename_i c more hd
      cases h
      rw [hdrop] at hline
      constructor
      · have hp : CutFrom (line.takeWhile isPatternChar) (line.takeWhile isPatternChar ++ ')' :: rest) :=
          .before _ (by rintro d ⟨⟩; decide)
        rwa [hline] at hp
      · have hrest : rest <:+ line :=
          (List.suffix_cons ')' rest).trans (hdrop ▸ List.dropWhile_suffix isPatternChar)
        exact (cutFrom_trimKeepingOne _).trans
          ((cutFrom_of_dropEnd? hd (by rintro d ⟨⟩; decide)).trans (.of_suffix hrest))
    · cases h
  · cases h

theorem cutFrom_assignment? {line name value : Line} (h : assignment? line = some (name, value)) :
    CutFrom name line ∧ CutFrom value line := by
  unfold assignment? at h
  split at h
  · cases h
  · rename_i c rest
    have hrest := List.takeWhile_append_dropWhile (p := isWordChar) (l := rest)
    split at h
    · split at h
      · rename_i more hdrop
        split at h
        · cases h
          rw [hdrop] at hrest
          constructor
          · have hn : CutFrom (c :: rest.takeWhile isWordChar)
                (c :: rest.takeWhile isWordChar ++ '=' :: more) :=
              .before _ (by rintro d ⟨⟩; decide)
            rwa [List.cons_append, hrest] at hn
          · refine (cutFrom_unquote more).trans (.of_suffix ?_)
            exact ((List.suffix_cons '=' more).trans (hdrop ▸ List.dropWhile_suffix isWordChar)).trans
              (List.suffix_cons c rest)
        · cases h
      · cases h
    · cases h

theorem cutFrom_localAssignment (s : List Char) :
    CutFrom (localAssignment s).1 s ∧ CutFrom (localAssignment s).2 s := by
  have hs := cutFrom_trim s
  unfold localAssignment
  have hcut := List.takeWhile_append_dropWhile (p := (· ≠ '=')) (l := trim s)
  dsimp only
  split
  · rename_i c more hdrop
    rw [hdrop] at hcut
    have hc : c = '=' := by
      have hhead := List.head?_dropWhile_not (· ≠ '=') (trim s)
      rw [hdrop] at hhead
      simpa using hhead
    subst hc
    constructor
    · have hn : CutFrom ((trim s).takeWhile (· ≠ '=')) ((trim s).takeWhile (· ≠ '=') ++ '=' :: more) :=
        .before _ (by rintro d ⟨⟩; decide)
      rw [hcut] at hn
      exact (cutFrom_trim _).trans (hn.trans hs)
    · refine (cutFrom_unquote more).trans (CutFrom.trans (.of_suffix ?_) hs)
      exact (List.suffix_cons '=' more).trans (hdrop ▸ List.dropWhile_suffix _)
  · exact ⟨hs, .of_suffix List.nil_suffix⟩

/-! ## 3. Texts that a body covers -/

/-- **A body covers a text**: all shell variables of the text stand in the body. -/
def Covered (body text : List Char) : Prop :=
  ∀ name, Review.Refers text name → Review.Refers body name

theorem covered_of_cutFrom {body text : List Char} (h : CutFrom text body) : Covered body text :=
  fun _ hr => hr.of_cutFrom h

theorem Covered.append {body a b : List Char} {c : Char} (hc : isWordChar c = false)
    (hd : c ∉ ['$', '\x7b', '\x7d']) (ha : Covered body a) (hb : Covered body b) :
    Covered body (a ++ c :: b) :=
  fun name h => (h.of_append hc hd).elim (ha name) (hb name)

theorem covered_of_dollarless {body text : List Char} (h : '$' ∉ text) : Covered body text :=
  fun _ hr => absurd hr.dollar_mem h

/-- The command of an assignment is covered where its name and its value are. -/
theorem covered_assignmentCommand {body : List Char} {name value : String} (isLocal : Bool)
    (hn : Covered body name.toList) (hv : Covered body value.toList) :
    Covered body (assignmentCommand name value isLocal).toList := by
  unfold assignmentCommand
  split
  · -- the declaration ends with a blank in front of the name
    have hfront : ∃ front, ("# Declare " ++ scopeName isLocal ++ " variable ").toList =
        front ++ [' '] ∧ '$' ∉ front := by
      cases isLocal
      · exact ⟨"# Declare global variable".toList, by decide, by decide⟩
      · exact ⟨"# Declare local variable".toList, by decide, by decide⟩
    obtain ⟨front, hfront, hfree⟩ := hfront
    rw [String.toList_append, hfront, List.append_assoc]
    exact .append (by decide) (by decide) (covered_of_dollarless hfree) hn
  · have hquoted : Covered body ('"' :: (value.toList ++ ['"'])) :=
      .append (a := []) (by decide) (by decide) (covered_of_dollarless (by simp))
        (.append (by decide) (by decide) hv (covered_of_dollarless (by simp)))
    simpa using Covered.append (c := '=') (by decide) (by decide) hn hquoted

/-- The source of a loop is covered where its lines are. -/
theorem covered_sourceOf {body : List Char} {lines : List Line}
    (h : ∀ line ∈ lines, Covered body line) : Covered body (sourceOf lines).toList := by
  unfold sourceOf joinWith
  replace h : ∀ line ∈ lines.filter (!·.isEmpty), Covered body line :=
    fun line hl => h line (List.mem_of_mem_filter hl)
  generalize lines.filter (!·.isEmpty) = kept at h
  induction kept with
  | nil => exact covered_of_dollarless (by simp)
  | cons line rest ih =>
    obtain ⟨hline, hrest⟩ := List.forall_mem_cons.mp h
    cases rest with
    | nil => simpa using hline
    | cons next rest =>
      have htext : ("\n".intercalate ((line :: next :: rest).map String.ofList)).toList =
          line ++ '\n' :: ("\n".intercalate ((next :: rest).map String.ofList)).toList := by
        simp [String.intercalate_cons_cons]
      rw [htext]
      exact .append (by decide) (by decide) hline (ih hrest)

/-- **A body covers a statement**: it covers its texts, and a choice goes by the variable that a line of
the body names. -/
structure Statement.Covered (body : String) (s : Statement) : Prop where
  texts : ∀ text ∈ s.ownTexts, ShellFunction.Covered body.toList text.toList
  selector : ∀ selector arms, s = .choice selector arms →
    ∃ line ∈ linesOfBody body, caseSelector? line = some selector.toList

/-- What a body covers of a part of a layout. -/
def Part.Covered (body : String) : Part → Prop
  | .block _ ss _ => ∀ s ∈ walkBlock ss, s.Covered body
  | .statement _ s => ∀ s' ∈ s.walk, s'.Covered body
  | .conditional header s => CutFrom header body.toList → ∀ s' ∈ s.walk, s'.Covered body
  | .arms value => (∀ arm ∈ value, ShellFunction.Covered body.toList arm.1.toList) ∧
      ∀ s ∈ walkArms value, s.Covered body

theorem cutFrom_of_mem_linesOfBody {body : String} {line : Line} (h : line ∈ linesOfBody body) :
    CutFrom line body.toList := by
  obtain ⟨raw, hraw, rfl⟩ := List.mem_map.mp h
  exact (cutFrom_trim raw).trans (cutFrom_of_mem_linesOf hraw)

/-- A statement is covered that has one text, which is cut out of the body. -/
theorem Statement.Covered.of_text {body : String} {s : Statement} {text : List Char}
    (hs : s.ownTexts = [String.ofList text]) (hk : ∀ selector arms, s ≠ .choice selector arms)
    (h : ShellFunction.Covered body.toList text) : s.Covered body where
  texts := by
    rw [hs, List.forall_mem_singleton, String.toList_ofList]
    exact h
  selector selector arms he := absurd he (hk selector arms)

theorem covered_simpleStatement {body : String} {line : Line} (h : CutFrom line body.toList) :
    (simpleStatement line).Covered body := by
  have assignment : ∀ {name value : Line} {isLocal : Bool}, CutFrom name line → CutFrom value line →
      (Statement.assignment (String.ofList name) (String.ofList value) isLocal).Covered body := by
    intro name value isLocal hn hv
    refine ⟨?_, by simp⟩
    simp only [Statement.ownTexts, List.mem_cons, List.not_mem_nil, or_false, forall_eq_or_imp,
      forall_eq, String.toList_ofList]
    exact ⟨covered_of_cutFrom (hn.trans h), covered_of_cutFrom (hv.trans h)⟩
  unfold simpleStatement
  split
  · rename_i declaration hd
    have hcut := cutFrom_localAssignment declaration
    have hd := CutFrom.of_suffix (suffix_of_dropStart? hd)
    exact assignment (hcut.1.trans hd) (hcut.2.trans hd)
  · split
    · rename_i name value ha
      exact assignment (cutFrom_assignment? ha).1 (cutFrom_assignment? ha).2
    · exact .of_text rfl (by simp) (covered_of_cutFrom h)

theorem covered_ending {body : String} {kind : BlockKind} {line : Line} {ending : Ending}
    (h : endingOf? kind line = some ending) (hl : CutFrom line body.toList) :
    ∀ s ∈ walkBlock ending.statements, s.Covered body := by
  cases endsBlock_of_endingOf? h with
  | otherwise | fi | elif | elseFi | esac | done => exact List.forall_mem_nil _
  | @armEnd _ text hd =>
    have hcut := (cutFrom_trim text).trans ((cutFrom_of_dropEnd? hd (by rintro d ⟨⟩; decide)).trans hl)
    cases ht : trim text with
    | nil => exact List.forall_mem_nil _
    | cons c rest =>
      rw [ht] at hcut
      exact List.forall_mem_singleton.mpr (.of_text rfl (by simp) (covered_of_cutFrom hcut))

/-- The pattern of an arm is covered where the line at its head is. -/
theorem covered_pattern {body : String} {line p : Line} (hp : CutFrom p line)
    (hl : CutFrom line body.toList) :
    Covered body.toList (String.ofList (unquote p)).toList := by
  rw [String.toList_ofList]
  exact covered_of_cutFrom ((cutFrom_unquote p).trans (hp.trans hl))

/-- **What is laid out on lines of a body is covered by it.** -/
theorem Laid.covered {body : String} {part : Part} {segments : List Segment}
    (h : Laid part segments) (hlines : ∀ line ∈ linesOf segments, line ∈ linesOfBody body) :
    part.Covered body := by
  have cut : ∀ {line : Line}, line ∈ linesOfBody body → CutFrom line body.toList :=
    cutFrom_of_mem_linesOfBody
  induction h with
  | finished => exact List.forall_mem_nil _
  | @ended kind line ending h =>
    rw [linesOf_cons, lines_endSegment] at hlines
    exact covered_ending h (cut (hlines line List.mem_cons_self))
  | skip _ _ _ ih => exact ih (List.forall_mem_cons.mp hlines).2
  | next _ _ _ _ ihs ihl =>
    rw [linesOf_append] at hlines
    obtain ⟨hfirst, hlater⟩ := List.forall_mem_append.mp hlines
    exact List.forall_mem_append.mpr ⟨ihs hfirst, ihl hlater⟩
  | @oneLine line _ =>
    refine List.forall_mem_singleton.mpr (.of_text rfl (by simp) (covered_of_cutFrom (cut ?_)))
    exact hlines line List.mem_cons_self
  | @simple line _ =>
    have hs := covered_simpleStatement (cut (hlines line List.mem_cons_self))
    have hwalk : (simpleStatement line).walk = [simpleStatement line] := by
      unfold simpleStatement
      split
      · rfl
      · split <;> rfl
    show ∀ s ∈ (simpleStatement line).walk, _
    rw [hwalk]
    exact List.forall_mem_singleton.mpr hs
  | @compound line _ _ _ _ ih =>
    obtain ⟨hline, hrest⟩ := List.forall_mem_cons.mp hlines
    exact ih hrest (cut hline)
  | @choice line selector arms _ _ hs _ ih =>
    obtain ⟨hline, hrest⟩ := List.forall_mem_cons.mp hlines
    obtain ⟨hpatterns, hbodies⟩ := ih hrest
    refine List.forall_mem_cons.mpr ⟨⟨?_, ?_⟩, hbodies⟩
    · intro text ht
      obtain ⟨arm, harm, rfl⟩ := List.mem_map.mp ht
      exact hpatterns arm harm
    · rintro _ _ ⟨⟩
      exact ⟨line, hline, by rwa [String.toList_ofList]⟩
  | @forLoop line name items inlineDo loopBody ending segments _ _ _ _ =>
    refine List.forall_mem_singleton.mpr ⟨List.forall_mem_singleton.mpr ?_, by simp⟩
    exact covered_sourceOf fun l hl => covered_of_cutFrom (cut (hlines l (List.mem_append_left _ hl)))
  | @whileLoop line condition inlineDo loopBody ending segments _ hh _ ih =>
    rw [linesOf_cons, linesOf_append] at hlines
    obtain ⟨hline, hrest⟩ := List.forall_mem_append.mp hlines
    have hcondition := covered_of_cutFrom
      ((cutFrom_whileHead? hh).trans (cut (hline line List.mem_cons_self)))
    exact List.forall_mem_cons.mpr
      ⟨.of_text rfl (by simp) hcondition, ih (List.forall_mem_append.mp hrest).2⟩
  | @withoutElse header t segments _ ih =>
    intro hheader
    rw [linesOf_append] at hlines
    have hcondition := covered_of_cutFrom ((cutFrom_conditionOf header).trans hheader)
    exact List.forall_mem_cons.mpr
      ⟨.of_text rfl (by simp) hcondition, ih (List.forall_mem_append.mp hlines).2⟩
  | @withElse header t el ending segments more _ _ ih iho =>
    intro hheader
    rw [linesOf_append, linesOf_append] at hlines
    obtain ⟨hfront, hmore⟩ := List.forall_mem_append.mp hlines
    have hcondition := covered_of_cutFrom ((cutFrom_conditionOf header).trans hheader)
    exact List.forall_mem_cons.mpr ⟨.of_text rfl (by simp) hcondition,
      List.forall_mem_append.mpr ⟨ih (List.forall_mem_append.mp hfront).2, iho hmore⟩⟩
  | @withElif header next t nested segments more inner _ ih iho =>
    intro hheader
    rw [linesOf_append, linesOf_append] at hlines
    obtain ⟨hfront, hmore⟩ := List.forall_mem_append.mp hlines
    have hsegments := (List.forall_mem_append.mp hfront).2
    have hcondition := covered_of_cutFrom ((cutFrom_conditionOf header).trans hheader)
    -- the further condition starts inside of the line that ends the block
    have hnext : CutFrom next body.toList := by
      obtain ⟨line, hl, he⟩ := inner.exists_line rfl
      obtain rfl : next = line.drop 2 := by
        cases endsBlock_of_endingOf? he
        rfl
      exact (CutFrom.of_suffix (List.drop_suffix 2 line)).trans (cut (hsegments line hl))
    refine List.forall_mem_cons.mpr ⟨.of_text rfl (by simp) hcondition,
      List.forall_mem_append.mpr ⟨ih hsegments, ?_⟩⟩
    simpa [walkBlock] using iho hmore hnext
  | esac => exact ⟨List.forall_mem_nil _, List.forall_mem_nil _⟩
  | @inlineArm line p text arms segments _ hi _ ih =>
    rw [linesOf_append, linesOf_armSegments] at hlines
    obtain ⟨hfront, hlater⟩ := List.forall_mem_append.mp hlines
    have hline := cut (hfront line List.mem_cons_self)
    obtain ⟨hp, ht⟩ := cutFrom_inlineArm? hi
    obtain ⟨hpatterns, hbodies⟩ := ih hlater
    exact ⟨List.forall_mem_cons.mpr ⟨covered_pattern hp hline, hpatterns⟩,
      List.forall_mem_append.mpr ⟨List.forall_mem_singleton.mpr
        (.of_text rfl (by simp) (covered_of_cutFrom (ht.trans hline))), hbodies⟩⟩
  | @between line _ _ _ _ _ _ ih =>
    refine ih fun l hl => hlines l ?_
    rw [linesOf_cons]
    exact List.mem_append_right _ hl
  | @lastArm line p armBody segments _ _ hp _ ih =>
    obtain ⟨hline, hrest⟩ := List.forall_mem_cons.mp hlines
    have hcut := cutFrom_of_dropEnd? hp (by rintro d ⟨⟩; decide)
    exact ⟨List.forall_mem_singleton.mpr (covered_pattern hcut (cut hline)),
      List.forall_mem_append.mpr ⟨ih hrest, List.forall_mem_nil _⟩⟩
  | @arm line p armBody text arms segments more _ _ hp _ _ ih ihl =>
    rw [linesOf_append, linesOf_armSegments] at hlines
    obtain ⟨hfront, hlater⟩ := List.forall_mem_append.mp hlines
    obtain ⟨hline, hrest⟩ := List.forall_mem_cons.mp hfront
    have hcut := cutFrom_of_dropEnd? hp (by rintro d ⟨⟩; decide)
    obtain ⟨hpatterns, hbodies⟩ := ihl hlater
    exact ⟨List.forall_mem_cons.mpr ⟨covered_pattern hcut (cut hline), hpatterns⟩,
      List.forall_mem_append.mpr ⟨ih hrest, hbodies⟩⟩

/-- **The statements of a body are covered by it.** -/
theorem covered_of_ofText {body : String} {block : List Statement}
    (h : Statement.ofText body = .ok block) : ∀ s ∈ walkBlock block, s.Covered body := by
  obtain ⟨segments, hlines, hlaid⟩ := ofText_eq_ok_iff.mp h
  exact hlaid.covered fun line hl => hlines ▸ hl

end ShellFunction

end Runbook
