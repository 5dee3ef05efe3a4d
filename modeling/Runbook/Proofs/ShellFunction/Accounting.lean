import Runbook.Proofs.ShellFunction.Grammar
import Runbook.Proofs.Text.Lines

/-!
# What becomes of each line of a body

Every line of a body that is read stands in one segment of its layout, and the segments say what becomes
of their lines. Most lines are skipped, hold the tree together or are a text of the tree; but between the
arms of a choice a line that is no arm is passed over, and of several arms of any value only the last one
is kept:

* `Item`, `Statement.items`: the texts that a tree keeps, in order;
* `Segment.items`, `Laid.items`: a layout brings these texts, in this order;
* `isKeyword`, `TextOf`, `Segment.Sound`: what a line must be to stand where it stands;
* `Laid.withoutStray`: lines that are passed over make no difference;
* **`accounts_of_ofText`**: the lines of a body, accounted for.
-/

namespace Runbook.ShellFunction

/-! ## 1. The texts that a tree keeps -/

/-- A text that a tree keeps: that of a command or an assignment, or the source of a loop over items. -/
inductive Item where
  | leaf (s : Statement)
  | source (text : String)

mutual

/-- The texts that a statement keeps, in order. -/
def Statement.items : Statement → List Item
  | .command text => [.leaf (.command text)]
  | .conditional _ thenBlock none => itemsOfBlock thenBlock
  | .conditional _ thenBlock (some elseBlock) => itemsOfBlock thenBlock ++ itemsOfBlock elseBlock
  | .choice _ arms => itemsOfArms arms
  | .forLoop _ _ source _ => [.source source]
  | .whileLoop _ body => itemsOfBlock body
  | .assignment name value isLocal => [.leaf (.assignment name value isLocal)]

/-- The texts that a block keeps. -/
def itemsOfBlock : List Statement → List Item
  | [] => []
  | s :: rest => s.items ++ itemsOfBlock rest

/-- The texts that arms keep: of several arms of any value, only the last one has any. -/
def itemsOfArms : List (String × List Statement) → List Item
  | [] => []
  | (p, body) :: rest =>
    if isReplaced p rest then itemsOfArms rest else itemsOfBlock body ++ itemsOfArms rest

end

/-- The texts that a segment brings. -/
def Segment.items : Segment → List Item
  | .skipped _ => []
  | .keyword _ => []
  | .leaf _ s => [.leaf s]
  | .loop lines => [.source (sourceOf lines)]
  | .stray _ => []
  | .replaced _ => []

/-- The texts that segments bring. -/
def itemsOf (segments : List Segment) : List Item := segments.flatMap Segment.items

theorem itemsOf_append (a b : List Segment) : itemsOf (a ++ b) = itemsOf a ++ itemsOf b :=
  List.flatMap_append

theorem itemsOf_cons (s : Segment) (rest : List Segment) :
    itemsOf (s :: rest) = s.items ++ itemsOf rest := List.flatMap_cons

theorem itemsOf_keywords (lines : List Line) : itemsOf (lines.map .keyword) = [] := by
  induction lines with
  | nil => rfl
  | cons line rest ih => rw [List.map_cons, itemsOf_cons, ih]; rfl

/-- The texts that a part keeps. -/
def Part.items : Part → List Item
  | .block _ ss _ => itemsOfBlock ss
  | .statement _ s => s.items
  | .conditional _ s => s.items
  | .arms value => itemsOfArms value

theorem items_armSegments (p : String) (body : List Statement)
    (later : List (String × List Statement)) {segments : List Segment}
    (h : itemsOf segments = itemsOfBlock body) :
    itemsOf (armSegments p later segments) ++ itemsOfArms later =
      itemsOfArms ((p, body) :: later) := by
  rw [itemsOfArms]
  cases hr : isReplaced p later with
  | true =>
    rw [armSegments_of_replaced hr]
    rfl
  | false => rw [armSegments_of_kept hr, if_neg (by simp), h]

/-- **A layout brings the texts that the tree keeps, in their order.** -/
theorem Laid.items {part : Part} {segments : List Segment} (h : Laid part segments) :
    itemsOf segments = part.items := by
  induction h with
  | finished => rfl
  | @ended kind line ending h =>
    show itemsOf [endSegment line ending] = itemsOfBlock ending.statements
    match ending with
    | .armEnd (c :: text) => rfl
    | .armEnd [] | .otherwise | .otherwiseIf _ | .fi | .esac | .done => rfl
  | skip _ _ _ ih => exact ih
  | next _ _ _ _ ihs ihl => rw [itemsOf_append, ihs, ihl]; rfl
  | oneLine | esac => rfl
  | @simple line h =>
    show [Item.leaf (simpleStatement line)] = (simpleStatement line).items
    unfold simpleStatement
    split
    · rfl
    · split <;> rfl
  | compound _ _ ih => exact ih
  | choice _ _ _ ih => exact ih
  | forLoop => rfl
  | whileLoop _ _ _ ih =>
    rw [itemsOf_cons, itemsOf_append, itemsOf_keywords, ih]
    rfl
  | withoutElse _ ih =>
    rw [itemsOf_append, itemsOf_keywords, ih]
    rfl
  | withElse _ _ ih iho =>
    rw [itemsOf_append, itemsOf_append, itemsOf_keywords, ih, iho]
    rfl
  | withElif _ _ ih iho =>
    rw [itemsOf_append, itemsOf_append, itemsOf_keywords, ih, iho]
    simp [Part.items, Statement.items, itemsOfBlock]
  | inlineArm _ _ _ ih =>
    rw [itemsOf_append, ih]
    exact items_armSegments _ _ _ rfl
  | @between line arms segments _ _ _ _ ih =>
    rw [itemsOf_cons, ih]
    unfold betweenArms
    split <;> rfl
  | @lastArm line p body segments _ _ _ _ ih =>
    show itemsOf _ = itemsOfArms [(String.ofList (unquote p), body)]
    rw [itemsOfArms, if_neg (by simp [isReplaced]), itemsOf_cons, ih]
    exact (List.append_nil _).symm
  | arm _ _ _ _ _ ih ihl =>
    rw [itemsOf_append, ihl]
    exact items_armSegments _ _ _ ih

/-! ## 2. What a line must be to stand where it stands -/

/-- The ways in which a line holds a tree together: it is a keyword or starts with one, it ends like the
head of an arm, or it only ends an arm. -/
inductive Keyword : Line → Prop
  | word {word : String} (h : word ∈ ["then", "elif", "else", "fi", "do", "done", "esac"]) :
      Keyword word.toList
  | start {line : Line} {start : String} (h : start ∈ ["if ", "elif ", "case ", "while "])
      (hs : Text.startsWith start.toList line = true) : Keyword line
  | armHead {line p : Line} (h : Text.dropEnd? [')'] line = some p) : Keyword line
  | armEnd {line : Line} {text : List Char} (h : Text.dropEnd? ";;".toList line = some text)
      (ht : Text.trim text = []) : Keyword line

/-- The ways in which a line is the text of a command or an assignment: as a whole; without the end of an
arm behind it; or without the head of an arm in front of it as well. -/
inductive TextOf (line : Line) : Statement → Prop
  | command : TextOf line (.command (String.ofList line))
  | simple : TextOf line (simpleStatement line)
  | ending {text : List Char} (h : Text.dropEnd? ";;".toList line = some text) :
      TextOf line (.command (String.ofList (Text.trim text)))
  | inlineArm {p text : Line} (h : inlineArm? line = some (p, text)) :
      TextOf line (.command (String.ofList text))

/-- What is passed over between arms: a line that ends no choice, is no arm on one line, and does not end
like the head of an arm. -/
structure PassedOver (line : Line) : Prop where
  notSkipped : isSkipped line = false
  notEsac : line ≠ "esac".toList
  notInline : inlineArm? line = none
  notHead : Text.dropEnd? [')'] line = none

/-- The head of an arm of any value, its command on the same line or not. -/
def OpensAnyValue (line : Line) : Prop :=
  ∃ p, String.ofList (unquote p) = anyValue ∧
    ((∃ text, inlineArm? line = some (p, text)) ∨ Text.dropEnd? [')'] line = some p)

/-- What the lines of a segment must be. -/
def Segment.Sound : Segment → Prop
  | .skipped line => isSkipped line = true
  | .keyword line => Keyword line
  | .leaf line s => TextOf line s
  | .loop lines => ∃ header ∈ lines.head?, openerOf header = .forLoop
  | .stray line => PassedOver line
  | .replaced lines => ∃ head ∈ lines.head?, OpensAnyValue head

/-- The line that ends a block is a keyword, or the text of a last command. -/
theorem sound_endSegment {kind : BlockKind} {line : Line} {ending : Ending}
    (h : endingOf? kind line = some ending) : (endSegment line ending).Sound := by
  cases endsBlock_of_endingOf? h with
  | otherwise | fi | elseFi | esac | done => exact .word (by simp)
  | elif hl =>
    rcases hl with rfl | hs
    · exact .word (by simp)
    · exact .start (by simp) hs
  | @armEnd _ text hd =>
    have hs : TextOf line (.command (String.ofList (Text.trim text))) := .ending hd
    cases ht : Text.trim text with
    | nil => exact Keyword.armEnd hd ht
    | cons c rest =>
      rw [ht] at hs
      exact hs

/-- What a first line is says how it starts. -/
theorem keyword_of_opener {line : Line}
    (h : openerOf line = .conditional ∨ openerOf line = .choice ∨ openerOf line = .whileLoop) :
    Keyword line := by
  unfold openerOf at h
  split_ifs at h with hone hif hcase hfor hwhile <;> simp at h
  · exact .start (by simp) hif
  · exact .start (by simp) hcase
  · exact .start (by simp) hwhile

theorem sound_keywords {lines : List Line} (h : ∀ line ∈ lines, Keyword line) :
    ∀ segment ∈ lines.map Segment.keyword, segment.Sound := by
  intro segment hs
  obtain ⟨line, hl, rfl⟩ := List.mem_map.mp hs
  exact h line hl

theorem keyword_doLines (inlineDo : Bool) : ∀ line ∈ doLines inlineDo, Keyword line := by
  cases inlineDo with
  | true => nofun
  | false => exact List.forall_mem_singleton.mpr (.word (by simp))

theorem keyword_conditionOf (header : Line) : ∀ line ∈ (conditionOf header).2, Keyword line := by
  unfold conditionOf
  cases inlineCondition? header with
  | some condition => nofun
  | none => exact List.forall_mem_singleton.mpr (.word (by simp))

theorem sound_armSegments {p : String} {later : List (String × List Statement)}
    {segments : List Segment} (hs : ∀ segment ∈ segments, segment.Sound)
    (hhead : p = anyValue → ∃ head ∈ (linesOf segments).head?, OpensAnyValue head) :
    ∀ segment ∈ armSegments p later segments, segment.Sound := by
  cases hr : isReplaced p later with
  | true =>
    rw [armSegments_of_replaced hr]
    exact List.forall_mem_singleton.mpr (hhead (of_decide_eq_true (Bool.and_eq_true_iff.mp hr).1))
  | false =>
    rw [armSegments_of_kept hr]
    exact hs

/-- **Every line of a layout is what it must be to stand where it stands.** -/
theorem Laid.sound {part : Part} {segments : List Segment} (h : Laid part segments) :
    ∀ segment ∈ segments, segment.Sound := by
  induction h with
  | finished => nofun
  | ended h => exact List.forall_mem_singleton.mpr (sound_endSegment h)
  | skip _ hs _ ih => exact List.forall_mem_cons.mpr ⟨hs, ih⟩
  | next _ _ _ _ ihs ihl => exact List.forall_mem_append.mpr ⟨ihs, ihl⟩
  | oneLine => exact List.forall_mem_singleton.mpr .command
  | simple => exact List.forall_mem_singleton.mpr .simple
  | compound h _ ih => exact List.forall_mem_cons.mpr ⟨keyword_of_opener (Or.inl h), ih⟩
  | choice h _ _ ih =>
    exact List.forall_mem_cons.mpr ⟨keyword_of_opener (Or.inr (Or.inl h)), ih⟩
  | forLoop h => exact List.forall_mem_singleton.mpr ⟨_, rfl, h⟩
  | whileLoop h _ _ ih =>
    exact List.forall_mem_cons.mpr ⟨keyword_of_opener (Or.inr (Or.inr h)),
      List.forall_mem_append.mpr ⟨sound_keywords (keyword_doLines _), ih⟩⟩
  | withoutElse _ ih =>
    exact List.forall_mem_append.mpr ⟨sound_keywords (keyword_conditionOf _), ih⟩
  | withElse _ _ ih iho =>
    exact List.forall_mem_append.mpr
      ⟨List.forall_mem_append.mpr ⟨sound_keywords (keyword_conditionOf _), ih⟩, iho⟩
  | withElif _ _ ih iho =>
    exact List.forall_mem_append.mpr
      ⟨List.forall_mem_append.mpr ⟨sound_keywords (keyword_conditionOf _), ih⟩, iho⟩
  | esac => exact List.forall_mem_singleton.mpr (.word (by simp))
  | inlineArm _ h _ ih =>
    refine List.forall_mem_append.mpr ⟨sound_armSegments ?_ ?_, ih⟩
    · exact List.forall_mem_singleton.mpr (.inlineArm h)
    · exact fun hp => ⟨_, rfl, _, hp, Or.inl ⟨_, h⟩⟩
  | @between line _ _ hne hi h _ ih =>
    refine List.forall_mem_cons.mpr ⟨?_, ih⟩
    unfold betweenArms
    cases hs : isSkipped line with
    | true => exact hs
    | false => exact ⟨hs, hne, hi, h⟩
  | lastArm _ _ h _ ih => exact List.forall_mem_cons.mpr ⟨.armHead h, ih⟩
  | arm _ _ h _ _ ih ihl =>
    refine List.forall_mem_append.mpr ⟨sound_armSegments ?_ ?_, ihl⟩
    · exact List.forall_mem_cons.mpr ⟨.armHead h, ih⟩
    · exact fun hp => ⟨_, rfl, _, hp, Or.inr h⟩

/-! ## 3. Lines that make no difference -/

/-- Whether a segment is passed over. -/
def Segment.isStray : Segment → Bool
  | .stray _ => true
  | .skipped _ => false
  | .keyword _ => false
  | .leaf _ _ => false
  | .loop _ => false
  | .replaced _ => false

/-- Segments without those that are passed over. -/
def withoutStray (segments : List Segment) : List Segment := segments.filter (!·.isStray)

theorem withoutStray_append (a b : List Segment) :
    withoutStray (a ++ b) = withoutStray a ++ withoutStray b := List.filter_append ..

theorem withoutStray_keywords (lines : List Line) :
    withoutStray (lines.map .keyword) = lines.map .keyword := by
  refine List.filter_eq_self.mpr fun segment hs => ?_
  obtain ⟨line, -, rfl⟩ := List.mem_map.mp hs
  rfl

/-- **Lines that are passed over make no difference**: without them the rest is laid out as before. -/
theorem Laid.withoutStray {part : Part} {segments : List Segment} (h : Laid part segments) :
    Laid part (withoutStray segments) := by
  induction h with
  | finished => exact .finished
  | @ended kind line ending h =>
    have hs : ShellFunction.withoutStray [endSegment line ending] = [endSegment line ending] := by
      unfold endSegment
      split <;> rfl
    rw [hs]
    exact .ended h
  | skip h hs _ ih => exact .skip h hs ih
  | next h hs _ _ ihs ihl =>
    rw [withoutStray_append]
    exact .next h hs ihs ihl
  | oneLine h => exact .oneLine h
  | simple h => exact .simple h
  | compound h _ ih => exact .compound h ih
  | choice h hs _ ih => exact .choice h hs ih
  | forLoop h hh inner => exact .forLoop h hh inner
  | whileLoop h hh _ ih =>
    rw [← List.singleton_append, withoutStray_append, withoutStray_append, withoutStray_keywords]
    exact .whileLoop h hh ih
  | withoutElse _ ih =>
    rw [withoutStray_append, withoutStray_keywords]
    exact .withoutElse ih
  | withElse _ _ ih iho =>
    rw [withoutStray_append, withoutStray_append, withoutStray_keywords]
    exact .withElse ih iho
  | withElif _ _ ih iho =>
    rw [withoutStray_append, withoutStray_append, withoutStray_keywords]
    exact .withElif ih iho
  | esac => exact .esac
  | @inlineArm line p text arms segments hne h _ ih =>
    have hs : ShellFunction.withoutStray (armSegments (String.ofList (unquote p)) arms
        [.leaf line (.command (String.ofList text))]) =
          armSegments (String.ofList (unquote p)) arms
            [.leaf line (.command (String.ofList text))] := by
      unfold armSegments
      split <;> rfl
    rw [withoutStray_append, hs]
    exact .inlineArm hne h ih
  | @between line arms segments hne hi h _ ih =>
    have hb := Laid.between hne hi h ih
    unfold betweenArms at hb ⊢
    cases hs : isSkipped line with
    | true =>
      rw [hs] at hb
      exact hb
    | false => exact ih
  | lastArm hne hi h _ ih => exact .lastArm hne hi h ih
  | @arm line p body text arms segments more hne hi h inner _ ih ihl =>
    rw [withoutStray_append]
    cases hr : isReplaced (String.ofList (unquote p)) arms with
    | true =>
      have ha := Laid.arm hne hi h inner ihl
      rw [armSegments_of_replaced hr] at ha ⊢
      exact ha
    | false =>
      have ha := Laid.arm hne hi h ih ihl
      rw [armSegments_of_kept hr] at ha ⊢
      exact ha

/-! ## 4. Bodies -/

theorem unbroken_of_mem_linesOfBody {body : String} {line : Line} (h : line ∈ linesOfBody body) :
    Text.Unbroken line := by
  obtain ⟨raw, hraw, rfl⟩ := List.mem_map.mp h
  exact fun c hc => Text.linesOf_unbroken hraw c (Text.trim_subset raw hc)

/-- The lines of a loop over items are the lines of its source, but for blank ones. -/
theorem mem_linesOf_sourceOf {lines : List Line} (hu : ∀ line ∈ lines, Text.Unbroken line)
    {line : Line} (hl : line ∈ lines) (hne : line ≠ []) :
    line ∈ Text.linesOf (sourceOf lines).toList := by
  unfold sourceOf
  rw [Text.linesOf_joinWith fun l h => ?_]
  · exact List.mem_filter.mpr ⟨hl, by simpa using hne⟩
  · obtain ⟨hl, hne⟩ := List.mem_filter.mp h
    exact ⟨hu l hl, by simpa using hne⟩

/-- **A line is accounted for in a tree**: it is blank or a comment, it holds the tree together, it is the
text of one of its commands or assignments, or a line of the source of one of its loops over items. -/
inductive Accounted (block : List Statement) (line : Line) : Prop
  | skipped (h : isSkipped line = true)
  | keyword (h : Keyword line)
  | leaf {s : Statement} (h : TextOf line s) (hm : .leaf s ∈ itemsOfBlock block)
  | source {text : String} (hm : .source text ∈ itemsOfBlock block)
      (h : line ∈ Text.linesOf text.toList)

/-- Whether the lines of a segment are in no tree. -/
def Segment.isLost : Segment → Bool
  | .stray _ => true
  | .replaced _ => true
  | .skipped _ => false
  | .keyword _ => false
  | .leaf _ _ => false
  | .loop _ => false

/-- **How the lines of a body are accounted for** in the block that it is read as.

* `laid`, `lines`: each line stands in one segment of a layout of the block;
* `sound`: it is what it must be to stand there;
* `items`: the segments bring the texts of the block, in their order and no others;
* `accounted`: a line is accounted for in the block, unless it is passed over or replaced;
* `idle`: without the lines that are passed over, a body is read as the same block. -/
structure Accounts (body : String) (block : List Statement) (segments : List Segment) : Prop where
  laid : Laid (.block .body block none) segments
  lines : linesOf segments = linesOfBody body
  sound : ∀ segment ∈ segments, segment.Sound
  items : itemsOf segments = itemsOfBlock block
  accounted : ∀ line ∈ linesOfBody body, Accounted block line ∨
    ∃ segment ∈ segments, segment.isLost = true ∧ line ∈ segment.lines
  idle : ∀ other, linesOfBody other = linesOf (withoutStray segments) →
    Statement.ofText other = .ok block

/-- **The lines of every body that is read are accounted for, but for those that are passed over between
arms and those of a replaced arm.** -/
theorem accounts_of_ofText {body : String} {block : List Statement}
    (h : Statement.ofText body = .ok block) : ∃ segments, Accounts body block segments := by
  obtain ⟨segments, hlines, hlaid⟩ := ofText_eq_ok_iff.mp h
  have hitems : itemsOf segments = itemsOfBlock block := hlaid.items
  refine ⟨segments, hlaid, hlines, hlaid.sound, hitems, ?_, ?_⟩
  · intro line hl
    rw [← hlines] at hl
    obtain ⟨segment, hs, hl⟩ := List.mem_flatMap.mp hl
    have hsound := hlaid.sound segment hs
    have hbrings : ∀ item ∈ segment.items, item ∈ itemsOfBlock block := by
      intro item hitem
      rw [← hitems]
      exact List.mem_flatMap.mpr ⟨segment, hs, hitem⟩
    cases segment with
    | skipped l =>
      obtain rfl := List.mem_singleton.mp hl
      exact Or.inl (.skipped hsound)
    | keyword l =>
      obtain rfl := List.mem_singleton.mp hl
      exact Or.inl (.keyword hsound)
    | leaf l s =>
      obtain rfl := List.mem_singleton.mp hl
      exact Or.inl (.leaf hsound (hbrings _ List.mem_cons_self))
    | loop ls =>
      by_cases hne : line = []
      · exact Or.inl (.skipped (by rw [hne]; rfl))
      · have hu : ∀ l ∈ ls, Text.Unbroken l := by
          intro l hmem
          refine @unbroken_of_mem_linesOfBody body _ ?_
          rw [← hlines]
          exact List.mem_flatMap.mpr ⟨_, hs, hmem⟩
        exact Or.inl (.source (hbrings _ List.mem_cons_self) (mem_linesOf_sourceOf hu hl hne))
    | stray l => exact Or.inr ⟨_, hs, rfl, hl⟩
    | replaced ls => exact Or.inr ⟨_, hs, rfl, hl⟩
  · exact fun other ho => ofText_eq_ok_iff.mpr ⟨_, ho.symm, hlaid.withoutStray⟩

/-- A choice with a line between its head and its first arm. -/
def strayBody : String := "case $x in\necho lost\na) echo a ;;\nesac"

theorem ofText_strayBody :
    Statement.ofText strayBody = .ok [.choice "x" [("a", [.command "echo a"])]] := by
  refine ofText_eq_ok_iff.mpr ⟨[.keyword "case $x in".toList, .stray "echo lost".toList,
    .leaf "a) echo a ;;".toList (.command "echo a"), .keyword "esac".toList], by decide, ?_⟩
  have harms : Laid (.arms [("a", [.command "echo a"])]) [.stray "echo lost".toList,
      .leaf "a) echo a ;;".toList (.command "echo a"), .keyword "esac".toList] :=
    .between (by decide : "echo lost".toList ≠ _) (by decide) (by decide)
      (.inlineArm (by decide : "a) echo a ;;".toList ≠ _)
        (by decide : _ = some ("a".toList, "echo a".toList)) .esac)
  have hchoice := Laid.choice (by decide : openerOf "case $x in".toList = .choice)
    (by decide : _ = some "x".toList) harms
  exact .next (by decide) (by decide) hchoice .finished

/-- The line is passed over: nothing in the tree accounts for it. -/
theorem strayBody_unaccounted :
    ¬ ∀ body block, Statement.ofText body = .ok block →
      ∀ line ∈ linesOfBody body, Accounted block line := by
  intro h
  have hline : "echo lost".toList ∈ linesOfBody strayBody := by decide
  generalize hl : "echo lost".toList = line at hline
  cases h strayBody _ ofText_strayBody line hline with
  | skipped hs => exact absurd (hl ▸ hs) (by decide)
  | keyword hk =>
    cases hk with
    | @word word hw =>
      simp only [List.mem_cons, List.not_mem_nil, or_false] at hw
      rcases hw with rfl | rfl | rfl | rfl | rfl | rfl | rfl <;> exact absurd hl (by decide)
    | start hw hs =>
      simp only [List.mem_cons, List.not_mem_nil, or_false] at hw
      rcases hw with rfl | rfl | rfl | rfl <;> exact absurd (hl ▸ hs) (by decide)
    | armHead ha =>
      rw [← hl, (by decide : Text.dropEnd? [')'] "echo lost".toList = none)] at ha
      cases ha
    | armEnd ha =>
      rw [← hl, (by decide : Text.dropEnd? ";;".toList "echo lost".toList = none)] at ha
      cases ha
  | @leaf s ht hm =>
    obtain rfl : s = .command "echo a" := by simpa [itemsOfBlock, Statement.items, itemsOfArms,
      isReplaced, anyValue] using hm
    generalize hs : Statement.command "echo a" = s at ht
    cases ht with
    | command =>
      rw [← hl] at hs
      exact absurd (Statement.command.inj hs) (by decide)
    | simple =>
      have hsimple : simpleStatement "echo lost".toList = .command "echo lost" := rfl
      rw [← hl, hsimple] at hs
      exact absurd (Statement.command.inj hs) (by decide)
    | ending ha =>
      rw [← hl, (by decide : Text.dropEnd? ";;".toList "echo lost".toList = none)] at ha
      cases ha
    | inlineArm ha =>
      rw [← hl, (by decide : inlineArm? "echo lost".toList = none)] at ha
      cases ha
  | source hm =>
    simp [itemsOfBlock, Statement.items, itemsOfArms, isReplaced, anyValue] at hm

/-- The layout of the body accounts for the lines but for the one that is passed over. -/
theorem strayBody_accounts :
    Statement.ofText strayBody = .ok [.choice "x" [("a", [.command "echo a"])]] ∧
      ∃ segments, Accounts strayBody [.choice "x" [("a", [.command "echo a"])]] segments :=
  ⟨ofText_strayBody, accounts_of_ofText ofText_strayBody⟩

end Runbook.ShellFunction
