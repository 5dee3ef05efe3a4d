import Mathlib.Tactic.SplitIfs
import Runbook.Proofs.Fallible
import Runbook.ShellFunction.Block

/-!
# The layout of a body

How the lines of a body are laid out, said by rules, one for each thing that a line can be. A layout cuts
the lines into segments, by what becomes of them:

* `Segment`: a stretch of lines: skipped, a keyword, a command or an assignment, a whole loop over items,
  passed over, or replaced;
* `Opener`, `openerOf`: what a statement is by its first line;
* `Part`, **`Laid`**: the rules;
* `readBlock_laid`, `Laid.read`: the readers find a layout, and they find the one there is;
* **`ofText_eq_ok_iff`**: a body is read as some statements exactly if it is laid out as them.
-/

namespace Runbook.ShellFunction

/-! ## 1. Segments -/

/-- A stretch of the lines of a body, by what becomes of it: blank lines and comments are skipped; the
keywords of compounds and the heads of arms and loops hold the tree together; a line may be a command or
an assignment; a whole loop over items is one text; between the arms of a choice a line may be passed
over; and the lines of an arm of any value are replaced by a later such arm. -/
inductive Segment where
  | skipped (line : Line)
  | keyword (line : Line)
  | leaf (line : Line) (s : Statement)
  | loop (lines : List Line)
  | stray (line : Line)
  | replaced (lines : List Line)

/-- The lines of a segment. -/
def Segment.lines : Segment → List Line
  | .skipped line => [line]
  | .keyword line => [line]
  | .leaf line _ => [line]
  | .loop lines => lines
  | .stray line => [line]
  | .replaced lines => lines

/-- The lines of segments. -/
def linesOf (segments : List Segment) : List Line := segments.flatMap Segment.lines

@[simp] theorem linesOf_nil : linesOf [] = [] := rfl

@[simp] theorem linesOf_cons (s : Segment) (rest : List Segment) :
    linesOf (s :: rest) = s.lines ++ linesOf rest := rfl

@[simp] theorem linesOf_append (a b : List Segment) : linesOf (a ++ b) = linesOf a ++ linesOf b :=
  List.flatMap_append

/-! ## 2. First lines -/

/-- What a statement is, by its first line. -/
inductive Opener where
  | oneLine
  | conditional
  | choice
  | forLoop
  | whileLoop
  | simple
deriving DecidableEq, Repr

/-- What a statement is that starts with a line. -/
def openerOf (line : Line) : Opener :=
  if isOneLine line then .oneLine
  else if Text.startsWith "if ".toList line then .conditional
  else if Text.startsWith "case ".toList line then .choice
  else if Text.startsWith "for ".toList line then .forLoop
  else if Text.startsWith "while ".toList line then .whileLoop
  else .simple

/-- The condition of a conditional by its first line, and the line of `then` if it has one of its own. -/
def conditionOf (header : Line) : List Char × List Line :=
  match inlineCondition? header with
  | some condition => (condition, [])
  | none => (Text.trim (header.drop 3), ["then".toList])

/-- The line of `do`, if it has one of its own. -/
def doLines (inlineDo : Bool) : List Line := if inlineDo then [] else ["do".toList]

/-- The text of a loop over items: its lines, blank ones left out. -/
def sourceOf (lines : List Line) : String :=
  Text.joinWith "\n" ((lines.filter (!·.isEmpty)).map String.ofList)

/-- The segment of the line that ends a block: it may bring a last command. -/
def endSegment (line : Line) (ending : Ending) : Segment :=
  match ending.statements with
  | [] => .keyword line
  | s :: _ => .leaf line s

/-- The segment of a line between arms that is none. -/
def betweenArms (line : Line) : Segment := if isSkipped line then .skipped line else .stray line

/-- Whether an arm is replaced: it takes any value, and so does a later one. -/
def isReplaced (p : String) (later : List (String × List Statement)) : Bool :=
  p = anyValue && later.any fun arm => arm.1 = anyValue

/-- The segments of an arm in front of others. -/
def armSegments (p : String) (later : List (String × List Statement)) (segments : List Segment) :
    List Segment :=
  if isReplaced p later then [.replaced (linesOf segments)] else segments

theorem armSegments_of_replaced {p : String} {later : List (String × List Statement)}
    (h : isReplaced p later = true) (segments : List Segment) :
    armSegments p later segments = [.replaced (linesOf segments)] := by
  unfold armSegments
  rw [if_pos h]

theorem armSegments_of_kept {p : String} {later : List (String × List Statement)}
    (h : isReplaced p later = false) (segments : List Segment) :
    armSegments p later segments = segments := by
  unfold armSegments
  rw [h]
  rfl

/-! ## 3. The rules -/

/-- What lines can be laid out as: a block up to and with the line that ends it, a statement with its
first line, a conditional behind its first line, or the arms of a choice up to and with the line that
ends them. -/
inductive Part where
  | block (kind : BlockKind) (statements : List Statement) (ending : Option Ending)
  | statement (line : Line) (s : Statement)
  | conditional (header : Line) (s : Statement)
  | arms (arms : List (String × List Statement))

/-- **How lines are laid out.** -/
inductive Laid : Part → List Segment → Prop
  -- a block: statements up to the line that ends it, or up to the last line
  | finished {kind : BlockKind} : Laid (.block kind [] none) []
  | ended {kind : BlockKind} {line : Line} {ending : Ending}
      (h : endingOf? kind line = some ending) :
      Laid (.block kind ending.statements (some ending)) [endSegment line ending]
  | skip {kind : BlockKind} {line : Line} {ss : List Statement} {ending : Option Ending}
      {segments : List Segment} (h : endingOf? kind line = none) (hs : isSkipped line = true)
      (later : Laid (.block kind ss ending) segments) :
      Laid (.block kind ss ending) (.skipped line :: segments)
  | next {kind : BlockKind} {line : Line} {s : Statement} {ss : List Statement}
      {ending : Option Ending} {first segments : List Segment} (h : endingOf? kind line = none)
      (hs : isSkipped line = false) (statement : Laid (.statement line s) first)
      (later : Laid (.block kind ss ending) segments) :
      Laid (.block kind (s :: ss) ending) (first ++ segments)
  -- a statement, by its first line
  | oneLine {line : Line} (h : openerOf line = .oneLine) :
      Laid (.statement line (.command (String.ofList line)))
        [.leaf line (.command (String.ofList line))]
  | simple {line : Line} (h : openerOf line = .simple) :
      Laid (.statement line (simpleStatement line)) [.leaf line (simpleStatement line)]
  | compound {line : Line} {s : Statement} {segments : List Segment}
      (h : openerOf line = .conditional) (inner : Laid (.conditional line s) segments) :
      Laid (.statement line s) (.keyword line :: segments)
  | choice {line selector : Line} {arms : List (String × List Statement)}
      {segments : List Segment} (h : openerOf line = .choice)
      (hs : caseSelector? line = some selector) (inner : Laid (.arms arms) segments) :
      Laid (.statement line (.choice (String.ofList selector) arms)) (.keyword line :: segments)
  | forLoop {line name items : Line} {inlineDo : Bool} {body : List Statement} {ending : Ending}
      {segments : List Segment} (h : openerOf line = .forLoop)
      (hh : forHead? line = some (name, items, inlineDo))
      (inner : Laid (.block .loopBody body (some ending)) segments) :
      Laid (.statement line (.forLoop (String.ofList name) (String.ofList items)
          (sourceOf (line :: (doLines inlineDo ++ linesOf segments))) body))
        [.loop (line :: (doLines inlineDo ++ linesOf segments))]
  | whileLoop {line condition : Line} {inlineDo : Bool} {body : List Statement} {ending : Ending}
      {segments : List Segment} (h : openerOf line = .whileLoop)
      (hh : whileHead? line = some (condition, inlineDo))
      (inner : Laid (.block .loopBody body (some ending)) segments) :
      Laid (.statement line (.whileLoop (String.ofList condition) body))
        (.keyword line :: ((doLines inlineDo).map .keyword ++ segments))
  -- a conditional behind its first line
  | withoutElse {header : Line} {t : List Statement} {segments : List Segment}
      (inner : Laid (.block .thenBlock t (some .fi)) segments) :
      Laid (.conditional header (.conditional (String.ofList (conditionOf header).1) t none))
        ((conditionOf header).2.map .keyword ++ segments)
  | withElse {header : Line} {t el : List Statement} {ending : Ending}
      {segments more : List Segment} (inner : Laid (.block .thenBlock t (some .otherwise)) segments)
      (other : Laid (.block .elseBlock el (some ending)) more) :
      Laid (.conditional header (.conditional (String.ofList (conditionOf header).1) t (some el)))
        ((conditionOf header).2.map .keyword ++ segments ++ more)
  | withElif {header next : Line} {t : List Statement} {nested : Statement}
      {segments more : List Segment}
      (inner : Laid (.block .thenBlock t (some (.otherwiseIf next))) segments)
      (other : Laid (.conditional next nested) more) :
      Laid (.conditional header
          (.conditional (String.ofList (conditionOf header).1) t (some [nested])))
        ((conditionOf header).2.map .keyword ++ segments ++ more)
  -- the arms of a choice
  | esac : Laid (.arms []) [.keyword "esac".toList]
  | inlineArm {line p text : Line} {arms : List (String × List Statement)}
      {segments : List Segment} (hne : line ≠ "esac".toList)
      (h : inlineArm? line = some (p, text)) (later : Laid (.arms arms) segments) :
      Laid (.arms ((String.ofList (unquote p), [.command (String.ofList text)]) :: arms))
        (armSegments (String.ofList (unquote p)) arms
          [.leaf line (.command (String.ofList text))] ++ segments)
  | between {line : Line} {arms : List (String × List Statement)} {segments : List Segment}
      (hne : line ≠ "esac".toList) (hi : inlineArm? line = none)
      (h : Text.dropEnd? [')'] line = none) (later : Laid (.arms arms) segments) :
      Laid (.arms arms) (betweenArms line :: segments)
  | lastArm {line p : Line} {body : List Statement} {segments : List Segment}
      (hne : line ≠ "esac".toList) (hi : inlineArm? line = none)
      (h : Text.dropEnd? [')'] line = some p)
      (inner : Laid (.block .arm body (some .esac)) segments) :
      Laid (.arms [(String.ofList (unquote p), body)]) (.keyword line :: segments)
  | arm {line p : Line} {body : List Statement} {text : List Char}
      {arms : List (String × List Statement)} {segments more : List Segment}
      (hne : line ≠ "esac".toList) (hi : inlineArm? line = none)
      (h : Text.dropEnd? [')'] line = some p)
      (inner : Laid (.block .arm body (some (.armEnd text))) segments)
      (later : Laid (.arms arms) more) :
      Laid (.arms ((String.ofList (unquote p), body) :: arms))
        (armSegments (String.ofList (unquote p)) arms (.keyword line :: segments) ++ more)

/-- A block that ends has ended at one of its lines, which ends blocks of its kind. -/
theorem Laid.exists_line {part : Part} {segments : List Segment} (h : Laid part segments) :
    ∀ {kind ss ending}, part = .block kind ss (some ending) →
      ∃ line ∈ linesOf segments, endingOf? kind line = some ending := by
  induction h with
  | @ended _ line ending h =>
    rintro kind ss ending ⟨⟩
    refine ⟨line, ?_, h⟩
    unfold endSegment
    split <;> exact List.mem_cons_self
  | skip _ _ _ ih =>
    rintro kind ss ending ⟨⟩
    obtain ⟨line, hl, he⟩ := ih rfl
    exact ⟨line, List.mem_cons_of_mem _ hl, he⟩
  | next _ _ _ _ _ ih =>
    rintro kind ss ending ⟨⟩
    obtain ⟨line, hl, he⟩ := ih rfl
    rw [linesOf_append]
    exact ⟨line, List.mem_append_right _ hl, he⟩
  | finished | oneLine | simple | compound | choice | forLoop | whileLoop | withoutElse | withElse
  | withElif | esac | inlineArm | between | lastArm | arm => nofun

/-- The ways in which a line ends a block. -/
inductive EndsBlock : BlockKind → Line → Ending → Prop
  | otherwise : EndsBlock .thenBlock "else".toList .otherwise
  | fi : EndsBlock .thenBlock "fi".toList .fi
  | elif {line : Line} (h : line = "elif".toList ∨ Text.startsWith "elif ".toList line = true) :
      EndsBlock .thenBlock line (.otherwiseIf (line.drop 2))
  | elseFi : EndsBlock .elseBlock "fi".toList .fi
  | armEnd {line : Line} {text : List Char} (h : Text.dropEnd? ";;".toList line = some text) :
      EndsBlock .arm line (.armEnd (Text.trim text))
  | esac : EndsBlock .arm "esac".toList .esac
  | done : EndsBlock .loopBody "done".toList .done

theorem endsBlock_of_endingOf? {kind : BlockKind} {line : Line} {ending : Ending}
    (h : endingOf? kind line = some ending) : EndsBlock kind line ending := by
  unfold endingOf? at h
  cases kind with
  | body => cases h
  | thenBlock =>
    dsimp only at h
    split_ifs at h with helse hfi helif
    · cases h
      exact helse ▸ .otherwise
    · cases h
      exact hfi ▸ .fi
    · cases h
      exact .elif ((Bool.or_eq_true_iff.mp helif).imp of_decide_eq_true id)
  | elseBlock =>
    dsimp only at h
    split_ifs at h with hfi
    cases h
    exact hfi ▸ .elseFi
  | arm =>
    dsimp only at h
    cases hd : Text.dropEnd? ";;".toList line with
    | some text =>
      rw [hd] at h
      cases h
      exact .armEnd hd
    | none =>
      rw [hd] at h
      dsimp only at h
      split_ifs at h with hesac
      cases h
      exact hesac ▸ .esac
  | loopBody =>
    dsimp only at h
    split_ifs at h with hdone
    cases h
    exact hdone ▸ .done

/-! ## 4. The readers find a layout -/

theorem loopBody?_eq_some {inlineDo : Bool} {lines : List Line}
    {body : {body : List Line // body.length ≤ lines.length}}
    (h : loopBody? inlineDo lines = some body) : lines = doLines inlineDo ++ body.1 := by
  unfold loopBody? at h
  cases inlineDo with
  | true =>
    cases h
    rfl
  | false =>
    rw [if_neg (by simp)] at h
    cases lines with
    | nil => cases h
    | cons line rest =>
      dsimp only at h
      by_cases hdo : line = "do".toList
      · rw [if_pos hdo] at h
        cases h
        rw [hdo]
        rfl
      · rw [if_neg hdo] at h
        cases h

theorem thenBlock?_eq_some {header : Line} {lines : List Line} {condition : List Char}
    {body : {body : List Line // body.length ≤ lines.length}}
    (h : thenBlock? header lines = some (condition, body)) :
    condition = (conditionOf header).1 ∧ lines = (conditionOf header).2 ++ body.1 := by
  unfold thenBlock? at h
  unfold conditionOf
  cases hi : inlineCondition? header with
  | some inline =>
    rw [hi] at h
    cases h
    exact ⟨rfl, rfl⟩
  | none =>
    rw [hi] at h
    cases lines with
    | nil => cases h
    | cons line rest =>
      dsimp only at h ⊢
      by_cases hthen : line = "then".toList
      · rw [if_pos hthen] at h
        cases h
        exact ⟨rfl, by rw [hthen]; rfl⟩
      · rw [if_neg hthen] at h
        cases h

@[simp] theorem linesOf_keywords (lines : List Line) :
    linesOf (lines.map .keyword) = lines := by
  induction lines with
  | nil => rfl
  | cons line rest ih => simp [Segment.lines, ih]

@[simp] theorem lines_endSegment (line : Line) (ending : Ending) :
    (endSegment line ending).lines = [line] := by
  unfold endSegment
  split <;> rfl

@[simp] theorem lines_betweenArms (line : Line) : (betweenArms line).lines = [line] := by
  unfold betweenArms
  split <;> rfl

@[simp] theorem linesOf_armSegments (p : String) (later : List (String × List Statement))
    (segments : List Segment) : linesOf (armSegments p later segments) = linesOf segments := by
  unfold armSegments
  split
  · simp [Segment.lines]
  · rfl

theorem sourceBetween_append (lines rest : List Line) :
    sourceBetween (lines ++ rest) rest = sourceOf lines := by
  unfold sourceBetween sourceOf
  rw [List.length_append, Nat.add_sub_cancel, List.take_left]

/-- A block that ends with the last line leaves no line behind. -/
def Block.Whole {lines : List Line} (b : Block lines) : Prop := b.ending = none → b.rest = []

/-- Reading a statement goes by its first line. -/
theorem readStatement_eq (line : Line) (rest : List Line) :
    readStatement line rest = match openerOf line with
      | .oneLine => .ok ⟨.command (String.ofList line), rest, Nat.le_refl _⟩
      | .conditional => readConditional line rest
      | .choice =>
        match caseSelector? line with
        | none => .error (.invalidCase line)
        | some selector => do
          let r ← readArms line rest
          return r.after (.choice (String.ofList selector)) rest (Nat.le_refl _)
      | .forLoop =>
        match forHead? line with
        | none => .error (.invalidFor line)
        | some (name, items, inlineDo) =>
          match loopBody? inlineDo rest with
          | none => .error (.missingDo "for" line)
          | some ⟨body, h⟩ => do
            let b ← readBlock .loopBody body
            match b.ending with
            | none => .error (.missingDone line)
            | some _ =>
              return ⟨.forLoop (String.ofList name) (String.ofList items)
                  (sourceBetween (line :: rest) b.rest) b.statements,
                b.rest, Nat.le_trans b.rest_le h⟩
      | .whileLoop =>
        match whileHead? line with
        | none => .error (.invalidWhile line)
        | some (condition, inlineDo) =>
          match loopBody? inlineDo rest with
          | none => .error (.missingDo "while" line)
          | some ⟨body, h⟩ => do
            let b ← readBlock .loopBody body
            match b.ending with
            | none => .error (.missingDone line)
            | some _ =>
              return ⟨.whileLoop (String.ofList condition) b.statements, b.rest,
                Nat.le_trans b.rest_le h⟩
      | .simple => .ok ⟨simpleStatement line, rest, Nat.le_refl _⟩ := by
  rw [readStatement, openerOf]
  split_ifs <;> rfl

mutual

theorem readBlock_laid (kind : BlockKind) (lines : List Line) (b : Block lines)
    (h : readBlock kind lines = .ok b) :
    ∃ segments, Laid (.block kind b.statements b.ending) segments ∧
      lines = linesOf segments ++ b.rest ∧ b.Whole := by
  match lines with
  | [] =>
    rw [readBlock] at h
    cases h
    exact ⟨[], .finished, rfl, fun _ => rfl⟩
  | line :: rest =>
    rw [readBlock] at h
    cases he : endingOf? kind line with
    | some ending =>
      rw [he] at h
      cases h
      exact ⟨_, .ended he, by simp, fun hn => by cases hn⟩
    | none =>
      rw [he] at h
      dsimp only at h
      by_cases hs : isSkipped line = true
      · rw [if_pos hs] at h
        obtain ⟨b', hb, hr⟩ := ok_of_bind h
        obtain ⟨segments, hl, hlines, hw⟩ := readBlock_laid kind rest b' hb
        cases hr
        exact ⟨_, .skip he hs hl, by simp [Segment.lines, Block.after, hlines], hw⟩
      · rw [if_neg hs] at h
        obtain ⟨r, hr, h⟩ := ok_of_bind h
        obtain ⟨b', hb, h⟩ := ok_of_bind h
        obtain ⟨first, hf, hfirst⟩ := readStatement_laid line rest r hr
        have := r.rest_le
        obtain ⟨segments, hl, hlines, hw⟩ := readBlock_laid kind r.rest b' hb
        cases h
        refine ⟨_, .next he (by simpa using hs) hf hl, ?_, hw⟩
        show line :: rest = linesOf (first ++ segments) ++ b'.rest
        rw [linesOf_append, List.append_assoc, ← hlines, ← hfirst]
termination_by 3 * lines.length

theorem readStatement_laid (line : Line) (rest : List Line) (r : Reading Statement rest)
    (h : readStatement line rest = .ok r) :
    ∃ segments, Laid (.statement line r.value) segments ∧
      line :: rest = linesOf segments ++ r.rest := by
  rw [readStatement_eq] at h
  cases ho : openerOf line with
  | oneLine =>
    rw [ho] at h
    cases h
    exact ⟨_, .oneLine ho, rfl⟩
  | conditional =>
    rw [ho] at h
    obtain ⟨segments, hl, hlines⟩ := readConditional_laid line rest r h
    exact ⟨_, .compound ho hl, congrArg (line :: ·) hlines⟩
  | choice =>
    rw [ho] at h
    cases hsel : caseSelector? line with
    | none =>
      rw [hsel] at h
      cases h
    | some selector =>
      rw [hsel] at h
      obtain ⟨r', hr, h⟩ := ok_of_bind h
      cases h
      obtain ⟨segments, hl, hlines⟩ := readArms_laid line rest r' hr
      exact ⟨_, .choice ho hsel hl, congrArg (line :: ·) hlines⟩
  | forLoop =>
    rw [ho] at h
    cases hhead : forHead? line with
    | none =>
      rw [hhead] at h
      cases h
    | some head =>
      obtain ⟨name, items, inlineDo⟩ := head
      rw [hhead] at h
      cases hdo : loopBody? inlineDo rest with
      | none =>
        simp only [hdo] at h
        cases h
      | some body =>
        simp only [hdo] at h
        obtain ⟨b, hb, h⟩ := ok_of_bind h
        have := body.2
        obtain ⟨segments, hl, hlines, -⟩ := readBlock_laid .loopBody body.1 b hb
        have hall : line :: rest = (line :: (doLines inlineDo ++ linesOf segments)) ++ b.rest := by
          rw [List.cons_append, List.append_assoc, ← hlines, ← loopBody?_eq_some hdo]
        cases he : b.ending with
        | none =>
          simp only [he] at h
          cases h
        | some ending =>
          simp only [he] at h
          cases h
          rw [he] at hl
          rw [hall, sourceBetween_append]
          exact ⟨_, .forLoop ho hhead hl, by simp [Segment.lines]⟩
  | whileLoop =>
    rw [ho] at h
    cases hhead : whileHead? line with
    | none =>
      rw [hhead] at h
      cases h
    | some head =>
      obtain ⟨condition, inlineDo⟩ := head
      rw [hhead] at h
      cases hdo : loopBody? inlineDo rest with
      | none =>
        simp only [hdo] at h
        cases h
      | some body =>
        simp only [hdo] at h
        obtain ⟨b, hb, h⟩ := ok_of_bind h
        have := body.2
        obtain ⟨segments, hl, hlines, -⟩ := readBlock_laid .loopBody body.1 b hb
        cases he : b.ending with
        | none =>
          simp only [he] at h
          cases h
        | some ending =>
          simp only [he] at h
          cases h
          rw [he] at hl
          refine ⟨_, .whileLoop ho hhead hl, ?_⟩
          show line :: rest = _
          rw [linesOf_cons, linesOf_append, linesOf_keywords, List.append_assoc, List.append_assoc,
            ← hlines, ← loopBody?_eq_some hdo]
          rfl
  | simple =>
    rw [ho] at h
    cases h
    exact ⟨_, .simple ho, rfl⟩
termination_by 3 * rest.length + 2

theorem readConditional_laid (header : Line) (rest : List Line) (r : Reading Statement rest)
    (h : readConditional header rest = .ok r) :
    ∃ segments, Laid (.conditional header r.value) segments ∧
      rest = linesOf segments ++ r.rest := by
  rw [readConditional] at h
  cases hthen : thenBlock? header rest with
  | none =>
    rw [hthen] at h
    cases h
  | some block =>
    obtain ⟨condition, body⟩ := block
    simp only [hthen] at h
    obtain ⟨rfl, hrest⟩ := thenBlock?_eq_some hthen
    obtain ⟨t, ht, h⟩ := ok_of_bind h
    have := body.2
    obtain ⟨segments, hl, hlines, -⟩ := readBlock_laid .thenBlock body.1 t ht
    split at h
    · next next he =>
      obtain ⟨r', hr, h⟩ := ok_of_bind h
      have := t.rest_lt (by simp [he])
      obtain ⟨more, hm, hmore⟩ := readConditional_laid next t.rest r' hr
      cases h
      rw [he] at hl
      refine ⟨_, .withElif hl hm, ?_⟩
      show rest = _ ++ r'.rest
      rw [linesOf_append, linesOf_append, linesOf_keywords, List.append_assoc, List.append_assoc,
        ← hmore, ← hlines, ← hrest]
    · next he =>
      obtain ⟨el, hel, h⟩ := ok_of_bind h
      have := t.rest_lt (by simp [he])
      obtain ⟨more, hm, hmore, -⟩ := readBlock_laid .elseBlock t.rest el hel
      cases hend : el.ending with
      | none =>
        simp only [hend] at h
        cases h
      | some ending =>
        simp only [hend] at h
        cases h
        rw [he] at hl
        rw [hend] at hm
        refine ⟨_, .withElse hl hm, ?_⟩
        show rest = _ ++ el.rest
        rw [linesOf_append, linesOf_append, linesOf_keywords, List.append_assoc, List.append_assoc,
          ← hmore, ← hlines, ← hrest]
    · next ending hne hno he =>
      cases h
      rw [he] at hl
      obtain ⟨line, -, hline⟩ := hl.exists_line rfl
      cases endsBlock_of_endingOf? hline with
      | otherwise => exact absurd rfl hno
      | elif => exact absurd rfl (hne _)
      | fi =>
        refine ⟨_, .withoutElse hl, ?_⟩
        show rest = _ ++ t.rest
        rw [linesOf_append, linesOf_keywords, List.append_assoc, ← hlines, ← hrest]
    · cases h
termination_by 3 * rest.length + 1

theorem readArms_laid (header : Line) (lines : List Line)
    (r : Reading (List (String × List Statement)) lines) (h : readArms header lines = .ok r) :
    ∃ segments, Laid (.arms r.value) segments ∧ lines = linesOf segments ++ r.rest := by
  match lines with
  | [] =>
    rw [readArms] at h
    cases h
  | line :: rest =>
    rw [readArms] at h
    by_cases hesac : line = "esac".toList
    · rw [if_pos hesac] at h
      cases h
      rw [hesac]
      exact ⟨_, .esac, rfl⟩
    rw [if_neg hesac] at h
    cases hi : inlineArm? line with
    | some arm =>
      obtain ⟨p, text⟩ := arm
      rw [hi] at h
      obtain ⟨r', hr, h⟩ := ok_of_bind h
      cases h
      obtain ⟨segments, hl, hlines⟩ := readArms_laid header rest r' hr
      exact ⟨_, .inlineArm hesac hi hl, by simp [Segment.lines, Reading.after, hlines]⟩
    | none =>
      rw [hi] at h
      cases hp : Text.dropEnd? [')'] line with
      | none =>
        simp only [hp] at h
        obtain ⟨r', hr, h⟩ := ok_of_bind h
        cases h
        obtain ⟨segments, hl, hlines⟩ := readArms_laid header rest r' hr
        exact ⟨_, .between hesac hi hp hl, by simp [Reading.after, hlines]⟩
      | some p =>
        simp only [hp] at h
        obtain ⟨b, hb, h⟩ := ok_of_bind h
        have := b.rest_le
        obtain ⟨segments, hl, hlines, -⟩ := readBlock_laid .arm rest b hb
        cases he : b.ending with
        | none =>
          simp only [he] at h
          cases h
        | some ending =>
          rw [he] at hl
          obtain ⟨last, -, hlast⟩ := hl.exists_line rfl
          cases endsBlock_of_endingOf? hlast with
          | esac =>
            simp only [he] at h
            cases h
            exact ⟨_, .lastArm hesac hi hp hl, congrArg (line :: ·) hlines⟩
          | armEnd =>
            simp only [he] at h
            obtain ⟨r', hr, h⟩ := ok_of_bind h
            cases h
            obtain ⟨more, hm, hmore⟩ := readArms_laid header b.rest r' hr
            refine ⟨_, .arm hesac hi hp hl hm, ?_⟩
            show line :: rest = _ ++ r'.rest
            rw [linesOf_append, linesOf_armSegments, linesOf_cons, List.append_assoc,
              List.append_assoc, ← hmore, ← hlines]
            rfl
termination_by 3 * lines.length + 1

end

/-! ## 5. The readers find the layout there is -/

theorem loopBody?_of_lines {inlineDo : Bool} {all lines : List Line}
    (h : all = doLines inlineDo ++ lines) :
    ∃ hle, loopBody? inlineDo all = some ⟨lines, hle⟩ := by
  subst h
  cases inlineDo with
  | true => exact ⟨_, rfl⟩
  | false => exact ⟨_, rfl⟩

theorem thenBlock?_of_lines {header : Line} {all lines : List Line}
    (h : all = (conditionOf header).2 ++ lines) :
    ∃ hle, thenBlock? header all = some ((conditionOf header).1, ⟨lines, hle⟩) := by
  subst h
  unfold thenBlock? conditionOf
  cases inlineCondition? header with
  | some condition => exact ⟨_, rfl⟩
  | none => exact ⟨_, rfl⟩

/-- A statement's first line is its first line. -/
theorem Laid.first_line {line : Line} {s : Statement} {segments : List Segment}
    (h : Laid (.statement line s) segments) : ∃ tail, linesOf segments = line :: tail := by
  cases h with
  | oneLine | simple | compound | choice | forLoop | whileLoop => exact ⟨_, rfl⟩

/-- The readers read a part off lines, and leave the rest. -/
def Part.ReadOff (all rest : List Line) : Part → Prop
  | .block kind ss ending => (ending = none → rest = []) →
      ∃ hle hlt, readBlock kind all = .ok ⟨ss, ending, rest, hle, hlt⟩
  | .statement line s => ∀ tail, all = line :: tail →
      ∃ hle, readStatement line tail = .ok ⟨s, rest, hle⟩
  | .conditional header s => ∃ hle, readConditional header all = .ok ⟨s, rest, hle⟩
  | .arms value => ∀ header, ∃ hle, readArms header all = .ok ⟨value, rest, hle⟩

/-- **What is laid out is read**, by induction on the layout. -/
theorem Laid.read {part : Part} {segments : List Segment} (h : Laid part segments) :
    ∀ all rest, all = linesOf segments ++ rest → part.ReadOff all rest := by
  induction h with
  | finished =>
    rintro all rest hall hend
    rw [hend rfl] at hall ⊢
    subst hall
    rw [linesOf_nil, List.nil_append, readBlock]
    exact ⟨_, _, rfl⟩
  | @ended kind line ending h =>
    rintro all rest rfl -
    rw [linesOf_cons, lines_endSegment, linesOf_nil, List.append_nil, List.singleton_append,
      readBlock, h]
    exact ⟨_, _, rfl⟩
  | @skip kind line ss ending segments h hs later ih =>
    rintro all rest rfl hend
    obtain ⟨hle, hlt, hr⟩ := ih _ rest rfl hend
    rw [linesOf_cons, Segment.lines, List.singleton_append, List.cons_append, readBlock, h]
    dsimp only
    rw [if_pos hs, hr]
    exact ⟨_, _, rfl⟩
  | @next kind line s ss ending first segments h hs statement later ihs ihl =>
    rintro all rest rfl hend
    obtain ⟨tail, htail⟩ := statement.first_line
    obtain ⟨hle, hr⟩ := ihs _ (linesOf segments ++ rest) rfl (tail ++ (linesOf segments ++ rest))
      (by rw [htail, List.cons_append])
    obtain ⟨hle', hlt', hr'⟩ := ihl _ rest rfl hend
    rw [linesOf_append, htail, List.append_assoc, List.cons_append, readBlock, h]
    dsimp only
    rw [if_neg (by simp [hs]), hr]
    show ∃ hle hlt, (readBlock kind (linesOf segments ++ rest) >>= _) = _
    rw [hr']
    exact ⟨_, _, rfl⟩
  | oneLine h =>
    rintro all rest hall tail rfl
    cases hall
    rw [readStatement_eq, h]
    exact ⟨_, rfl⟩
  | simple h =>
    rintro all rest hall tail rfl
    cases hall
    rw [readStatement_eq, h]
    exact ⟨_, rfl⟩
  | compound h inner ih =>
    rintro all rest hall tail rfl
    cases hall
    rw [readStatement_eq, h]
    exact ih _ rest rfl
  | @choice line selector arms segments h hs inner ih =>
    rintro all rest hall tail rfl
    have htail : tail = linesOf segments ++ rest := by simpa [Segment.lines] using hall
    obtain ⟨hle, hr⟩ := ih _ rest htail line
    rw [readStatement_eq, h]
    dsimp only
    rw [hs]
    dsimp only
    rw [hr]
    exact ⟨_, rfl⟩
  | @forLoop line name items inlineDo body ending segments h hh inner ih =>
    rintro all rest hall tail rfl
    have htail : tail = doLines inlineDo ++ (linesOf segments ++ rest) := by
      simpa [Segment.lines] using hall
    obtain ⟨hle, hlt, hr⟩ := ih _ rest rfl nofun
    obtain ⟨hdo, hbody⟩ := loopBody?_of_lines htail
    have hsource : sourceBetween (line :: tail) rest =
        sourceOf (line :: (doLines inlineDo ++ linesOf segments)) := by
      rw [← sourceBetween_append _ rest, List.cons_append, List.append_assoc, htail]
    rw [readStatement_eq, h]
    dsimp only
    rw [hh]
    dsimp only
    rw [hbody]
    dsimp only
    rw [hr, ← hsource]
    exact ⟨_, rfl⟩
  | @whileLoop line condition inlineDo body ending segments h hh inner ih =>
    rintro all rest hall tail rfl
    have htail : tail = doLines inlineDo ++ (linesOf segments ++ rest) := by
      simpa [Segment.lines] using hall
    obtain ⟨hle, hlt, hr⟩ := ih _ rest rfl nofun
    obtain ⟨hdo, hbody⟩ := loopBody?_of_lines htail
    rw [readStatement_eq, h]
    dsimp only
    rw [hh]
    dsimp only
    rw [hbody]
    dsimp only
    rw [hr]
    exact ⟨_, rfl⟩
  | @withoutElse header t segments inner ih =>
    rintro all rest hall
    rw [linesOf_append, linesOf_keywords, List.append_assoc] at hall
    obtain ⟨hle, hlt, hr⟩ := ih _ rest rfl nofun
    obtain ⟨hle', hthen⟩ := thenBlock?_of_lines hall
    show ∃ hle, readConditional header all = _
    rw [readConditional, hthen]
    dsimp only
    rw [hr]
    exact ⟨_, rfl⟩
  | @withElse header t el ending segments more inner other ih iho =>
    rintro all rest hall
    rw [linesOf_append, linesOf_append, linesOf_keywords, List.append_assoc,
      List.append_assoc] at hall
    obtain ⟨hle, hlt, hr⟩ := ih _ (linesOf more ++ rest) rfl nofun
    obtain ⟨hle', hlt', hr'⟩ := iho _ rest rfl nofun
    obtain ⟨hle'', hthen⟩ := thenBlock?_of_lines hall
    show ∃ hle, readConditional header all = _
    rw [readConditional, hthen]
    dsimp only
    rw [hr]
    show ∃ hle, (readBlock .elseBlock (linesOf more ++ rest) >>= _) = _
    rw [hr']
    exact ⟨_, rfl⟩
  | @withElif header next t nested segments more inner other ih iho =>
    rintro all rest hall
    rw [linesOf_append, linesOf_append, linesOf_keywords, List.append_assoc,
      List.append_assoc] at hall
    obtain ⟨hle, hlt, hr⟩ := ih _ (linesOf more ++ rest) rfl nofun
    obtain ⟨hle', hr'⟩ := iho _ rest rfl
    obtain ⟨hle'', hthen⟩ := thenBlock?_of_lines hall
    show ∃ hle, readConditional header all = _
    rw [readConditional, hthen]
    dsimp only
    rw [hr]
    show ∃ hle, (readConditional next (linesOf more ++ rest) >>= _) = _
    rw [hr']
    exact ⟨_, rfl⟩
  | esac =>
    rintro all rest rfl header
    rw [linesOf_cons, linesOf_nil, Segment.lines, List.append_nil, List.singleton_append, readArms,
      if_pos rfl]
    exact ⟨_, rfl⟩
  | @inlineArm line p text arms segments hne h later ih =>
    rintro all rest rfl header
    obtain ⟨hle, hr⟩ := ih _ rest rfl header
    rw [linesOf_append, linesOf_armSegments, linesOf_cons, linesOf_nil, Segment.lines,
      List.append_nil, List.singleton_append, List.cons_append, readArms, if_neg hne, h]
    dsimp only
    rw [hr]
    exact ⟨_, rfl⟩
  | @between line arms segments hne hi h later ih =>
    rintro all rest rfl header
    obtain ⟨hle, hr⟩ := ih _ rest rfl header
    rw [linesOf_cons, lines_betweenArms, List.singleton_append, List.cons_append, readArms,
      if_neg hne, hi]
    dsimp only
    rw [h]
    dsimp only
    rw [hr]
    exact ⟨_, rfl⟩
  | @lastArm line p body segments hne hi h inner ih =>
    rintro all rest rfl header
    obtain ⟨hle, hlt, hr⟩ := ih _ rest rfl nofun
    rw [linesOf_cons, Segment.lines, List.singleton_append, List.cons_append, readArms,
      if_neg hne, hi]
    dsimp only
    rw [h]
    dsimp only
    rw [hr]
    exact ⟨_, rfl⟩
  | @arm line p body text arms segments more hne hi h inner later ih ihl =>
    rintro all rest rfl header
    obtain ⟨hle, hlt, hr⟩ := ih _ (linesOf more ++ rest) rfl nofun
    obtain ⟨hle', hr'⟩ := ihl _ rest rfl header
    rw [linesOf_append, linesOf_armSegments, linesOf_cons, Segment.lines, List.append_assoc,
      List.singleton_append, List.cons_append, readArms, if_neg hne, hi]
    dsimp only
    rw [h]
    dsimp only
    rw [hr]
    show ∃ hle, (readArms header (linesOf more ++ rest) >>= _) = _
    rw [hr']
    exact ⟨_, rfl⟩

/-! ## 6. Bodies -/

/-- **A body is read as some statements exactly if its lines are laid out as them.** -/
theorem ofText_eq_ok_iff {body : String} {ss : List Statement} :
    Statement.ofText body = .ok ss ↔
      ∃ segments, linesOf segments = linesOfBody body ∧ Laid (.block .body ss none) segments := by
  unfold Statement.ofText
  constructor
  · intro h
    cases hb : readBlock .body (linesOfBody body) with
    | error e =>
      rw [hb] at h
      cases h
    | ok b =>
      rw [hb] at h
      cases h
      obtain ⟨segments, hl, hlines, hw⟩ := readBlock_laid _ _ b hb
      cases he : b.ending with
      | none =>
        rw [he] at hl
        refine ⟨segments, ?_, hl⟩
        rw [hlines, hw he, List.append_nil]
      | some ending =>
        rw [he] at hl
        obtain ⟨line, -, hline⟩ := hl.exists_line rfl
        cases hline
  · rintro ⟨segments, hlines, hl⟩
    obtain ⟨hle, hlt, hr⟩ := hl.read (linesOfBody body) [] (by simp [hlines]) fun _ => rfl
    rw [hr]
    rfl

end Runbook.ShellFunction
