import Runbook.Proofs.ShellFunction.Grammar

/-!
# What a line stands in

The readers of a body call each other, and which one looks at a line depends on all lines before it. The
same can be said of the lines alone, with a stack of what was opened and has not ended yet:

* `Frame`, `advance`: what lines can stand in, and what a line opens and ends;
* `framesBehind`: what the next line stands in, behind some lines;
* `Goes`: lines lead from some frames to others, and keep a property up to the last of them;
* **`Laid.goes`**: the lines of a part of a body open and end just that part.
-/

namespace Runbook.ShellFunction

/-! ## 1. Frames -/

/-- What a line stands in: a block of a kind, the place behind a first line whose `then` or `do` has a line
of its own, or the arms of a choice. Of a block or a first line is kept whether it belongs to a loop over
items. -/
inductive Frame where
  | block (kind : BlockKind) (overItems : Bool)
  | header (kind : BlockKind) (overItems : Bool)
  | arms
deriving DecidableEq, Repr

/-- Whether a frame belongs to a loop over items. -/
def Frame.isOverItems : Frame → Bool
  | .block _ overItems => overItems
  | .header _ overItems => overItems
  | .arms => false

/-- Whether the keyword of a first line is awaited. -/
def Frame.isHeader : Frame → Bool
  | .header _ _ => true
  | .block _ _ => false
  | .arms => false

/-- What a first line opens: a block, or the place where the keyword of the block is awaited. -/
def opened (kind : BlockKind) (overItems isInline : Bool) : Frame :=
  if isInline then .block kind overItems else .header kind overItems

/-- What the first line of a conditional opens. -/
def openedIf (header : Line) : Frame := opened .thenBlock false (inlineCondition? header).isSome

/-- What a line stands in behind the one that ends a block, `outer` being what the block stands in. -/
def behindEnding (outer : List Frame) : Ending → List Frame
  | .otherwise => .block .elseBlock false :: outer
  | .otherwiseIf next => openedIf next :: outer
  | .esac => outer.tail
  | .fi => outer
  | .armEnd _ => outer
  | .done => outer

/-- What a line stands in behind one that starts a statement in `frames`. -/
def behindFirst (frames : List Frame) (line : Line) : List Frame :=
  match openerOf line with
  | .oneLine => frames
  | .simple => frames
  | .conditional => openedIf line :: frames
  | .choice => .arms :: frames
  | .forLoop => opened .loopBody true ((forHead? line).any (·.2.2)) :: frames
  | .whileLoop => opened .loopBody false ((whileHead? line).any (·.2)) :: frames

/-- What the next line stands in, behind a line in `frames`, the innermost being the first. -/
def advance (frames : List Frame) (line : Line) : List Frame :=
  match frames with
  | [] => []
  | .header kind overItems :: outer => .block kind overItems :: outer
  | .arms :: outer =>
    if line = "esac".toList then outer
    else if inlineArm? line = none ∧ Text.dropEnd? [')'] line ≠ none then
      .block .arm false :: .arms :: outer
    else .arms :: outer
  | .block kind overItems :: outer =>
    match endingOf? kind line with
    | some ending => behindEnding outer ending
    | none =>
      if isSkipped line then .block kind overItems :: outer
      else behindFirst (.block kind overItems :: outer) line

/-- What a line stands in behind the given ones of a body. -/
def framesBehind (lines : List Line) : List Frame := lines.foldl advance [.block .body false]

/-! ## 2. Runs -/

/-- Two lists of lines are cut behind the first one, or inside of it. -/
theorem cut_append {a b before after : List Line} (h : a ++ b = before ++ after) :
    (∃ t, before = a ++ t ∧ b = t ++ after) ∨ ∃ t, t ≠ [] ∧ a = before ++ t ∧ after = t ++ b := by
  rcases List.append_eq_append_iff.mp h with hcut | ⟨t, ha, hafter⟩
  · exact .inl hcut
  · cases t with
    | nil => exact .inl ⟨[], by simpa using ha.symm, by simpa using hafter.symm⟩
    | cons line t => exact .inr ⟨line :: t, List.cons_ne_nil line t, ha, hafter⟩

/-- Lines lead from some frames to others. In front of each of them a property of the frames holds. -/
structure Goes (within : List Frame → Prop) (start last : List Frame) (lines : List Line) : Prop where
  last : lines.foldl advance start = last
  within : ∀ before after, lines = before ++ after → after ≠ [] → within (before.foldl advance start)

namespace Goes

variable {P Q : List Frame → Prop} {start mid last : List Frame} {lines more : List Line}

theorem nil : Goes P start start [] :=
  ⟨rfl, fun _ _ h hne => absurd (List.append_eq_nil_iff.mp h.symm).2 hne⟩

theorem mono (h : Goes P start last lines) (hPQ : ∀ frames, P frames → Q frames) :
    Goes Q start last lines :=
  ⟨h.last, fun before after hcut hne => hPQ _ (h.within before after hcut hne)⟩

theorem append (h : Goes P start mid lines) (hmore : Goes P mid last more) :
    Goes P start last (lines ++ more) := by
  refine ⟨by rw [List.foldl_append, h.last, hmore.last], fun before after hcut hne => ?_⟩
  rcases cut_append hcut with ⟨t, rfl, ht⟩ | ⟨t, htne, ht, -⟩
  · rw [List.foldl_append, h.last]
    exact hmore.within t after ht hne
  · exact h.within before t ht htne

theorem single {line : Line} (hP : P start) (h : advance start line = last) :
    Goes P start last [line] := by
  refine ⟨h, fun before after hcut hne => ?_⟩
  cases before with
  | nil => exact hP
  | cons l before => exact absurd (List.append_eq_nil_iff.mp (List.cons.inj hcut).2.symm).2 hne

theorem cons {line : Line} (hP : P start) (h : advance start line = mid)
    (hlines : Goes P mid last lines) : Goes P start last (line :: lines) :=
  (single hP h).append hlines

end Goes

/-! ## 3. Parts of a body -/

/-- How the lines of a part of a body go: a block is left where it ends, and a statement, a conditional and
a choice are left where they stand. Before that they are still open. -/
def Part.Goes (lines : List Line) : Part → Prop
  | .block kind _ ending => ∀ overItems outer,
      ShellFunction.Goes (.block kind overItems :: outer <:+ ·) (.block kind overItems :: outer)
        (ending.elim (.block kind overItems :: outer) (behindEnding outer)) lines
  | .statement line _ => ∀ kind overItems outer, endingOf? kind line = none → isSkipped line = false →
      ShellFunction.Goes (.block kind overItems :: outer <:+ ·) (.block kind overItems :: outer)
        (.block kind overItems :: outer) lines
  | .conditional header _ => ∀ outer,
      ShellFunction.Goes (outer <:+ ·) (openedIf header :: outer) outer lines
  | .arms _ => ∀ outer, ShellFunction.Goes (.arms :: outer <:+ ·) (.arms :: outer) outer lines

theorem advance_block {kind : BlockKind} {overItems : Bool} {outer : List Frame} {line : Line}
    (h : endingOf? kind line = none) (hs : isSkipped line = false) :
    advance (.block kind overItems :: outer) line =
      behindFirst (.block kind overItems :: outer) line := by
  simp only [advance, h, hs, Bool.false_eq_true, if_false]

theorem advance_arm {outer : List Frame} {line p : Line} (hne : line ≠ "esac".toList)
    (hi : inlineArm? line = none) (h : Text.dropEnd? [')'] line = some p) :
    advance (.arms :: outer) line = .block .arm false :: .arms :: outer := by
  rw [advance, if_neg hne, if_pos ⟨hi, by simp [h]⟩]

theorem advance_between {outer : List Frame} {line : Line} (hne : line ≠ "esac".toList)
    (h : ¬(inlineArm? line = none ∧ Text.dropEnd? [')'] line ≠ none)) :
    advance (.arms :: outer) line = .arms :: outer := by
  rw [advance, if_neg hne, if_neg h]

/-- A keyword on a line of its own opens the block. -/
theorem goes_opened {P : List Frame → Prop} {kind : BlockKind} {overItems isInline : Bool}
    {outer : List Frame} {keywords : List Line} (hP : P (opened kind overItems isInline :: outer))
    (h : keywords.length = if isInline then 0 else 1) :
    Goes P (opened kind overItems isInline :: outer) (.block kind overItems :: outer) keywords := by
  cases isInline with
  | true =>
    obtain rfl := List.length_eq_zero_iff.mp h
    exact .nil
  | false =>
    obtain ⟨keyword, rfl⟩ := List.length_eq_one_iff.mp h
    exact .single hP rfl

theorem length_doLines (inlineDo : Bool) :
    (doLines inlineDo).length = if inlineDo then 0 else 1 := by
  cases inlineDo <;> rfl

theorem length_conditionOf (header : Line) :
    (conditionOf header).2.length = if (inlineCondition? header).isSome then 0 else 1 := by
  unfold conditionOf
  cases inlineCondition? header <;> rfl

theorem Laid.eq_done {ss : List Statement} {ending : Ending} {segments : List Segment}
    (h : Laid (.block .loopBody ss (some ending)) segments) : ending = .done := by
  obtain ⟨line, -, hline⟩ := h.exists_line rfl
  cases endsBlock_of_endingOf? hline with
  | done => rfl

theorem Laid.eq_fi {ss : List Statement} {ending : Ending} {segments : List Segment}
    (h : Laid (.block .elseBlock ss (some ending)) segments) : ending = .fi := by
  obtain ⟨line, -, hline⟩ := h.exists_line rfl
  cases endsBlock_of_endingOf? hline with
  | elseFi => rfl

/-- The lines of a loop behind its first one. -/
theorem goes_loop {P : List Frame → Prop} {overItems inlineDo : Bool} {outer : List Frame}
    {lines : List Line} (hP : P (opened .loopBody overItems inlineDo :: outer))
    (hbody : Goes P (.block .loopBody overItems :: outer) outer lines) :
    Goes P (opened .loopBody overItems inlineDo :: outer) outer (doLines inlineDo ++ lines) :=
  (goes_opened hP (length_doLines inlineDo)).append hbody

/-- The line of `then` of a conditional, if it has one of its own. -/
theorem goes_then (header : Line) (outer : List Frame) :
    Goes (outer <:+ ·) (openedIf header :: outer) (.block .thenBlock false :: outer)
      (conditionOf header).2 :=
  goes_opened (List.suffix_cons _ _) (length_conditionOf header)

/-- **The lines of a part of a body open and end just that part**, by induction on the layout. -/
theorem Laid.goes {part : Part} {segments : List Segment} (h : Laid part segments) :
    part.Goes (linesOf segments) := by
  induction h with
  | finished => exact fun overItems outer => .nil
  | @ended kind line ending h =>
    intro overItems outer
    have hstep : advance (.block kind overItems :: outer) line = behindEnding outer ending := by
      simp only [advance, h]
    rw [linesOf_cons, lines_endSegment, linesOf_nil, List.append_nil]
    exact .single List.suffix_rfl hstep
  | @skip kind line ss ending segments h hs later ih =>
    intro overItems outer
    have hstep : advance (.block kind overItems :: outer) line = .block kind overItems :: outer := by
      simp only [advance, h, hs, if_true]
    exact .cons List.suffix_rfl hstep (ih overItems outer)
  | next h hs statement later ihs ihl =>
    intro overItems outer
    rw [linesOf_append]
    exact (ihs _ overItems outer h hs).append (ihl overItems outer)
  | oneLine h =>
    intro kind overItems outer hno hs
    exact .single List.suffix_rfl (by rw [advance_block hno hs, behindFirst, h])
  | simple h =>
    intro kind overItems outer hno hs
    exact .single List.suffix_rfl (by rw [advance_block hno hs, behindFirst, h])
  | compound h inner ih =>
    intro kind overItems outer hno hs
    exact .cons List.suffix_rfl (by rw [advance_block hno hs, behindFirst, h]) (ih _)
  | choice h hs inner ih =>
    intro kind overItems outer hno hns
    refine .cons List.suffix_rfl (by rw [advance_block hno hns, behindFirst, h]) ?_
    exact (ih _).mono fun frames => (List.suffix_cons _ _).trans
  | @forLoop line name items inlineDo body ending segments h hh inner ih =>
    intro kind overItems outer hno hs
    have hopen : (forHead? line).any (·.2.2) = inlineDo := by rw [hh]; rfl
    cases inner.eq_done
    have hbody := (ih true (.block kind overItems :: outer)).mono fun frames =>
      (List.suffix_cons _ _).trans
    rw [linesOf_cons, Segment.lines, linesOf_nil, List.append_nil]
    refine .cons List.suffix_rfl (by rw [advance_block hno hs, behindFirst, h]) ?_
    exact hopen ▸ goes_loop (List.suffix_cons _ _) hbody
  | @whileLoop line condition inlineDo body ending segments h hh inner ih =>
    intro kind overItems outer hno hs
    have hopen : (whileHead? line).any (·.2) = inlineDo := by rw [hh]; rfl
    cases inner.eq_done
    have hbody := (ih false (.block kind overItems :: outer)).mono fun frames =>
      (List.suffix_cons _ _).trans
    refine .cons List.suffix_rfl (by rw [advance_block hno hs, behindFirst, h]) ?_
    show Goes _ _ _ (linesOf _)
    rw [linesOf_append, linesOf_keywords]
    exact hopen ▸ goes_loop (List.suffix_cons _ _) hbody
  | @withoutElse header t segments inner ih =>
    intro outer
    rw [linesOf_append, linesOf_keywords]
    have hbody := (ih false outer).mono fun frames => (List.suffix_cons _ _).trans
    exact (goes_then header outer).append hbody
  | @withElse header t el ending segments more inner other ih iho =>
    intro outer
    cases other.eq_fi
    rw [linesOf_append, linesOf_append, linesOf_keywords]
    have hbody := (ih false outer).mono fun frames => (List.suffix_cons _ _).trans
    have hother := (iho false outer).mono fun frames => (List.suffix_cons _ _).trans
    exact ((goes_then header outer).append hbody).append hother
  | @withElif header next t nested segments more inner other ih iho =>
    intro outer
    rw [linesOf_append, linesOf_append, linesOf_keywords]
    have hbody := (ih false outer).mono fun frames => (List.suffix_cons _ _).trans
    exact ((goes_then header outer).append hbody).append (iho outer)
  | esac => exact fun outer => .single List.suffix_rfl rfl
  | inlineArm hne h later ih =>
    intro outer
    rw [linesOf_append, linesOf_armSegments]
    exact .cons List.suffix_rfl (advance_between hne (by simp [h])) (ih outer)
  | between hne hi h later ih =>
    intro outer
    rw [linesOf_cons, lines_betweenArms]
    exact .cons List.suffix_rfl (advance_between hne (by simp [h])) (ih outer)
  | lastArm hne hi h inner ih =>
    intro outer
    have hbody := (ih false (.arms :: outer)).mono fun frames => (List.suffix_cons _ _).trans
    exact .cons List.suffix_rfl (advance_arm hne hi h) hbody
  | arm hne hi h inner later ih ihl =>
    intro outer
    rw [linesOf_append, linesOf_armSegments]
    have hbody := (ih false (.arms :: outer)).mono fun frames => (List.suffix_cons _ _).trans
    have harm := Goes.cons List.suffix_rfl (advance_arm hne hi h) hbody
    exact harm.append (ihl outer)

/-- Behind the last line of a body that is read, nothing is left open. -/
theorem framesBehind_of_ofText {body : String} {ss : List Statement}
    (h : Statement.ofText body = .ok ss) : framesBehind (linesOfBody body) = [.block .body false] := by
  obtain ⟨segments, hlines, hl⟩ := ofText_eq_ok_iff.mp h
  rw [← hlines]
  exact (hl.goes false []).last

end Runbook.ShellFunction
