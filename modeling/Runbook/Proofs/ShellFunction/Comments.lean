import Runbook.Proofs.ShellFunction.Nesting

/-!
# Comments and blank lines

A line that is blank or a comment is skipped where statements are read, and passed over between the arms of
a choice; so a body with one such line more is read as the same statements. A comment is taken for something
else in two places, where other tests come first: in an arm, if it ends like the last command of one, and
between arms, if it ends like the head of one.

* `IsFree`, `isMisread`, `Passes`: where a line may be put, and where a comment is taken for something else;
* `Part.Takes`, **`Laid.takes`**: the parts of a body take a line more;
* **`ofText_of_line_more`**: a body with a comment or a blank line more is read as the same statements.
-/

namespace Runbook.ShellFunction

/-! ## 1. Where a line may be put -/

/-- A line may be put where no loop over items is open and no keyword of a first line is awaited. -/
structure IsFree (frames : List Frame) : Prop where
  outside : ∀ frame ∈ frames, frame.isOverItems = false
  placed : ∀ frame ∈ frames.head?, frame.isHeader = false

/-- Whether a comment is taken for something else: in an arm, for its last command; between the arms of a
choice, for an arm or the head of one. -/
def isMisread (frames : List Frame) (line : Line) : Bool :=
  match frames with
  | .block .arm _ :: _ => (Text.dropEnd? ";;".toList line).isSome
  | .arms :: _ => (inlineArm? line).isSome || (Text.dropEnd? [')'] line).isSome
  | _ => false

/-- A blank line is taken for nothing else. -/
theorem isMisread_nil (frames : List Frame) : isMisread frames [] = false := by
  unfold isMisread
  split <;> rfl

/-- A line is blank or a comment, and is read as such where it stands. -/
structure Passes (frames : List Frame) (line : Line) : Prop where
  free : IsFree frames
  skipped : isSkipped line = true
  read : isMisread frames line = false

theorem Passes.endingOf?_eq_none {kind : BlockKind} {overItems : Bool} {outer : List Frame}
    {line : Line} (h : Passes (.block kind overItems :: outer) line) :
    endingOf? kind line = none := by
  rw [Option.eq_none_iff_forall_ne_some]
  intro ending he
  have hskipped := h.skipped
  cases endsBlock_of_endingOf? he with
  | otherwise => cases hskipped
  | fi => cases hskipped
  | elif helif =>
    rcases helif with rfl | hstart
    · cases hskipped
    · obtain ⟨rest, rfl⟩ := Text.startsWith_iff.mp hstart
      cases hskipped
  | elseFi => cases hskipped
  | armEnd hend =>
    have hread := h.read
    simp only [isMisread, hend, Option.isSome_some] at hread
    cases hread
  | esac => cases hskipped
  | done => cases hskipped

theorem Passes.between {outer : List Frame} {line : Line} (h : Passes (.arms :: outer) line) :
    line ≠ "esac".toList ∧ inlineArm? line = none ∧ Text.dropEnd? [')'] line = none := by
  have hskipped := h.skipped
  have hread := h.read
  simp only [isMisread, Bool.or_eq_false_iff, Option.isSome_eq_false_iff, Option.isNone_iff_eq_none]
    at hread
  refine ⟨?_, hread⟩
  rintro rfl
  cases hskipped

/-- Behind the lines with the keyword of a first line, a line may be put in the block that they open. -/
theorem Passes.cut_opened {kind : BlockKind} {overItems isInline : Bool} {outer : List Frame}
    {keywords lines before after : List Line} {line : Line}
    (hp : Passes (before.foldl advance (opened kind overItems isInline :: outer)) line)
    (h : keywords.length = if isInline then 0 else 1) (hcut : keywords ++ lines = before ++ after) :
    ∃ t, before = keywords ++ t ∧ lines = t ++ after ∧
      Passes (t.foldl advance (.block kind overItems :: outer)) line := by
  have hgoes : Goes (fun _ => True) (opened kind overItems isInline :: outer)
      (.block kind overItems :: outer) keywords := goes_opened trivial h
  rcases cut_append hcut with ⟨t, rfl, hlines⟩ | ⟨t, hne, rfl, -⟩
  · rw [List.foldl_append, hgoes.last] at hp
    exact ⟨t, rfl, hlines, hp⟩
  · cases isInline with
    | true => exact absurd (List.append_eq_nil_iff.mp (List.length_eq_zero_iff.mp h)).2 hne
    | false =>
      -- the only place left is in front of the keyword
      obtain rfl : before = [] := by
        have hpos := List.length_pos_iff.mpr hne
        rw [List.length_append] at h
        exact List.length_eq_zero_iff.mp (by simp at h; omega)
      cases hp.free.placed _ rfl

/-! ## 2. Parts of a body -/

/-- Lines can be laid out as a part of a body. -/
def Part.LaidAs (part : Part) (lines : List Line) : Prop :=
  ∃ segments, Laid part segments ∧ linesOf segments = lines

/-- A part of a body whose first line stands in `start` takes a line more, where its lines are cut in a way
that counts. -/
def Part.TakesFrom (part : Part) (start : List Frame) (lines : List Line)
    (counts : List Line → List Line → Prop) : Prop :=
  ∀ before after line, lines = before ++ after → counts before after →
    Passes (before.foldl advance start) line → part.LaidAs (before ++ line :: after)

/-- A part of a body takes a line more: a block anywhere, but not behind the line that ends it; the others
between two of their lines, and a conditional and arms in front of their lines, too. -/
def Part.Takes (lines : List Line) : Part → Prop
  | .block kind ss ending => ∀ overItems outer,
      (Part.block kind ss ending).TakesFrom (.block kind overItems :: outer) lines
        fun _ after => after = [] → ending = none
  | .statement first s => ∀ kind overItems outer, endingOf? kind first = none →
      isSkipped first = false →
      (Part.statement first s).TakesFrom (.block kind overItems :: outer) lines
        fun before after => before ≠ [] ∧ after ≠ []
  | .conditional header s => ∀ outer,
      (Part.conditional header s).TakesFrom (openedIf header :: outer) lines fun _ after => after ≠ []
  | .arms value => ∀ outer,
      (Part.arms value).TakesFrom (.arms :: outer) lines fun _ after => after ≠ []

theorem Part.LaidAs.skip {kind : BlockKind} {overItems : Bool} {outer : List Frame} {line : Line}
    {ss : List Statement} {ending : Option Ending} {lines : List Line}
    (hp : Passes (.block kind overItems :: outer) line)
    (h : (Part.block kind ss ending).LaidAs lines) :
    (Part.block kind ss ending).LaidAs (line :: lines) := by
  obtain ⟨segments, hl, rfl⟩ := h
  exact ⟨_, .skip hp.endingOf?_eq_none hp.skipped hl, rfl⟩

theorem Part.LaidAs.between {outer : List Frame} {line : Line}
    {arms : List (String × List Statement)} {lines : List Line} (hp : Passes (.arms :: outer) line)
    (h : (Part.arms arms).LaidAs lines) : (Part.arms arms).LaidAs (line :: lines) := by
  obtain ⟨segments, hl, rfl⟩ := h
  obtain ⟨hne, hi, hno⟩ := hp.between
  exact ⟨_, .between hne hi hno hl, by rw [linesOf_cons, lines_betweenArms]; rfl⟩

/-- A line more stands in front of the first line of a part, or behind it. -/
theorem Part.takesFrom_cons {part : Part} {start : List Frame} {first : Line} {lines : List Line}
    {counts : List Line → List Line → Prop}
    (front : ∀ line, counts [] (first :: lines) → Passes start line →
      part.LaidAs (line :: first :: lines))
    (inside : ∀ before after line, lines = before ++ after → counts (first :: before) after →
      Passes (before.foldl advance (advance start first)) line →
      part.LaidAs (first :: (before ++ line :: after))) :
    part.TakesFrom start (first :: lines) counts := by
  intro before after line hcut hcounts hp
  rcases List.cons_eq_append_iff.mp hcut with ⟨rfl, rfl⟩ | ⟨t, rfl, ht⟩
  · exact front line hcounts hp
  · exact inside t after line ht hcounts hp

/-- In front of a line of a block, another line is skipped. -/
theorem Part.takesFrom_block {kind : BlockKind} {overItems : Bool} {outer : List Frame} {first : Line}
    {ss : List Statement} {ending : Option Ending} {lines : List Line}
    (hl : (Part.block kind ss ending).LaidAs (first :: lines))
    (inside : ∀ before after line, lines = before ++ after → (after = [] → ending = none) →
      Passes (before.foldl advance (advance (.block kind overItems :: outer) first)) line →
      (Part.block kind ss ending).LaidAs (first :: (before ++ line :: after))) :
    (Part.block kind ss ending).TakesFrom (.block kind overItems :: outer) (first :: lines)
      fun _ after => after = [] → ending = none :=
  takesFrom_cons (fun _ _ hp => .skip hp hl) inside

/-- In front of the first line of a statement stands no other line of it. -/
theorem Part.takesFrom_statement {part : Part} {kind : BlockKind} {overItems : Bool}
    {outer : List Frame} {first : Line} {lines : List Line} (h : endingOf? kind first = none)
    (hs : isSkipped first = false)
    (inside : ∀ before after line, lines = before ++ after → after ≠ [] →
      Passes (before.foldl advance (behindFirst (.block kind overItems :: outer) first)) line →
      part.LaidAs (first :: (before ++ line :: after))) :
    part.TakesFrom (.block kind overItems :: outer) (first :: lines)
      fun before after => before ≠ [] ∧ after ≠ [] := by
  rw [← advance_block h hs] at inside
  exact takesFrom_cons (fun _ h => absurd rfl h.1) fun before after line hcut hcounts =>
    inside before after line hcut hcounts.2

/-- In front of a line between arms, another line is passed over. -/
theorem Part.takesFrom_arms {outer : List Frame} {first : Line}
    {arms : List (String × List Statement)} {lines : List Line}
    (hl : (Part.arms arms).LaidAs (first :: lines))
    (inside : ∀ before after line, lines = before ++ after → after ≠ [] →
      Passes (before.foldl advance (advance (.arms :: outer) first)) line →
      (Part.arms arms).LaidAs (first :: (before ++ line :: after))) :
    (Part.arms arms).TakesFrom (.arms :: outer) (first :: lines) fun _ after => after ≠ [] :=
  takesFrom_cons (fun _ _ hp => .between hp hl) inside

/-- **The parts of a body take a line more**, by induction on the layout. -/
theorem Laid.takes {part : Part} {segments : List Segment} (h : Laid part segments) :
    part.Takes (linesOf segments) := by
  induction h with
  | finished =>
    intro overItems outer before after line hcut _ hp
    obtain ⟨rfl, rfl⟩ := List.nil_eq_append_iff.mp hcut
    exact .skip hp ⟨_, .finished, rfl⟩
  | @ended kind first ending h =>
    intro overItems outer
    rw [linesOf_cons, lines_endSegment, linesOf_nil, List.append_nil]
    refine Part.takesFrom_block ⟨_, .ended h, by simp⟩ fun before after line hcut hopen _ => ?_
    cases hopen (List.nil_eq_append_iff.mp hcut).2
  | @skip kind first ss ending segments h hs later ih =>
    intro overItems outer
    refine Part.takesFrom_block ⟨_, .skip h hs later, rfl⟩ fun before after line hcut hopen hp => ?_
    have hstep : advance (.block kind overItems :: outer) first = .block kind overItems :: outer := by
      simp only [advance, h, hs, if_true]
    rw [hstep] at hp
    obtain ⟨segments', hl, hlines⟩ := ih overItems outer before after line hcut hopen hp
    exact ⟨_, .skip h hs hl, by simp [Segment.lines, hlines]⟩
  | @next kind first s ss ending front segments h hs statement later ihs ihl =>
    intro overItems outer before after line hcut hopen hp
    rw [linesOf_append] at hcut
    rcases cut_append hcut with ⟨t, rfl, ht⟩ | ⟨t, hne, ht, rfl⟩
    · rw [List.foldl_append, (statement.goes _ overItems outer h hs).last] at hp
      obtain ⟨segments', hl, hlines⟩ := ihl overItems outer t after line ht hopen hp
      exact ⟨_, .next h hs statement hl, by simp [hlines]⟩
    · cases before with
      | nil => exact .skip hp ⟨_, .next h hs statement later, by simp [ht]⟩
      | cons b before =>
        obtain ⟨front', hl, hlines⟩ := ihs kind overItems outer h hs _ t line ht
          ⟨List.cons_ne_nil b before, hne⟩ hp
        exact ⟨_, .next h hs hl later, by simp [hlines]⟩
  | oneLine h =>
    intro kind overItems outer hno hs
    refine Part.takesFrom_statement hno hs fun before after line hcut hne _ => ?_
    exact absurd (List.nil_eq_append_iff.mp hcut).2 hne
  | simple h =>
    intro kind overItems outer hno hs
    refine Part.takesFrom_statement hno hs fun before after line hcut hne _ => ?_
    exact absurd (List.nil_eq_append_iff.mp hcut).2 hne
  | compound h inner ih =>
    intro kind overItems outer hno hs
    refine Part.takesFrom_statement hno hs fun before after line hcut hne hp => ?_
    rw [behindFirst, h] at hp
    obtain ⟨segments', hl, hlines⟩ := ih _ before after line hcut hne hp
    exact ⟨_, .compound h hl, by simp [Segment.lines, hlines]⟩
  | choice h hsel inner ih =>
    intro kind overItems outer hno hs
    refine Part.takesFrom_statement hno hs fun before after line hcut hne hp => ?_
    rw [behindFirst, h] at hp
    obtain ⟨segments', hl, hlines⟩ := ih _ before after line hcut hne hp
    exact ⟨_, .choice h hsel hl, by simp [Segment.lines, hlines]⟩
  | @forLoop first name items inlineDo body ending segments h hh inner ih =>
    intro kind overItems outer hno hs
    rw [linesOf_cons, Segment.lines, linesOf_nil, List.append_nil]
    refine Part.takesFrom_statement hno hs fun before after line hcut hne hp => ?_
    rw [behindFirst, h, hh] at hp
    -- the loop over items is open up to its last line
    have hgoes : Goes (fun frames => ∃ frame ∈ frames, frame.isOverItems = true)
        (opened .loopBody true inlineDo :: .block kind overItems :: outer)
        (.block kind overItems :: outer) (doLines inlineDo ++ linesOf segments) := by
      cases inner.eq_done
      refine goes_loop ⟨_, List.mem_cons_self, by cases inlineDo <;> rfl⟩ ?_
      exact (inner.goes true _).mono fun frames h => ⟨_, h.subset List.mem_cons_self, rfl⟩
    obtain ⟨frame, hframe, hopen⟩ := hgoes.within before after hcut hne
    rw [hp.free.outside frame hframe] at hopen
    cases hopen
  | @whileLoop first condition inlineDo body ending segments h hh inner ih =>
    intro kind overItems outer hno hs
    refine Part.takesFrom_statement hno hs fun before after line hcut hne hp => ?_
    rw [behindFirst, h, hh] at hp
    replace hcut : linesOf ((doLines inlineDo).map .keyword ++ segments) = before ++ after := hcut
    rw [linesOf_append, linesOf_keywords] at hcut
    obtain ⟨t, rfl, ht, hp⟩ := hp.cut_opened (length_doLines inlineDo) hcut
    obtain ⟨segments', hl, hlines⟩ := ih false _ t after line ht (absurd · hne) hp
    exact ⟨_, .whileLoop h hh hl, by simp [Segment.lines, hlines]⟩
  | @withoutElse header t segments inner ih =>
    intro outer before after line hcut hne hp
    rw [linesOf_append, linesOf_keywords] at hcut
    obtain ⟨u, rfl, hu, hp⟩ := hp.cut_opened (length_conditionOf header) hcut
    obtain ⟨segments', hl, hlines⟩ := ih false outer u after line hu (absurd · hne) hp
    exact ⟨_, .withoutElse hl, by simp [hlines]⟩
  | @withElse header t el ending segments more inner other ih iho =>
    intro outer before after line hcut hne hp
    rw [linesOf_append, linesOf_append, linesOf_keywords, List.append_assoc] at hcut
    obtain ⟨u, rfl, hu, hp⟩ := hp.cut_opened (length_conditionOf header) hcut
    rcases cut_append hu with ⟨v, rfl, hv⟩ | ⟨v, hvne, hv, rfl⟩
    · rw [List.foldl_append, (inner.goes false outer).last] at hp
      obtain ⟨more', hl, hlines⟩ := iho false outer v after line hv (absurd · hne) hp
      exact ⟨_, .withElse inner hl, by simp [hlines]⟩
    · obtain ⟨segments', hl, hlines⟩ := ih false outer u v line hv (absurd · hvne) hp
      exact ⟨_, .withElse hl other, by simp [hlines]⟩
  | @withElif header next t nested segments more inner other ih iho =>
    intro outer before after line hcut hne hp
    rw [linesOf_append, linesOf_append, linesOf_keywords, List.append_assoc] at hcut
    obtain ⟨u, rfl, hu, hp⟩ := hp.cut_opened (length_conditionOf header) hcut
    rcases cut_append hu with ⟨v, rfl, hv⟩ | ⟨v, hvne, hv, rfl⟩
    · rw [List.foldl_append, (inner.goes false outer).last] at hp
      obtain ⟨more', hl, hlines⟩ := iho outer v after line hv hne hp
      exact ⟨_, .withElif inner hl, by simp [hlines]⟩
    · obtain ⟨segments', hl, hlines⟩ := ih false outer u v line hv (absurd · hvne) hp
      exact ⟨_, .withElif hl other, by simp [hlines]⟩
  | esac =>
    intro outer
    refine Part.takesFrom_arms ⟨_, .esac, rfl⟩ fun before after line hcut hne _ => ?_
    exact absurd (List.nil_eq_append_iff.mp hcut).2 hne
  | inlineArm hne h later ih =>
    intro outer
    have hl := Laid.inlineArm hne h later
    rw [linesOf_append, linesOf_armSegments]
    refine Part.takesFrom_arms ⟨_, hl, by simp [Segment.lines]⟩
      fun before after line hcut hopen hp => ?_
    rw [advance_between hne (by simp [h])] at hp
    obtain ⟨segments', hl, hlines⟩ := ih outer before after line hcut hopen hp
    exact ⟨_, .inlineArm hne h hl, by simp [Segment.lines, hlines]⟩
  | between hne hi h later ih =>
    intro outer
    have hl := Laid.between hne hi h later
    rw [linesOf_cons, lines_betweenArms]
    refine Part.takesFrom_arms ⟨_, hl, by simp⟩ fun before after line hcut hopen hp => ?_
    rw [advance_between hne (by simp [h])] at hp
    obtain ⟨segments', hl, hlines⟩ := ih outer before after line hcut hopen hp
    exact ⟨_, .between hne hi h hl, by simp [hlines]⟩
  | lastArm hne hi h inner ih =>
    intro outer
    have hl := Laid.lastArm hne hi h inner
    refine Part.takesFrom_arms ⟨_, hl, rfl⟩ fun before after line hcut hopen hp => ?_
    rw [advance_arm hne hi h] at hp
    obtain ⟨segments', hl, hlines⟩ := ih false _ before after line hcut (absurd · hopen) hp
    exact ⟨_, .lastArm hne hi h hl, by simp [Segment.lines, hlines]⟩
  | @arm first p body text arms segments more hne hi h inner later ih ihl =>
    intro outer
    have hl := Laid.arm hne hi h inner later
    rw [linesOf_append, linesOf_armSegments, linesOf_cons]
    refine Part.takesFrom_arms ⟨_, hl, by simp [Segment.lines]⟩
      fun before after line hcut hopen hp => ?_
    rw [advance_arm hne hi h] at hp
    replace hcut : linesOf segments ++ linesOf more = before ++ after := hcut
    rcases cut_append hcut with ⟨t, rfl, ht⟩ | ⟨t, htne, ht, rfl⟩
    · rw [List.foldl_append, (inner.goes false _).last] at hp
      obtain ⟨more', hl, hlines⟩ := ihl outer t after line ht hopen hp
      exact ⟨_, .arm hne hi h inner hl, by simp [Segment.lines, hlines]⟩
    · obtain ⟨segments', hl, hlines⟩ := ih false _ before t line ht (absurd · htne) hp
      exact ⟨_, .arm hne hi h hl later, by simp [Segment.lines, hlines]⟩

/-! ## 3. Bodies -/

/-- The longer of two bodies has the lines of the other one, and one line more between two of them. -/
structure LineMore (body longer : String) (before : List (List Char)) (line : List Char)
    (after : List (List Char)) : Prop where
  body : Text.linesOf body.toList = before ++ after
  longer : Text.linesOf longer.toList = before ++ line :: after

/-- What a line stands in behind some lines of a body, as they are written. -/
def framesAt (before : List (List Char)) : List Frame := framesBehind (before.map Text.trim)

/-- **A body with a line more that is blank or a comment is read as the same statements**, if the line is
put outside of every loop over items and not between a first line and its keyword; and, if it is a comment,
if it neither stands in an arm and ends like the last command of one, nor stands between arms and looks like
an arm or the head of one. -/
theorem ofText_of_line_more {body longer : String} {ss : List Statement}
    (h : Statement.ofText body = .ok ss) {before after : List (List Char)} {line : List Char}
    (hlines : LineMore body longer before line after) (hfree : IsFree (framesAt before))
    (hskipped : Text.trim line = [] ∨ Text.startsWith ['#'] (Text.trim line) = true ∧
      isMisread (framesAt before) (Text.trim line) = false) :
    Statement.ofText longer = .ok ss := by
  obtain ⟨segments, hbody, hl⟩ := ofText_eq_ok_iff.mp h
  have hpasses : Passes (framesAt before) (Text.trim line) := by
    rcases hskipped with hblank | ⟨hcomment, hread⟩
    · rw [hblank]
      exact ⟨hfree, rfl, isMisread_nil _⟩
    · exact ⟨hfree, Bool.or_eq_true_iff.mpr (.inr hcomment), hread⟩
  have hcut : linesOf segments = before.map Text.trim ++ after.map Text.trim := by
    rw [hbody, linesOfBody, hlines.body, List.map_append]
  obtain ⟨segments', hl', hlines'⟩ := hl.takes false [] _ _ _ hcut (fun _ => rfl) hpasses
  refine ofText_eq_ok_iff.mpr ⟨segments', ?_, hl'⟩
  rw [hlines', linesOfBody, hlines.longer, List.map_append, List.map_cons]

/-- A conditional in an arm of a choice in a loop. -/
def pollingBody : String :=
  "while true; do\ncase $x in\na)\nif [ -f a ]; then\necho a\nfi\n;;\nesac\ndone"

/-- What it is read as. -/
def pollingStatements : List Statement :=
  [.whileLoop "true"
    [.choice "x" [("a", [.conditional "[ -f a ]" [.command "echo a"] none])]]]

theorem ofText_pollingBody : Statement.ofText pollingBody = .ok pollingStatements := by
  refine ofText_eq_ok_iff.mpr ⟨[.keyword "while true; do".toList, .keyword "case $x in".toList,
    .keyword "a)".toList, .keyword "if [ -f a ]; then".toList,
    .leaf "echo a".toList (.command "echo a"), .keyword "fi".toList, .keyword ";;".toList,
    .keyword "esac".toList, .keyword "done".toList], by decide, ?_⟩
  have hthen : Laid (.block .thenBlock [.command "echo a"] (some .fi))
      [.leaf "echo a".toList (.command "echo a"), .keyword "fi".toList] :=
    .next (by decide) (by decide) (.simple (by decide : openerOf "echo a".toList = .simple))
      (.ended (by decide : endingOf? .thenBlock "fi".toList = some .fi))
  have hif := Laid.compound (by decide : openerOf "if [ -f a ]; then".toList = .conditional)
    (.withoutElse hthen)
  have harm := Laid.next (by decide : endingOf? .arm "if [ -f a ]; then".toList = none) (by decide) hif
    (.ended (by decide : endingOf? .arm ";;".toList = some (.armEnd [])))
  have harms := Laid.arm (by decide : "a)".toList ≠ _) (by decide) (by decide : _ = some "a".toList)
    harm .esac
  have hcase := Laid.choice (by decide : openerOf "case $x in".toList = .choice)
    (by decide : _ = some "x".toList) harms
  have hloop := Laid.next (by decide : endingOf? .loopBody "case $x in".toList = none) (by decide) hcase
    (.ended (by decide : endingOf? .loopBody "done".toList = some .done))
  have hwhile := Laid.whileLoop (by decide : openerOf "while true; do".toList = .whileLoop)
    (by decide : _ = some ("true".toList, true)) hloop
  exact .next (by decide) (by decide) hwhile .finished

/-- A comment within the conditional is skipped, whatever it ends with. -/
theorem pollingBody_commented : Statement.ofText
    "while true; do\ncase $x in\na)\nif [ -f a ]; then\n  # was: b ;;\necho a\nfi\n;;\nesac\ndone" =
      .ok pollingStatements := by
  refine ofText_of_line_more ofText_pollingBody
    (⟨by decide, by decide⟩ : LineMore _ _
      (["while true; do", "case $x in", "a)", "if [ -f a ]; then"].map String.toList)
      "  # was: b ;;".toList (["echo a", "fi", ";;", "esac", "done"].map String.toList))
    ⟨by decide, by decide⟩ (.inr (by decide))

/-- A choice with an arm on one line. -/
def letterBody : String := "case $x in\na) echo a ;;\nesac"

/-- The choice with a comment in front of the arm. -/
def letterBodyCommented : String := "case $x in\n# letters (lower case)\na) echo a ;;\nesac"

/-- A choice by `x` is read from its arms. -/
theorem ofText_choice {body : String} {arms : List (String × List Statement)}
    {segments : List Segment}
    (hlines : "case $x in".toList :: linesOf segments = linesOfBody body)
    (h : Laid (.arms arms) segments) : Statement.ofText body = .ok [.choice "x" arms] := by
  have hchoice := Laid.choice (by decide : openerOf "case $x in".toList = .choice)
    (by decide : _ = some "x".toList) h
  refine ofText_eq_ok_iff.mpr ⟨_, ?_, .next (by decide) (by decide) hchoice .finished⟩
  rw [List.append_nil]
  exact hlines

theorem ofText_letterBody :
    Statement.ofText letterBody = .ok [.choice "x" [("a", [.command "echo a"])]] :=
  ofText_choice (by decide) (.inlineArm (by decide : "a) echo a ;;".toList ≠ _)
    (by decide : _ = some ("a".toList, "echo a".toList)) .esac)

/-- The comment is read as the head of an arm, and the arm behind it as the last command of that one. -/
theorem ofText_letterBodyCommented : Statement.ofText letterBodyCommented =
    .ok [.choice "x" [("# letters (lower case", [.command "a) echo a"])]] :=
  ofText_choice (by decide) (.arm (by decide : "# letters (lower case)".toList ≠ _) (by decide)
    (by decide : _ = some "# letters (lower case".toList)
    (.ended (by decide : endingOf? .arm "a) echo a ;;".toList = some (.armEnd "a) echo a".toList)))
    .esac)

/-- Not every comment leaves a body the same, though it stands in no loop and behind no first line that
awaits its keyword. -/
theorem letterBody_commented :
    ¬∀ body longer ss before line after, Statement.ofText body = .ok ss →
      LineMore body longer before line after → IsFree (framesAt before) →
      Text.startsWith ['#'] (Text.trim line) = true → Statement.ofText longer = .ok ss := by
  intro h
  have hsame := h letterBody letterBodyCommented _ (["case $x in"].map String.toList)
    "# letters (lower case)".toList (["a) echo a ;;", "esac"].map String.toList) ofText_letterBody
    ⟨by decide, by decide⟩ ⟨by decide, by decide⟩ (by decide)
  rw [ofText_letterBodyCommented] at hsame
  simp at hsame

end Runbook.ShellFunction
