import Runbook.Proofs.ShellFunction.Recognition

/-!
# Printed statements are read back

* `Statement.Printable`: the statements whose texts can be printed;
* **`Printed`**: the lines that statements are printed on, one construct a line, by rules;
* `Printed.tidy`, `Printed.laid`: printed lines are tidy, and they are laid out as the statements;
* **`ofText_printed`**: whatever the indentation, printed lines are read as the statements.
-/

namespace Runbook.ShellFunction

/-! ## 1. What can be printed -/

mutual

/-- Whether the texts of a statement, and of all below it, can be printed. -/
def Statement.Printable : Statement → Prop
  | .command text => CommandText text.toList
  | .conditional condition thenBlock none =>
    ConditionText condition.toList ∧ PrintableBlock thenBlock
  | .conditional condition thenBlock (some elseBlock) =>
    ConditionText condition.toList ∧ PrintableBlock thenBlock ∧ PrintableBlock elseBlock
  | .choice selector arms => NameText selector.toList ∧ PrintableArms arms
  | .forLoop loopVariable items _ body =>
    NameText loopVariable.toList ∧ ConditionText items.toList ∧ PrintableBlock body
  | .whileLoop condition body => ConditionText condition.toList ∧ PrintableBlock body
  | .assignment name value _ => IdentifierText name.toList ∧ ValueText value.toList

/-- Whether a block can be printed. -/
def PrintableBlock : List Statement → Prop
  | [] => True
  | s :: rest => s.Printable ∧ PrintableBlock rest

/-- Whether arms can be printed. -/
def PrintableArms : List (String × List Statement) → Prop
  | [] => True
  | (p, body) :: rest => PatternText p.toList ∧ PrintableBlock body ∧ PrintableArms rest

end

/-- What is printed: a block, a statement, a conditional or a further condition with all behind it, or
the arms of a choice. -/
inductive Fragment where
  | block (statements : List Statement)
  | statement (s : Statement)
  | conditional (further : Bool) (s : Statement)
  | arms (arms : List (String × List Statement))

/-- Whether a fragment can be printed. -/
def Fragment.Printable : Fragment → Prop
  | .block ss => PrintableBlock ss
  | .statement s => s.Printable
  | .conditional _ s => s.Printable
  | .arms entries => PrintableArms entries

/-! ## 2. How it is printed -/

/-- The lines of a loop over items, given those of its body. -/
def forLines (alone : Bool) (loopVariable items : String) (body : List Line) : List Line :=
  forLine alone loopVariable.toList items.toList ::
    (ownLine "do".toList alone ++ (body ++ ["done".toList]))

/-- **How statements are printed**, one construct a line. -/
inductive Printed : Fragment → List Line → Prop
  | nil : Printed (.block []) []
  | cons {s : Statement} {ss : List Statement} {first later : List Line}
      (statement : Printed (.statement s) first) (block : Printed (.block ss) later) :
      Printed (.block (s :: ss)) (first ++ later)
  | command {text : String} : Printed (.statement (.command text)) [text.toList]
  | assignment {name value : String} :
      Printed (.statement (.assignment name value false)) [assignmentLine name.toList value.toList]
  | declaration {name value : String} : Printed (.statement (.assignment name value true))
      [localLine (assignmentLine name.toList value.toList)]
  | bareDeclaration {name : String} :
      Printed (.statement (.assignment name "" true)) [localLine name.toList]
  -- `then` and `do` may have lines of their own
  | conditional {s : Statement} {lines : List Line}
      (inner : Printed (.conditional false s) lines) : Printed (.statement s) lines
  | whileLoop (alone : Bool) {condition : String} {body : List Statement} {lines : List Line}
      (inner : Printed (.block body) lines) :
      Printed (.statement (.whileLoop condition body))
        (whileLine alone condition.toList ::
          (ownLine "do".toList alone ++ (lines ++ ["done".toList])))
  -- the source of a loop over items is its own lines
  | forLoop (alone : Bool) {loopVariable items : String} {body : List Statement}
      {lines : List Line} (inner : Printed (.block body) lines) :
      Printed (.statement (.forLoop loopVariable items
          (Text.joinWith "\n" ((forLines alone loopVariable items lines).map String.ofList)) body))
        (forLines alone loopVariable items lines)
  | choice {selector : String} {arms : List (String × List Statement)} {lines : List Line}
      (inner : Printed (.arms arms) lines) :
      Printed (.statement (.choice selector arms)) (caseLine selector.toList :: lines)
  -- the other block of a conditional: none, one of its own, or a conditional that goes on
  | withoutElse (alone : Bool) {further : Bool} {condition : String} {t : List Statement}
      {lines : List Line} (inner : Printed (.block t) lines) :
      Printed (.conditional further (.conditional condition t none))
        (conditionalLine further alone condition.toList ::
          (ownLine "then".toList alone ++ (lines ++ ["fi".toList])))
  | withElse (alone : Bool) {further : Bool} {condition : String} {t e : List Statement}
      {lines more : List Line} (inner : Printed (.block t) lines)
      (other : Printed (.block e) more) :
      Printed (.conditional further (.conditional condition t (some e)))
        (conditionalLine further alone condition.toList ::
          (ownLine "then".toList alone ++ (lines ++ "else".toList :: (more ++ ["fi".toList]))))
  | withElif (alone : Bool) {further : Bool} {condition : String} {t : List Statement}
      {nested : Statement} {lines more : List Line} (inner : Printed (.block t) lines)
      (other : Printed (.conditional true nested) more) :
      Printed (.conditional further (.conditional condition t (some [nested])))
        (conditionalLine further alone condition.toList ::
          (ownLine "then".toList alone ++ (lines ++ more)))
  -- an arm ends on a line of its own, behind its last command, or where the choice ends
  | esac : Printed (.arms []) ["esac".toList]
  | arm {p : String} {body : List Statement} {arms : List (String × List Statement)}
      {lines more : List Line} (inner : Printed (.block body) lines)
      (later : Printed (.arms arms) more) :
      Printed (.arms ((p, body) :: arms))
        (armLine p.toList :: (lines ++ ";;".toList :: more))
  | armOfCommands {p text : String} {body : List Statement}
      {arms : List (String × List Statement)} {lines more : List Line}
      (inner : Printed (.block body) lines) (later : Printed (.arms arms) more) :
      Printed (.arms ((p, body ++ [.command text]) :: arms))
        (armLine p.toList :: (lines ++ lastCommandLine text.toList :: more))
  | inlineArm {p text : String} {arms : List (String × List Statement)} {more : List Line}
      (later : Printed (.arms arms) more) :
      Printed (.arms ((p, [.command text]) :: arms)) (inlineArmLine p.toList text.toList :: more)
  | lastArm {p : String} {body : List Statement} {lines : List Line}
      (inner : Printed (.block body) lines) :
      Printed (.arms [(p, body)]) (armLine p.toList :: (lines ++ ["esac".toList]))

/-! ## 3. Printed lines are tidy -/

theorem printableBlock_append {a b : List Statement} :
    PrintableBlock (a ++ b) ↔ PrintableBlock a ∧ PrintableBlock b := by
  induction a with
  | nil => simp [PrintableBlock]
  | cons s a ih => simp [PrintableBlock, ih, and_assoc]

/-- Lines that are all tidy. -/
def AllTidy (lines : List Line) : Prop := ∀ line ∈ lines, Text.Tidy line

@[simp] theorem allTidy_nil : AllTidy [] := nofun

@[simp] theorem allTidy_cons {line : Line} {lines : List Line} :
    AllTidy (line :: lines) ↔ Text.Tidy line ∧ AllTidy lines := List.forall_mem_cons

@[simp] theorem allTidy_append {a b : List Line} : AllTidy (a ++ b) ↔ AllTidy a ∧ AllTidy b :=
  List.forall_mem_append

theorem allTidy_ownLine {keyword : List Char} (h : Text.Tidy keyword) (alone : Bool) :
    AllTidy (ownLine keyword alone) := by
  cases alone with
  | true => exact allTidy_cons.mpr ⟨h, allTidy_nil⟩
  | false => exact allTidy_nil

/-- **Printed lines are tidy.** -/
theorem Printed.tidy {f : Fragment} {lines : List Line} (h : Printed f lines)
    (hp : f.Printable) : AllTidy lines := by
  induction h with
  | nil => exact allTidy_nil
  | cons statement block ihs ihb => exact allTidy_append.mpr ⟨ihs hp.1, ihb hp.2⟩
  | command => exact allTidy_cons.mpr ⟨hp.tidy, allTidy_nil⟩
  | assignment => exact allTidy_cons.mpr ⟨tidy_quotedLine hp.1 (.inl rfl) hp.2.unbroken, allTidy_nil⟩
  | declaration =>
    have hline := tidy_quotedLine hp.1 (.inl rfl) hp.2.unbroken
    exact allTidy_cons.mpr ⟨tidy_localLine hline, allTidy_nil⟩
  | bareDeclaration => exact allTidy_cons.mpr ⟨tidy_localLine hp.1.nameText.tidy, allTidy_nil⟩
  | conditional inner ih => exact ih hp
  | whileLoop alone inner ih =>
    obtain ⟨hc, hb⟩ := hp
    simp only [allTidy_cons, allTidy_append]
    exact ⟨tidy_whileLine hc alone, allTidy_ownLine (by decide) alone, ih hb, by decide,
      allTidy_nil⟩
  | forLoop alone inner ih =>
    obtain ⟨hv, hi, hb⟩ := hp
    simp only [forLines, allTidy_cons, allTidy_append]
    exact ⟨tidy_forLine hv hi alone, allTidy_ownLine (by decide) alone, ih hb, by decide,
      allTidy_nil⟩
  | choice inner ih => exact allTidy_cons.mpr ⟨tidy_caseLine hp.1, ih hp.2⟩
  | @withoutElse alone further _ _ _ inner ih =>
    obtain ⟨hc, hb⟩ := hp
    simp only [allTidy_cons, allTidy_append]
    exact ⟨tidy_conditionalLine hc further alone, allTidy_ownLine (by decide) alone, ih hb,
      by decide, allTidy_nil⟩
  | @withElse alone further _ _ _ _ _ inner other ih iho =>
    obtain ⟨hc, hb, he⟩ := hp
    simp only [allTidy_cons, allTidy_append]
    exact ⟨tidy_conditionalLine hc further alone, allTidy_ownLine (by decide) alone, ih hb,
      by decide, iho he, by decide, allTidy_nil⟩
  | @withElif alone further _ _ _ _ _ inner other ih iho =>
    obtain ⟨hc, hb, he, -⟩ := hp
    simp only [allTidy_cons, allTidy_append]
    exact ⟨tidy_conditionalLine hc further alone, allTidy_ownLine (by decide) alone, ih hb, iho he⟩
  | esac => exact allTidy_cons.mpr ⟨by decide, allTidy_nil⟩
  | arm inner later ih ihl =>
    obtain ⟨hpat, hb, ha⟩ := hp
    simp only [allTidy_cons, allTidy_append]
    exact ⟨tidy_armLine hpat, ih hb, by decide, ihl ha⟩
  | armOfCommands inner later ih ihl =>
    obtain ⟨hpat, hb, ha⟩ := hp
    obtain ⟨hb, ht, -⟩ := printableBlock_append.mp hb
    simp only [allTidy_cons, allTidy_append]
    exact ⟨tidy_armLine hpat, ih hb, tidy_lastCommandLine ht, ihl ha⟩
  | inlineArm later ih =>
    obtain ⟨hpat, ⟨ht, -⟩, ha⟩ := hp
    exact allTidy_cons.mpr ⟨tidy_inlineArmLine hpat ht, ih ha⟩
  | lastArm inner ih =>
    obtain ⟨hpat, hb, -⟩ := hp
    simp only [allTidy_cons, allTidy_append]
    exact ⟨tidy_armLine hpat, ih hb, by decide, allTidy_nil⟩

/-! ## 4. Printed lines are laid out as what was printed -/

/-- How the lines of a fragment are laid out: a block with whatever stands behind it, a statement from a
line on that starts one, a conditional as one by its first condition. -/
def Fragment.LaidOn (lines : List Line) : Fragment → Prop
  | .block ss => ∀ {kind : BlockKind} {later : List Statement} {ending : Option Ending}
      {segments : List Segment}, Laid (.block kind later ending) segments →
      ∃ front, Laid (.block kind (ss ++ later) ending) (front ++ segments) ∧ linesOf front = lines
  | .statement s => ∃ line segments, Starts line ∧ Laid (.statement line s) segments ∧
      linesOf segments = lines
  | .conditional further s => ∃ c alone segments, ConditionText c ∧
      Laid (.conditional (conditionalLine false alone c) s) segments ∧
      lines = conditionalLine further alone c :: linesOf segments
  | .arms entries => ∃ segments, Laid (.arms entries) segments ∧ linesOf segments = lines

/-- A block and the line that ends it. -/
theorem laid_ended {ss : List Statement} {lines : List Line} (h : (Fragment.block ss).LaidOn lines)
    (kind : BlockKind) (line : Line) {ending : Ending} (he : endingOf? kind line = some ending) :
    ∃ segments, Laid (.block kind (ss ++ ending.statements) (some ending)) segments ∧
      linesOf segments = lines ++ [line] := by
  obtain ⟨front, hl, hlines⟩ := h (.ended he)
  exact ⟨_, hl, by rw [linesOf_append, hlines, linesOf_cons, lines_endSegment]; rfl⟩

/-- A line that is a statement by itself. -/
theorem laid_simple {line : Line} {s : Statement} (hs : Starts line) (ho : openerOf line = .simple)
    (h : simpleStatement line = s) : (Fragment.statement s).LaidOn [line] := by
  subst h
  exact ⟨line, _, hs, .simple ho, rfl⟩

theorem sourceOf_of_tidy {lines : List Line} (h : AllTidy lines) :
    sourceOf lines = Text.joinWith "\n" (lines.map String.ofList) := by
  unfold sourceOf
  rw [List.filter_eq_self.mpr fun line hl => by simpa using (h line hl).nonempty]

theorem doLines_not (alone : Bool) : doLines (!alone) = ownLine "do".toList alone := by
  cases alone <;> rfl

theorem statements_armEnd {text : List Char} (h : text ≠ []) :
    (Ending.armEnd text).statements = [.command (String.ofList text)] := by
  cases text with
  | nil => exact absurd rfl h
  | cons _ _ => rfl

/-- An arm, the line that ends it, and the arms behind it. -/
theorem laid_arm {p : String} {ss : List Statement} {entries : List (String × List Statement)}
    {lines more : List Line} (hp : PatternText p.toList) (h : (Fragment.block ss).LaidOn lines)
    {line : Line} {text : List Char} (he : endingOf? .arm line = some (.armEnd text))
    (later : (Fragment.arms entries).LaidOn more) :
    (Fragment.arms ((p, ss ++ (Ending.armEnd text).statements) :: entries)).LaidOn
      (armLine p.toList :: (lines ++ line :: more)) := by
  obtain ⟨segments, hl, hlines⟩ := laid_ended h _ _ he
  obtain ⟨behind, ho, rfl⟩ := later
  have harm := Laid.arm (armLine_ne_esac _) (inlineArm?_armLine hp)
    (Text.dropEnd?_append _ _) hl ho
  rw [unquote_pattern hp, String.ofList_toList] at harm
  refine ⟨_, harm, ?_⟩
  rw [linesOf_append, linesOf_armSegments, linesOf_cons, hlines]
  simp [Segment.lines]

theorem laidOn_nil : (Fragment.block []).LaidOn [] := fun later => ⟨[], later, rfl⟩

/-- A statement and the statements behind it. -/
theorem laidOn_cons {s : Statement} {ss : List Statement} {a b : List Line}
    (hs : (Fragment.statement s).LaidOn a) (hss : (Fragment.block ss).LaidOn b) :
    (Fragment.block (s :: ss)).LaidOn (a ++ b) := by
  intro kind later ending segments hl
  obtain ⟨line, first, hstarts, hfirst, rfl⟩ := hs
  obtain ⟨front, hfront, rfl⟩ := hss hl
  refine ⟨first ++ front, ?_, linesOf_append _ _⟩
  rw [List.append_assoc]
  exact .next (hstarts.goesOn kind) hstarts.seen hfirst hfront

/-- **Printed lines are laid out as what was printed.** -/
theorem Printed.laid {f : Fragment} {lines : List Line} (h : Printed f lines)
    (hp : f.Printable) : f.LaidOn lines := by
  induction h with
  | nil => exact laidOn_nil
  | cons statement block ihs ihb => exact laidOn_cons (ihs hp.1) (ihb hp.2)
  | command => exact laid_simple hp.starts (openerOf_command hp) (simpleStatement_command hp)
  | assignment =>
    obtain ⟨hn, hv⟩ := hp
    rw [assignmentLine_eq]
    refine laid_simple (starts_quotedLine hn (.inl rfl) _) (openerOf_quotedLine hn (.inl rfl) _) ?_
    rw [simpleStatement_quotedLine hn (.inl rfl) hv.unbroken hv.noQuote, String.ofList_toList,
      String.ofList_toList]
  | @declaration name value =>
    obtain ⟨hn, hv⟩ := hp
    rw [assignmentLine_eq]
    have hlast := getLast?_quotedLine [] '"' name.toList value.toList
    refine laid_simple (starts_localLine hlast (by decide))
      (openerOf_localLine (isOneLine_quotedLine (.inl rfl) _ _ _)) ?_
    rw [simpleStatement_localLine hn (.inl rfl) hv.unbroken, String.ofList_toList,
      String.ofList_toList]
  | bareDeclaration =>
    obtain ⟨hn, -⟩ := hp
    obtain ⟨d, hd, -⟩ := hn.nameText.tidy.exists_last
    have hsemicolon : d ≠ ';' := by
      rintro rfl
      exact hn.nameText.noSemicolon (List.mem_of_getLast? hd)
    refine laid_simple (starts_localLine hd hsemicolon)
      (openerOf_localLine (isOneLine_localLine_name hn)) ?_
    rw [simpleStatement_localLine_name hn, String.ofList_toList]
  | conditional inner ih =>
    obtain ⟨c, alone, segments, hc, hl, rfl⟩ := ih hp
    exact ⟨_, _, starts_conditionalLine hc alone,
      .compound (openerOf_conditionalLine hc alone) hl, rfl⟩
  | @whileLoop alone condition body lines inner ih =>
    obtain ⟨hc, hb⟩ := hp
    obtain ⟨segments, hl, hlines⟩ := laid_ended (ih hb) .loopBody "done".toList rfl
    have hloop := Laid.whileLoop (openerOf_whileLine hc alone) (whileHead?_whileLine hc alone) hl
    rw [doLines_not, String.ofList_toList, Ending.statements, List.append_nil] at hloop
    refine ⟨_, _, starts_whileLine hc alone, hloop, ?_⟩
    rw [linesOf_cons, linesOf_append, linesOf_keywords, hlines]
    rfl
  | @forLoop alone loopVariable items body lines inner ih =>
    have htidy : AllTidy (forLines alone loopVariable items lines) :=
      (Printed.forLoop alone inner).tidy hp
    obtain ⟨hv, hi, hb⟩ := hp
    obtain ⟨segments, hl, hlines⟩ := laid_ended (ih hb) .loopBody "done".toList rfl
    have hloop := Laid.forLoop (openerOf_forLine hv hi alone) (forHead?_forLine hv hi alone) hl
    rw [doLines_not, hlines, String.ofList_toList, String.ofList_toList, Ending.statements,
      List.append_nil] at hloop
    have hsource := sourceOf_of_tidy htidy
    unfold forLines at hsource
    rw [hsource] at hloop
    exact ⟨_, _, starts_forLine hi alone, hloop, List.append_nil _⟩
  | @choice selector entries lines inner ih =>
    obtain ⟨hv, ha⟩ := hp
    obtain ⟨segments, hl, rfl⟩ := ih ha
    have hchoice := Laid.choice (openerOf_caseLine _) (caseSelector?_caseLine hv) hl
    rw [String.ofList_toList] at hchoice
    exact ⟨_, _, starts_caseLine _, hchoice, rfl⟩
  | @withoutElse alone further condition t lines inner ih =>
    obtain ⟨hc, hb⟩ := hp
    obtain ⟨segments, hl, hlines⟩ := laid_ended (ih hb) .thenBlock "fi".toList rfl
    have hconditional := @Laid.withoutElse (conditionalLine false alone condition.toList) _ _ hl
    rw [conditionOf_conditionalLine hc alone, String.ofList_toList, Ending.statements,
      List.append_nil] at hconditional
    refine ⟨_, alone, _, hc, hconditional, ?_⟩
    rw [linesOf_append, linesOf_keywords, hlines]
  | @withElse alone further condition t e lines more inner other ih iho =>
    obtain ⟨hc, hb, he⟩ := hp
    obtain ⟨segments, hl, hlines⟩ := laid_ended (ih hb) .thenBlock "else".toList rfl
    obtain ⟨behind, ho, hmore⟩ := laid_ended (iho he) .elseBlock "fi".toList rfl
    have hconditional :=
      @Laid.withElse (conditionalLine false alone condition.toList) _ _ _ _ _ hl ho
    rw [conditionOf_conditionalLine hc alone, String.ofList_toList, Ending.statements,
      Ending.statements, List.append_nil, List.append_nil] at hconditional
    refine ⟨_, alone, _, hc, hconditional, ?_⟩
    rw [linesOf_append, linesOf_append, linesOf_keywords, hlines, hmore]
    simp
  | @withElif alone further condition t nested lines more inner other ih iho =>
    obtain ⟨hc, hb, he, -⟩ := hp
    obtain ⟨c, nextAlone, behind, -, ho, rfl⟩ := iho he
    obtain ⟨segments, hl, hlines⟩ := laid_ended (ih hb) _ _ (endingOf?_elif nextAlone c)
    have hconditional :=
      @Laid.withElif (conditionalLine false alone condition.toList) _ _ _ _ _ hl ho
    rw [conditionOf_conditionalLine hc alone, String.ofList_toList, Ending.statements,
      List.append_nil] at hconditional
    refine ⟨_, alone, _, hc, hconditional, ?_⟩
    rw [linesOf_append, linesOf_append, linesOf_keywords, hlines]
    simp
  | esac => exact ⟨_, .esac, rfl⟩
  | arm inner later ih ihl =>
    obtain ⟨hpat, hb, ha⟩ := hp
    have harm := laid_arm hpat (ih hb) (endingOf?_arm []) (ihl ha)
    rwa [show Text.trim [] = [] from rfl, Ending.statements, List.append_nil] at harm
  | armOfCommands inner later ih ihl =>
    obtain ⟨hpat, hb, ha⟩ := hp
    obtain ⟨hb, ht, -⟩ := printableBlock_append.mp hb
    have harm := laid_arm hpat (ih hb) (endingOf?_lastCommandLine ht) (ihl ha)
    rwa [statements_armEnd ht.tidy.nonempty, String.ofList_toList] at harm
  | inlineArm later ih =>
    obtain ⟨hpat, ⟨ht, -⟩, ha⟩ := hp
    obtain ⟨behind, ho, rfl⟩ := ih ha
    have harm := Laid.inlineArm (inlineArmLine_ne_esac _ _) (inlineArm?_inlineArmLine hpat ht) ho
    rw [unquote_pattern hpat, String.ofList_toList, String.ofList_toList] at harm
    refine ⟨_, harm, ?_⟩
    rw [linesOf_append, linesOf_armSegments]
    rfl
  | lastArm inner ih =>
    obtain ⟨hpat, hb, -⟩ := hp
    obtain ⟨segments, hl, hlines⟩ := laid_ended (ih hb) .arm "esac".toList rfl
    have harm := Laid.lastArm (armLine_ne_esac _) (inlineArm?_armLine hpat)
      (Text.dropEnd?_append _ _) hl
    rw [unquote_pattern hpat, String.ofList_toList, Ending.statements, List.append_nil] at harm
    exact ⟨_, harm, by rw [linesOf_cons, hlines]; rfl⟩

/-! ## 5. Printed lines are read back -/

/-- The lines with blanks in front of each. -/
def Indented (lines rows : List Line) : Prop :=
  List.Forall₂ (fun line row => ∃ indent, indent.all Text.isBlank = true ∧
    Text.Unbroken indent ∧ row = indent ++ line) lines rows

theorem Indented.trim {lines rows : List Line} (h : Indented lines rows) (ht : AllTidy lines) :
    rows.map Text.trim = lines ∧ ∀ row ∈ rows, Text.Unbroken row ∧ row ≠ [] := by
  induction h with
  | nil => exact ⟨rfl, nofun⟩
  | @cons line row lines rows hrow _ ih =>
    obtain ⟨indent, hblank, hunbroken, rfl⟩ := hrow
    obtain ⟨hline, hlines⟩ := allTidy_cons.mp ht
    obtain ⟨hmap, hall⟩ := ih hlines
    have htrim := Text.trim_indented hblank hline.trimmed
    refine ⟨by rw [List.map_cons, htrim, hmap], List.forall_mem_cons.mpr ⟨⟨?_, ?_⟩, hall⟩⟩
    · exact hunbroken.append hline.unbroken
    · exact List.append_ne_nil_of_right_ne_nil _ hline.nonempty

/-- Lines that are laid out as a block are read as it, however they are indented. -/
theorem ofText_of_laidOn {block : List Statement} {lines rows : List Line} (ht : AllTidy lines)
    (hl : (Fragment.block block).LaidOn lines) (hi : Indented lines rows) :
    Statement.ofText (Text.joinWith "\n" (rows.map String.ofList)) = .ok block := by
  obtain ⟨hrows, hall⟩ := hi.trim ht
  obtain ⟨front, hfront, hlines⟩ := hl (@Laid.finished .body)
  refine ofText_eq_ok_iff.mpr ⟨front, ?_, by simpa using hfront⟩
  unfold linesOfBody
  rw [Text.linesOf_joinWith hall, hrows, hlines]

/-- **Printed statements are read back**, whichever way they are printed and however their lines are
indented. -/
theorem ofText_printed {block : List Statement} {lines rows : List Line}
    (hp : PrintableBlock block) (h : Printed (.block block) lines) (hi : Indented lines rows) :
    Statement.ofText (Text.joinWith "\n" (rows.map String.ofList)) = .ok block :=
  ofText_of_laidOn (h.tidy hp) (h.laid hp) hi

theorem indented_map (indent : List Char) (hb : indent.all Text.isBlank = true)
    (hu : Text.Unbroken indent) (lines : List Line) : Indented lines (lines.map (indent ++ ·)) := by
  induction lines with
  | nil => exact .nil
  | cons line lines ih => exact .cons ⟨indent, hb, hu, rfl⟩ ih

/-- Statements of every kind, one in another. -/
def survey : List Statement :=
  [.assignment "n" "two words" true,
    .conditional "[ -f a ]" [.command "cat a"]
      (some [.conditional "[ -f b ]" [.command "cat b"] (some [.assignment "m" "" false])]),
    .forLoop "f" "*.txt" (Text.joinWith "\n" ["for f in *.txt; do", "wc $f", "done"])
      [.command "wc $f"],
    .whileLoop "[ -f lock ]"
      [.choice "n" [("a", [.command "sleep 1", .command "sleep 2"]), ("b", [.command "sleep 3"]),
        ("*", [.command "break"])]]]

/-- A way to print them. -/
def surveyLines : List Line :=
  ["local n=\"two words\"", "if [ -f a ]; then", "cat a", "elif [ -f b ]", "then", "cat b", "else",
    "m=\"\"", "fi", "for f in *.txt; do", "wc $f", "done", "while [ -f lock ]", "do",
    "case \"$n\" in", "a)", "sleep 1", "sleep 2 ;;", "b) sleep 3 ;;", "*)", "break", "esac",
    "done"].map String.toList

theorem survey_printed : PrintableBlock survey ∧ Printed (.block survey) surveyLines ∧
    Indented surveyLines (surveyLines.map ("  ".toList ++ ·)) ∧
    Statement.ofText (Text.joinWith "\n" ((surveyLines.map ("  ".toList ++ ·)).map String.ofList)) =
      .ok survey := by
  have hc : ∀ text ∈ ["cat a", "cat b", "wc $f", "sleep 1", "sleep 2", "sleep 3", "break"],
      CommandText text.toList := by decide
  have hp : PrintableBlock survey :=
    ⟨⟨by decide, by decide⟩,
      ⟨by decide, ⟨hc "cat a" (by decide), trivial⟩,
        ⟨by decide, ⟨hc "cat b" (by decide), trivial⟩, ⟨by decide, by decide⟩, trivial⟩, trivial⟩,
      ⟨by decide, by decide, hc "wc $f" (by decide), trivial⟩,
      ⟨by decide,
        ⟨by decide, ⟨by decide, ⟨hc "sleep 1" (by decide), hc "sleep 2" (by decide), trivial⟩,
        by decide, ⟨hc "sleep 3" (by decide), trivial⟩,
        by decide, ⟨hc "break" (by decide), trivial⟩, trivial⟩⟩, trivial⟩,
      trivial⟩
  have command : ∀ text : String, Printed (.block [.command text]) [text.toList] :=
    fun text => .cons .command .nil
  have hprinted : Printed (.block survey) surveyLines :=
    .cons .declaration
      (.cons (.conditional (.withElif false (command "cat a")
          (.withElse true (command "cat b") (.cons .assignment .nil))))
        (.cons (.forLoop false (command "wc $f"))
          (.cons (.whileLoop true (.cons (.choice (.armOfCommands (command "sleep 1")
              (.inlineArm (.lastArm (command "break"))))) .nil))
            .nil)))
  have hi := indented_map "  ".toList (by decide) (by decide) surveyLines
  exact ⟨hp, hprinted, hi, ofText_printed hp hprinted hi⟩

end Runbook.ShellFunction
