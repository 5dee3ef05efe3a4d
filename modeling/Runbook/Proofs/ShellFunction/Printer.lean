import Runbook.Proofs.ShellFunction.Printing

/-!
# A printer

`Printed` says which lines a block may be printed on; here is one that prints.

* `Style`, `Style.print`: the lines of a statement, given how a printer lays out what it may choose;
* `Style.Sourced`: each loop over items has its own lines as its source;
* `Style.printed`: what is printed in a style is printed;
* **`Style.ofText_print`**: it is read back.
-/

namespace Runbook.ShellFunction

/-! ## 1. The lines of a style -/

/-- How a printer lays out what it may choose: whether `then` and `do` have lines of their own, and
whether a conditional alone in the other block of one goes on with `elif`. -/
structure Style where
  thenAlone : Bool
  doAlone : Bool
  elif : Bool
deriving Repr

mutual

/-- The lines of a statement. -/
def Style.print (style : Style) : Statement → List Line
  | .command text => [text.toList]
  | .conditional condition t e =>
    conditionalLine false style.thenAlone condition.toList ::
      (ownLine "then".toList style.thenAlone ++ (style.printBlock t ++ style.printElse e))
  | .choice selector arms => caseLine selector.toList :: style.printArms arms
  | .forLoop loopVariable items _ body =>
    forLines style.doAlone loopVariable items (style.printBlock body)
  | .whileLoop condition body =>
    whileLine style.doAlone condition.toList ::
      (ownLine "do".toList style.doAlone ++ (style.printBlock body ++ ["done".toList]))
  | .assignment name value isLocal =>
    let line := assignmentLine name.toList value.toList
    [if isLocal then localLine line else line]

/-- The lines of a block. -/
def Style.printBlock (style : Style) : List Statement → List Line
  | [] => []
  | s :: rest => style.print s ++ style.printBlock rest

/-- The lines from the end of the first block of a conditional on. -/
def Style.printElse (style : Style) : Option (List Statement) → List Line
  | none => ["fi".toList]
  | some [.conditional condition t e] =>
    if style.elif then
      conditionalLine true style.thenAlone condition.toList ::
        (ownLine "then".toList style.thenAlone ++ (style.printBlock t ++ style.printElse e))
    else "else".toList :: (style.print (.conditional condition t e) ++ ["fi".toList])
  | some e => "else".toList :: (style.printBlock e ++ ["fi".toList])

/-- The lines of arms. -/
def Style.printArms (style : Style) : List (String × List Statement) → List Line
  | [] => ["esac".toList]
  | (p, body) :: rest =>
    armLine p.toList :: (style.printBlock body ++ ";;".toList :: style.printArms rest)

end

example : (Style.mk false true true).printBlock
    [.conditional "a" [] (some [.conditional "b" [.whileLoop "c" []] none])] =
      ["if a; then", "elif b; then", "while c", "do", "done", "fi"].map String.toList := by
  decide

/-! ## 2. Sources -/

mutual

/-- Whether each loop over items in a statement has its own lines as its source. -/
def Style.Sourced (style : Style) : Statement → Prop
  | .command _ => True
  | .conditional _ t none => style.SourcedBlock t
  | .conditional _ t (some e) => style.SourcedBlock t ∧ style.SourcedBlock e
  | .choice _ arms => style.SourcedArms arms
  | .forLoop loopVariable items source body =>
    source = Text.joinWith "\n" ((forLines style.doAlone loopVariable items
      (style.printBlock body)).map String.ofList) ∧ style.SourcedBlock body
  | .whileLoop _ body => style.SourcedBlock body
  | .assignment _ _ _ => True

/-- Whether each loop over items in a block has its own lines as its source. -/
def Style.SourcedBlock (style : Style) : List Statement → Prop
  | [] => True
  | s :: rest => style.Sourced s ∧ style.SourcedBlock rest

/-- Whether each loop over items in arms has its own lines as its source. -/
def Style.SourcedArms (style : Style) : List (String × List Statement) → Prop
  | [] => True
  | (_, body) :: rest => style.SourcedBlock body ∧ style.SourcedArms rest

end

/-! ## 3. What is printed in a style is printed -/

/-- A block that is no single conditional stands behind an `else`. -/
theorem Style.printed_other (style : Style) {further : Bool} (c : String) {t e : List Statement}
    {lines : List Line} (ht : Printed (.block t) lines) (he : Printed (.block e) (style.printBlock e))
    (hne : ∀ next t' e', e ≠ [.conditional next t' e']) :
    Printed (.conditional further (.conditional c t (some e)))
      (conditionalLine further style.thenAlone c.toList ::
        (ownLine "then".toList style.thenAlone ++ (lines ++ style.printElse (some e)))) := by
  rw [Style.printElse.eq_3 style e hne]
  exact .withElse style.thenAlone ht he

mutual

/-- **What is printed in a style is printed.** -/
theorem Style.printed (style : Style) :
    (s : Statement) → style.Sourced s → Printed (.statement s) (style.print s)
  | .command _, _ => .command
  | .conditional c t none, h =>
    .conditional (.withoutElse style.thenAlone (style.printed_block t h))
  | .conditional c t (some e), h =>
    .conditional (style.printed_else c (style.printed_block t h.1) e h.2)
  | .choice _ arms, h => .choice (style.printed_arms arms h)
  | .forLoop v items source body, h => by
    rw [h.1]
    exact .forLoop style.doAlone (style.printed_block body h.2)
  | .whileLoop _ body, h => .whileLoop style.doAlone (style.printed_block body h)
  | .assignment _ _ true, _ => .declaration
  | .assignment _ _ false, _ => .assignment

theorem Style.printed_block (style : Style) :
    (ss : List Statement) → style.SourcedBlock ss → Printed (.block ss) (style.printBlock ss)
  | [], _ => .nil
  | s :: rest, h => .cons (style.printed s h.1) (style.printed_block rest h.2)

theorem Style.printed_else (style : Style) {further : Bool} (c : String) {t : List Statement}
    {lines : List Line} (ht : Printed (.block t) lines) :
    (e : List Statement) → style.SourcedBlock e →
      Printed (.conditional further (.conditional c t (some e)))
        (conditionalLine further style.thenAlone c.toList ::
          (ownLine "then".toList style.thenAlone ++ (lines ++ style.printElse (some e))))
  | [.conditional next t' e'], h => by
    have hnested : ∀ further, Printed (.conditional further (.conditional next t' e'))
        (conditionalLine further style.thenAlone next.toList ::
          (ownLine "then".toList style.thenAlone ++ (style.printBlock t' ++ style.printElse e'))) := by
      intro further
      match e', h with
      | none, ⟨h, _⟩ => exact .withoutElse style.thenAlone (style.printed_block t' h)
      | some e', ⟨h, _⟩ => exact style.printed_else next (style.printed_block t' h.1) e' h.2
    rw [Style.printElse]
    cases hs : style.elif with
    | true => exact .withElif style.thenAlone ht (hnested true)
    | false =>
      have hblock := Printed.cons (.conditional (hnested false)) .nil
      rw [List.append_nil] at hblock
      exact .withElse style.thenAlone ht hblock
  | [], h | _ :: _ :: _, h | [.command _], h | [.choice _ _], h | [.forLoop _ _ _ _], h
  | [.whileLoop _ _], h | [.assignment _ _ _], h =>
    style.printed_other c ht (style.printed_block _ h) nofun

theorem Style.printed_arms (style : Style) :
    (arms : List (String × List Statement)) → style.SourcedArms arms →
      Printed (.arms arms) (style.printArms arms)
  | [], _ => .esac
  | (_, body) :: rest, h => .arm (style.printed_block body h.1) (style.printed_arms rest h.2)

end

/-- **What is printed in a style is read back**, however its lines are indented. -/
theorem Style.ofText_print (style : Style) {block : List Statement} (hp : PrintableBlock block)
    (hs : style.SourcedBlock block) {rows : List Line} (hi : Indented (style.printBlock block) rows) :
    Statement.ofText (Text.joinWith "\n" (rows.map String.ofList)) = .ok block :=
  ofText_printed hp (style.printed_block block hs) hi

end Runbook.ShellFunction
