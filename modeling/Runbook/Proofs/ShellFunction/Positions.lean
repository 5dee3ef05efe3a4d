import Runbook.Proofs.ShellFunction.Grammar

/-!
# Reading by position

The readers of a body answer the lines that are left. Here is how they go over the lines by position: they
hand a position to each other, look at the line there, and answer the position to go on at. A position may
go astray and a reader may call another one without end, so both are possible outcomes here:

* `Halt`, `lineAt`, `lineOrEnd`: why there is no result, and looking at a line;
* `blockAt`, `statementAt` and their companions: the readers by position, with fuel for their calls;
* `Answers`, `BlockAnswers`, **`readsOn`**: they read what is read off the lines from their position on;
* `MovesOn`, `EndsAt`, `Progress`, **`progress_of_text`**: every call gets on, none leaves the lines, and the
  fuel is enough.
-/

namespace Runbook.ShellFunction

/-! ## 1. Readers by position -/

/-- Why a reader by position has no result: the lines cannot be read, a line was looked at that is not there, or
the fuel was spent. -/
inductive Halt where
  | refused (e : ReadError)
  | outOfRange
  | unfinished

/-- What was read, and the position behind it. -/
structure ReadTo (α : Type) where
  value : α
  next : Nat

/-- A block, how it ended, and the position of the line that ended it; without such a line, of the end. -/
structure BlockTo where
  statements : List Statement
  next : Nat
  ending : Option Ending

/-- The block with a statement in front. -/
def BlockTo.after (s : List Statement) (b : BlockTo) : BlockTo :=
  { b with statements := s ++ b.statements }

section Readers

variable (lines : List Line)

/-- The line at a position, which has to be there. -/
def lineAt (i : Nat) : Except Halt Line :=
  match lines[i]? with
  | some line => .ok line
  | none => .error .outOfRange

/-- The line at a position, or none at the end. Behind the end nothing may be looked at. -/
def lineOrEnd (i : Nat) : Except Halt (Option Line) :=
  if i = lines.length then .ok none else (lineAt lines i).map some

/-- The first line of a conditional: the one given, or else the line at its position. -/
def headerAt (start : Nat) : Option Line → Except Halt Line
  | some (c :: text) => .ok (c :: text)
  | some [] => lineAt lines start
  | none => lineAt lines start

/-- The condition of a conditional and the position behind its `then`. -/
def thenAt (header : Line) (start : Nat) : Except Halt (ReadTo (List Char)) :=
  match inlineCondition? header with
  | some condition => .ok ⟨condition, start + 1⟩
  | none =>
    if lines[start + 1]? = some "then".toList then .ok ⟨Text.trim (header.drop 3), start + 2⟩
    else .error (.refused (.malformedIf header))

/-- The position of the body of a loop, behind its `do`. -/
def loopBodyAt (inlineDo : Bool) (keyword : String) (header : Line) (start : Nat) :
    Except Halt Nat :=
  if inlineDo then .ok (start + 1)
  else if lines[start + 1]? = some "do".toList then .ok (start + 2)
  else .error (.refused (.missingDo keyword header))

/-- The loop that is made of its body, if that ended. -/
def loopTo (header : Line) (make : Nat → List Statement → Statement) (b : BlockTo) :
    Except Halt (ReadTo Statement) :=
  match b.ending with
  | none => .error (.refused (.missingDone header))
  | some _ => .ok ⟨make (b.next + 1) b.statements, b.next + 1⟩

mutual

/-- A block of the given kind, from a position on. -/
def blockAt : Nat → BlockKind → Nat → Except Halt BlockTo
  | 0, _, _ => .error .unfinished
  | fuel + 1, kind, start => do
    match ← lineOrEnd lines start with
    | none => return ⟨[], start, none⟩
    | some line =>
      match endingOf? kind line with
      | some ending => return ⟨ending.statements, start, some ending⟩
      | none =>
        if isSkipped line then do
          let b ← blockAt fuel kind (start + 1)
          return b.after []
        else do
          let r ← statementAt fuel start
          let b ← blockAt fuel kind r.next
          return b.after [r.value]

/-- A statement, from the position of its first line on. -/
def statementAt : Nat → Nat → Except Halt (ReadTo Statement)
  | 0, _ => .error .unfinished
  | fuel + 1, start => do
    let line ← lineAt lines start
    match openerOf line with
    | .oneLine => return ⟨.command (String.ofList line), start + 1⟩
    | .conditional => conditionalAt fuel none start
    | .choice => choiceAt fuel start
    | .forLoop => forLoopAt fuel start
    | .whileLoop => whileLoopAt fuel start
    | .simple => return ⟨simpleStatement line, start + 1⟩

/-- A conditional. A further condition makes a conditional of its own at the position of its line, with the
first line that this line makes. -/
def conditionalAt : Nat → Option Line → Nat → Except Halt (ReadTo Statement)
  | 0, _, _ => .error .unfinished
  | fuel + 1, given, start => do
    let header ← headerAt lines start given
    let condition ← thenAt lines header start
    let t ← blockAt fuel .thenBlock condition.next
    match t.ending with
    | some (.otherwiseIf _) =>
      let line ← lineAt lines t.next
      let nested ← conditionalAt fuel (some (line.drop 2)) t.next
      return ⟨.conditional (String.ofList condition.value) t.statements (some [nested.value]),
        nested.next⟩
    | some .otherwise =>
      let e ← blockAt fuel .elseBlock (t.next + 1)
      match e.ending with
      | none => .error (.refused (.missingFi header))
      | some _ =>
        return ⟨.conditional (String.ofList condition.value) t.statements (some e.statements),
          e.next + 1⟩
    | some _ =>
      return ⟨.conditional (String.ofList condition.value) t.statements none, t.next + 1⟩
    | none => .error (.refused (.missingFi header))

/-- A choice. -/
def choiceAt : Nat → Nat → Except Halt (ReadTo Statement)
  | 0, _ => .error .unfinished
  | fuel + 1, start => do
    let header ← lineAt lines start
    match caseSelector? header with
    | none => .error (.refused (.invalidCase header))
    | some selector =>
      let r ← armsAt fuel header (start + 1)
      return ⟨.choice (String.ofList selector) r.value, r.next⟩

/-- The arms of a choice. The end of an arm is passed over; the end of the choice is left to be read once
more. -/
def armsAt : Nat → Line → Nat → Except Halt (ReadTo (List (String × List Statement)))
  | 0, _, _ => .error .unfinished
  | fuel + 1, header, start => do
    match ← lineOrEnd lines start with
    | none => .error (.refused (.missingEsac header))
    | some line =>
      if line = "esac".toList then return ⟨[], start + 1⟩
      else
        match inlineArm? line with
        | some (p, text) =>
          let r ← armsAt fuel header (start + 1)
          return ⟨(String.ofList (unquote p), [.command (String.ofList text)]) :: r.value, r.next⟩
        | none =>
          match Text.dropEnd? [')'] line with
          | none =>
            let r ← armsAt fuel header (start + 1)
            return ⟨id r.value, r.next⟩
          | some p =>
            let b ← blockAt fuel .arm (start + 1)
            let r ← armsAt fuel header
              (match b.ending with
              | some (.armEnd _) => b.next + 1
              | _ => b.next)
            return ⟨(String.ofList (unquote p), b.statements) :: r.value, r.next⟩

/-- A loop over items. -/
def forLoopAt : Nat → Nat → Except Halt (ReadTo Statement)
  | 0, _ => .error .unfinished
  | fuel + 1, start => do
    let header ← lineAt lines start
    match forHead? header with
    | none => .error (.refused (.invalidFor header))
    | some (name, items, inlineDo) =>
      let index ← loopBodyAt lines inlineDo "for" header start
      let b ← blockAt fuel .loopBody index
      loopTo header (fun next => .forLoop (String.ofList name) (String.ofList items)
        (sourceOf ((lines.drop start).take (next - start)))) b

/-- A loop under a condition. -/
def whileLoopAt : Nat → Nat → Except Halt (ReadTo Statement)
  | 0, _ => .error .unfinished
  | fuel + 1, start => do
    let header ← lineAt lines start
    match whileHead? header with
    | none => .error (.refused (.invalidWhile header))
    | some (condition, inlineDo) =>
      let index ← loopBodyAt lines inlineDo "while" header start
      let b ← blockAt fuel .loopBody index
      loopTo header (fun _ => .whileLoop (String.ofList condition)) b

end

end Readers

/-! ## 2. Looking at lines -/

theorem ok_bind {ε α β : Type} (a : α) (f : α → Except ε β) : (Except.ok a >>= f) = f a := rfl

variable {lines : List Line} {start index : Nat} {line header : Line}

theorem lineAt_of_some (h : lines[index]? = some line) : lineAt lines index = .ok line := by
  unfold lineAt
  rw [h]

/-- Up to the end one may look. -/
theorem lineOrEnd_of_le (h : index ≤ lines.length) : lineOrEnd lines index = .ok lines[index]? := by
  unfold lineOrEnd
  by_cases hend : index = lines.length
  · rw [if_pos hend, List.getElem?_eq_none (Nat.le_of_eq hend.symm)]
  · have hlt : index < lines.length := Nat.lt_of_le_of_ne h hend
    rw [if_neg hend, lineAt_of_some (List.getElem?_eq_getElem hlt), List.getElem?_eq_getElem hlt]
    rfl

theorem lt_of_line (h : lines[index]? = some line) : index < lines.length :=
  (List.getElem?_eq_some_iff.mp h).1

theorem drop_of_line (h : lines[index]? = some line) :
    lines.drop index = line :: lines.drop (index + 1) := by
  obtain ⟨hlt, rfl⟩ := List.getElem?_eq_some_iff.mp h
  exact List.drop_eq_getElem_cons hlt

theorem eq_end_of_none (h : index ≤ lines.length) (hnone : lines[index]? = none) :
    index = lines.length :=
  Nat.le_antisymm h (List.getElem?_eq_none_iff.mp hnone)

theorem drop_of_none (h : lines[index]? = none) : lines.drop index = [] :=
  List.drop_eq_nil_of_le (List.getElem?_eq_none_iff.mp h)

/-- The first line of a conditional is there to be looked at. -/
theorem exists_headerAt (h : start < lines.length) (given : Option Line) :
    ∃ header, headerAt lines start given = .ok header := by
  have hline := lineAt_of_some (List.getElem?_eq_getElem h)
  match given with
  | some (c :: text) => exact ⟨_, rfl⟩
  | some [] => exact ⟨_, hline⟩
  | none => exact ⟨_, hline⟩

/-- The line that goes on with another condition makes a first line, which is not empty. -/
theorem headerAt_of_elif
    (h : line = "elif".toList ∨ Text.startsWith "elif ".toList line = true) :
    headerAt lines start (some (line.drop 2)) = .ok (line.drop 2) := by
  rcases h with rfl | h
  · rfl
  · obtain ⟨tail, rfl⟩ := Text.startsWith_iff.mp h
    rfl

/-- The text between two positions is that of the lines there. -/
theorem sourceBetween_drop (h : start ≤ index) (hle : index ≤ lines.length) :
    sourceBetween (lines.drop start) (lines.drop index) =
      sourceOf ((lines.drop start).take (index - start)) := by
  have hlength : (lines.drop start).length - (lines.drop index).length = index - start := by
    rw [List.length_drop, List.length_drop]
    omega
  unfold sourceBetween sourceOf
  rw [hlength]

/-- The `then` of a conditional is found by position where it stands. -/
theorem thenAt_cases (header : Line) (hlt : start < lines.length) :
    thenBlock? header (lines.drop (start + 1)) = none ∧
        thenAt lines header start = .error (.refused (.malformedIf header)) ∨
      ∃ condition next hle, thenBlock? header (lines.drop (start + 1)) =
          some (condition, ⟨lines.drop next, hle⟩) ∧
        thenAt lines header start = .ok ⟨condition, next⟩ ∧ start < next ∧ next ≤ lines.length := by
  unfold thenBlock? thenAt
  cases inlineCondition? header with
  | some condition =>
    exact .inr ⟨condition, start + 1, Nat.le_refl _, rfl, rfl, Nat.lt_succ_self _, hlt⟩
  | none =>
    cases hl : lines[start + 1]? with
    | none =>
      rw [drop_of_none hl]
      exact .inl ⟨rfl, rfl⟩
    | some line =>
      rw [drop_of_line hl]
      by_cases hthen : line = "then".toList
      · dsimp only
        rw [if_pos hthen, if_pos (congrArg some hthen)]
        exact .inr ⟨_, start + 2, Nat.le_succ _, rfl, rfl, Nat.lt_add_of_pos_right (by decide),
          lt_of_line hl⟩
      · dsimp only
        rw [if_neg hthen, if_neg fun h => hthen (Option.some.inj h)]
        exact .inl ⟨rfl, rfl⟩

/-- The body of a loop is found by position where it stands. -/
theorem loopBodyAt_cases (inlineDo : Bool) (keyword : String) (header : Line)
    (hlt : start < lines.length) :
    loopBody? inlineDo (lines.drop (start + 1)) = none ∧
        loopBodyAt lines inlineDo keyword header start =
          .error (.refused (.missingDo keyword header)) ∨
      ∃ next hle, loopBody? inlineDo (lines.drop (start + 1)) = some ⟨lines.drop next, hle⟩ ∧
        loopBodyAt lines inlineDo keyword header start = .ok next ∧ start < next ∧
        next ≤ lines.length := by
  unfold loopBody? loopBodyAt
  cases inlineDo with
  | true => exact .inr ⟨start + 1, Nat.le_refl _, rfl, rfl, Nat.lt_succ_self _, hlt⟩
  | false =>
    cases hl : lines[start + 1]? with
    | none =>
      rw [drop_of_none hl]
      exact .inl ⟨rfl, rfl⟩
    | some line =>
      rw [drop_of_line hl, if_neg Bool.false_ne_true, if_neg Bool.false_ne_true]
      by_cases hdo : line = "do".toList
      · dsimp only
        rw [if_pos hdo, if_pos (congrArg some hdo)]
        exact .inr ⟨start + 2, Nat.le_succ _, rfl, rfl, Nat.lt_add_of_pos_right (by decide),
          lt_of_line hl⟩
      · dsimp only
        rw [if_neg hdo, if_neg fun h => hdo (Option.some.inj h)]
        exact .inl ⟨rfl, rfl⟩

/-! ## 3. What a reader by position answers -/

/-- **What a reader by position answers**, beside the reader of the lines from its position on: the same value
or the same error, with the position of what is left, which is behind its own. With too little fuel it may
answer nothing. -/
inductive Answers (lines : List Line) (start need fuel : Nat) {α : Type} {ls : List Line} :
    Except ReadError (Reading α ls) → Except Halt (ReadTo α) → Prop
  | read {r : Reading α ls} {next : Nat} (hlt : start < next) (hle : next ≤ lines.length)
      (hrest : r.rest = lines.drop next) :
      Answers lines start need fuel (.ok r) (.ok ⟨r.value, next⟩)
  | refused (e : ReadError) : Answers lines start need fuel (.error e) (.error (.refused e))
  | unfinished (x : Except ReadError (Reading α ls)) (h : fuel ≤ need) :
      Answers lines start need fuel x (.error .unfinished)

/-- **What a reader of blocks answers by position**: the same block or the same error, with the position of the
line that ended it, or else of the end. -/
inductive BlockAnswers (lines : List Line) (kind : BlockKind) (start need fuel : Nat)
    {ls : List Line} : Except ReadError (Block ls) → Except Halt BlockTo → Prop
  | whole {b : Block ls} (he : b.ending = none) (hrest : b.rest = []) :
      BlockAnswers lines kind start need fuel (.ok b) (.ok ⟨b.statements, lines.length, none⟩)
  | ended {b : Block ls} {next : Nat} {line : Line} {ending : Ending} (hle : start ≤ next)
      (hline : lines[next]? = some line) (hend : endingOf? kind line = some ending)
      (he : b.ending = some ending) (hrest : b.rest = lines.drop (next + 1)) :
      BlockAnswers lines kind start need fuel (.ok b) (.ok ⟨b.statements, next, some ending⟩)
  | refused (e : ReadError) :
      BlockAnswers lines kind start need fuel (.error e) (.error (.refused e))
  | unfinished (x : Except ReadError (Block ls)) (h : fuel ≤ need) :
      BlockAnswers lines kind start need fuel x (.error .unfinished)

section Steps

variable {α β : Type} {ls all : List Line} {start' need need' fuel : Nat}

theorem Answers.mono {x : Except ReadError (Reading α ls)} {y : Except Halt (ReadTo α)}
    (h : Answers lines start' need' fuel x y) (hs : start ≤ start') (hn : need' < need) :
    Answers lines start need (fuel + 1) x y := by
  cases h with
  | read hlt hle hrest => exact .read (Nat.lt_of_le_of_lt hs hlt) hle hrest
  | refused e => exact .refused e
  | unfinished x h => exact .unfinished x (by omega)

theorem Answers.map {x : Except ReadError (Reading α ls)} {y : Except Halt (ReadTo α)}
    (h : Answers lines start' need' fuel x y) (hs : start ≤ start') (hn : need' < need)
    (f : α → β) (hall : ls.length ≤ all.length) :
    Answers lines start need (fuel + 1) (do let r ← x; return r.after f all hall)
      (do let r ← y; return ⟨f r.value, r.next⟩) := by
  cases h with
  | read hlt hle hrest => exact .read (Nat.lt_of_le_of_lt hs hlt) hle hrest
  | refused e => exact .refused e
  | unfinished x h => exact .unfinished _ (by omega)

theorem BlockAnswers.after {kind : BlockKind} {x : Except ReadError (Block ls)}
    {y : Except Halt BlockTo} (h : BlockAnswers lines kind start' need' fuel x y)
    (hs : start ≤ start') (hn : need' < need) (s : List Statement)
    (hall : ls.length ≤ all.length) :
    BlockAnswers lines kind start need (fuel + 1) (do let b ← x; return b.after s all hall)
      (do let b ← y; return b.after s) := by
  cases h with
  | whole he hrest => exact .whole he hrest
  | ended hle hline hend he hrest => exact .ended (Nat.le_trans hs hle) hline hend he hrest
  | refused e => exact .refused e
  | unfinished x h => exact .unfinished _ (by omega)

/-- Behind a reading a block is read on. -/
theorem Answers.bind_block {kind : BlockKind} {x : Except ReadError (Reading α ls)}
    {y : Except Halt (ReadTo α)} {f : Reading α ls → Except ReadError (Block all)}
    {g : ReadTo α → Except Halt BlockTo} (h : Answers lines start' need' fuel x y)
    (hn : need' < need)
    (hf : ∀ (r : Reading α ls) (next : Nat), start' < next → next ≤ lines.length →
      r.rest = lines.drop next →
      BlockAnswers lines kind start need (fuel + 1) (f r) (g ⟨r.value, next⟩)) :
    BlockAnswers lines kind start need (fuel + 1) (x >>= f) (y >>= g) := by
  cases h with
  | read hlt hle hrest => exact hf _ _ hlt hle hrest
  | refused e => exact .refused e
  | unfinished x h => exact .unfinished _ (by omega)

/-- Behind a block it is read on as the block ended. -/
theorem BlockAnswers.bind {kind : BlockKind} {x : Except ReadError (Block ls)}
    {y : Except Halt BlockTo} {f : Block ls → Except ReadError (Reading α all)}
    {g : BlockTo → Except Halt (ReadTo α)} (h : BlockAnswers lines kind start' need' fuel x y)
    (hn : need' < need)
    (hwhole : ∀ b : Block ls, b.ending = none → b.rest = [] →
      Answers lines start need (fuel + 1) (f b) (g ⟨b.statements, lines.length, none⟩))
    (hended : ∀ (b : Block ls) (next : Nat) (line : Line) (ending : Ending), start' ≤ next →
      lines[next]? = some line → EndsBlock kind line ending → b.ending = some ending →
      b.rest = lines.drop (next + 1) →
      Answers lines start need (fuel + 1) (f b) (g ⟨b.statements, next, some ending⟩)) :
    Answers lines start need (fuel + 1) (x >>= f) (y >>= g) := by
  cases h with
  | whole he hrest => exact hwhole _ he hrest
  | ended hle hline hend he hrest =>
    exact hended _ _ _ _ hle hline (endsBlock_of_endingOf? hend) he hrest
  | refused e => exact .refused e
  | unfinished x h => exact .unfinished _ (by omega)

end Steps

/-! ## 4. The readers of the other compounds -/

/-- The reading with another value. -/
def Reading.map {α β : Type} {lines : List Line} (f : α → β) (r : Reading α lines) :
    Reading β lines :=
  ⟨f r.value, r.rest, r.rest_le⟩

theorem Block.rest_le_of_le {all : List Line} (b : Block lines)
    (h : lines.length ≤ all.length) : b.rest.length ≤ all.length :=
  Nat.le_trans b.rest_le h

/-- A choice with the given first line. -/
def readChoice (header : Line) (rest : List Line) : Except ReadError (Reading Statement rest) :=
  match caseSelector? header with
  | none => .error (.invalidCase header)
  | some selector => do
    let r ← readArms header rest
    return r.map (.choice (String.ofList selector))

/-- A loop behind its first line, made of its body and of what is left. -/
def readLoop (inlineDo : Bool) (keyword : String) (header : Line)
    (make : List Line → List Statement → Statement) (rest : List Line) :
    Except ReadError (Reading Statement rest) :=
  match loopBody? inlineDo rest with
  | none => .error (.missingDo keyword header)
  | some ⟨body, h⟩ => do
    let b ← readBlock .loopBody body
    match b.ending with
    | none => .error (.missingDone header)
    | some _ => return ⟨make b.rest b.statements, b.rest, b.rest_le_of_le h⟩

/-- A loop over items with the given first line. -/
def readForLoop (header : Line) (rest : List Line) : Except ReadError (Reading Statement rest) :=
  match forHead? header with
  | none => .error (.invalidFor header)
  | some (name, items, inlineDo) =>
    readLoop inlineDo "for" header (fun left => .forLoop (String.ofList name) (String.ofList items)
      (sourceBetween (header :: rest) left)) rest

/-- A loop under a condition with the given first line. -/
def readWhileLoop (header : Line) (rest : List Line) :
    Except ReadError (Reading Statement rest) :=
  match whileHead? header with
  | none => .error (.invalidWhile header)
  | some (condition, inlineDo) =>
    readLoop inlineDo "while" header (fun _ => .whileLoop (String.ofList condition)) rest

theorem readStatement_eq_of_opener (line : Line) (rest : List Line) :
    readStatement line rest = match openerOf line with
      | .oneLine => .ok ⟨.command (String.ofList line), rest, Nat.le_refl _⟩
      | .conditional => readConditional line rest
      | .choice => readChoice line rest
      | .forLoop => readForLoop line rest
      | .whileLoop => readWhileLoop line rest
      | .simple => .ok ⟨simpleStatement line, rest, Nat.le_refl _⟩ :=
  readStatement_eq line rest

/-! ## 5. The readers by position read what is there -/

/-- **What holds of the readers by position with some fuel**: each answers beside the reader of the lines from
its position on, and needs at most three calls for each line. A block calls a statement and this a compound at
the same line, so these need fewer; whatever a compound calls starts at a later line. -/
structure ReadsOn (lines : List Line) (fuel : Nat) : Prop where
  block : ∀ kind start, start ≤ lines.length →
    BlockAnswers lines kind start (3 * (lines.length - start)) fuel
      (readBlock kind (lines.drop start)) (blockAt lines fuel kind start)
  statement : ∀ start line, lines[start]? = some line →
    Answers lines start (3 * (lines.length - start) - 1) fuel
      (readStatement line (lines.drop (start + 1))) (statementAt lines fuel start)
  conditional : ∀ start given header, start < lines.length →
    headerAt lines start given = .ok header →
    Answers lines start (3 * (lines.length - start) - 2) fuel
      (readConditional header (lines.drop (start + 1))) (conditionalAt lines fuel given start)
  choice : ∀ start line, lines[start]? = some line →
    Answers lines start (3 * (lines.length - start) - 2) fuel
      (readChoice line (lines.drop (start + 1))) (choiceAt lines fuel start)
  arms : ∀ start header, start ≤ lines.length →
    Answers lines start (3 * (lines.length - start)) fuel
      (readArms header (lines.drop start)) (armsAt lines fuel header start)
  forLoop : ∀ start line, lines[start]? = some line →
    Answers lines start (3 * (lines.length - start) - 2) fuel
      (readForLoop line (lines.drop (start + 1))) (forLoopAt lines fuel start)
  whileLoop : ∀ start line, lines[start]? = some line →
    Answers lines start (3 * (lines.length - start) - 2) fuel
      (readWhileLoop line (lines.drop (start + 1))) (whileLoopAt lines fuel start)

theorem readsOn_zero (lines : List Line) : ReadsOn lines 0 where
  block _ _ _ := by rw [blockAt]; exact .unfinished _ (Nat.zero_le _)
  statement _ _ _ := by rw [statementAt]; exact .unfinished _ (Nat.zero_le _)
  conditional _ _ _ _ _ := by rw [conditionalAt]; exact .unfinished _ (Nat.zero_le _)
  choice _ _ _ := by rw [choiceAt]; exact .unfinished _ (Nat.zero_le _)
  arms _ _ _ := by rw [armsAt]; exact .unfinished _ (Nat.zero_le _)
  forLoop _ _ _ := by rw [forLoopAt]; exact .unfinished _ (Nat.zero_le _)
  whileLoop _ _ _ := by rw [whileLoopAt]; exact .unfinished _ (Nat.zero_le _)

namespace ReadsOn

variable {fuel : Nat}

theorem block_step (ih : ReadsOn lines fuel) (kind : BlockKind) (hstart : start ≤ lines.length) :
    BlockAnswers lines kind start (3 * (lines.length - start)) (fuel + 1)
      (readBlock kind (lines.drop start)) (blockAt lines (fuel + 1) kind start) := by
  rw [blockAt, lineOrEnd_of_le hstart, ok_bind]
  cases hl : lines[start]? with
  | none =>
    obtain rfl := eq_end_of_none hstart hl
    rw [List.drop_length, readBlock]
    exact .whole rfl rfl
  | some line =>
    have hlt := lt_of_line hl
    rw [drop_of_line hl, readBlock]
    dsimp only
    cases he : endingOf? kind line with
    | some ending => exact .ended (Nat.le_refl _) hl he rfl rfl
    | none =>
      dsimp only
      by_cases hs : isSkipped line = true
      · rw [if_pos hs, if_pos hs]
        exact (ih.block kind (start + 1) hlt).after (Nat.le_succ _) (by omega) [] _
      · rw [if_neg hs, if_neg hs]
        refine (ih.statement start line hl).bind_block (by omega) ?_
        rintro ⟨value, rest, hle⟩ next hnext hend rfl
        exact (ih.block kind next hend).after (by omega) (by omega) [value] _

theorem statement_step (ih : ReadsOn lines fuel) (hl : lines[start]? = some line) :
    Answers lines start (3 * (lines.length - start) - 1) (fuel + 1)
      (readStatement line (lines.drop (start + 1))) (statementAt lines (fuel + 1) start) := by
  have hlt := lt_of_line hl
  rw [statementAt, lineAt_of_some hl, ok_bind, readStatement_eq_of_opener]
  cases openerOf line with
  | oneLine => exact .read (Nat.lt_succ_self _) hlt rfl
  | conditional =>
    exact (ih.conditional start none line hlt (lineAt_of_some hl)).mono (Nat.le_refl _) (by omega)
  | choice => exact (ih.choice start line hl).mono (Nat.le_refl _) (by omega)
  | forLoop => exact (ih.forLoop start line hl).mono (Nat.le_refl _) (by omega)
  | whileLoop => exact (ih.whileLoop start line hl).mono (Nat.le_refl _) (by omega)
  | simple => exact .read (Nat.lt_succ_self _) hlt rfl

theorem conditional_step (ih : ReadsOn lines fuel) {given : Option Line}
    (hlt : start < lines.length) (hheader : headerAt lines start given = .ok header) :
    Answers lines start (3 * (lines.length - start) - 2) (fuel + 1)
      (readConditional header (lines.drop (start + 1)))
      (conditionalAt lines (fuel + 1) given start) := by
  rw [conditionalAt, hheader, ok_bind, readConditional]
  rcases thenAt_cases header hlt with ⟨hthen, hat⟩ | ⟨condition, index, hlength, hthen, hat, hindex,
    hend⟩
  · rw [hthen, hat]
    exact .refused _
  rw [hthen, hat, ok_bind]
  refine (ih.block .thenBlock index hend).bind (by omega) ?_ ?_
  · rintro ⟨statements, _, rest, _, _⟩ rfl -
    exact .refused _
  · rintro ⟨statements, _, rest, _, _⟩ next line ending hnext hline hends rfl rfl
    have hlt' := lt_of_line hline
    cases hends with
    | fi => exact .read (Nat.lt_succ_of_lt (Nat.lt_of_lt_of_le hindex hnext)) hlt' rfl
    | otherwise =>
      refine (ih.block .elseBlock (next + 1) hlt').bind (by omega) ?_ ?_
      · rintro ⟨others, _, rest, _, _⟩ rfl -
        exact .refused _
      · rintro ⟨others, _, rest, _, _⟩ last _ ending hlast hline' - rfl rfl
        have hmore : start < last := by omega
        exact .read (Nat.lt_succ_of_lt hmore) (lt_of_line hline') rfl
    | elif helif =>
      show Answers _ _ _ _ _ (lineAt lines next >>= _)
      rw [lineAt_of_some hline, ok_bind]
      exact (ih.conditional next _ _ hlt' (headerAt_of_elif helif)).map (by omega) (by omega) _ _

theorem choice_step (ih : ReadsOn lines fuel) (hl : lines[start]? = some line) :
    Answers lines start (3 * (lines.length - start) - 2) (fuel + 1)
      (readChoice line (lines.drop (start + 1))) (choiceAt lines (fuel + 1) start) := by
  have hlt := lt_of_line hl
  rw [choiceAt, lineAt_of_some hl, ok_bind, readChoice]
  cases caseSelector? line with
  | none => exact .refused _
  | some selector =>
    exact (ih.arms (start + 1) line hlt).map (Nat.le_succ _) (by omega) _ (Nat.le_refl _)

theorem arms_step (ih : ReadsOn lines fuel) (hstart : start ≤ lines.length) :
    Answers lines start (3 * (lines.length - start)) (fuel + 1)
      (readArms header (lines.drop start)) (armsAt lines (fuel + 1) header start) := by
  rw [armsAt, lineOrEnd_of_le hstart, ok_bind]
  cases hl : lines[start]? with
  | none =>
    rw [drop_of_none hl, readArms]
    exact .refused _
  | some line =>
    have hlt := lt_of_line hl
    rw [drop_of_line hl, readArms]
    dsimp only
    by_cases hesac : line = "esac".toList
    · rw [if_pos hesac, if_pos hesac]
      exact .read (Nat.lt_succ_self _) hlt rfl
    rw [if_neg hesac, if_neg hesac]
    have harms := ih.arms (start + 1) header hlt
    cases inlineArm? line with
    | some arm => exact harms.map (Nat.le_succ _) (by omega) _ _
    | none =>
      cases Text.dropEnd? [')'] line with
      | none => exact harms.map (Nat.le_succ _) (by omega) _ _
      | some p =>
        refine (ih.block .arm (start + 1) hlt).bind (by omega) ?_ ?_
        · rintro ⟨statements, _, rest, _, _⟩ rfl -
          have h := ih.arms lines.length header (Nat.le_refl _)
          rw [List.drop_length, readArms] at h
          exact h.map hstart (by omega) ((String.ofList (unquote p), statements) :: ·)
            (Nat.zero_le (line :: lines.drop (start + 1)).length)
        · rintro ⟨statements, _, rest, hle, _⟩ next last ending hnext hlast hends rfl rfl
          have hend := lt_of_line hlast
          cases hends with
          | armEnd =>
            exact (ih.arms (next + 1) header hend).map (by omega) (by omega)
              ((String.ofList (unquote p), statements) :: ·) _
          | esac =>
            -- the line that ends the choice is read once more
            have h := ih.arms next header (Nat.le_of_lt hend)
            rw [drop_of_line hlast, readArms, if_pos rfl] at h
            have hall : ("esac".toList :: lines.drop (next + 1)).length ≤
                (line :: lines.drop (start + 1)).length := Nat.succ_le_succ hle
            exact h.map (by omega) (by omega) ((String.ofList (unquote p), statements) :: ·) hall

/-- A loop is read on behind its first line, whatever is made of it. -/
theorem loop_step (ih : ReadsOn lines fuel) (hlt : start < lines.length) (inlineDo : Bool)
    (keyword : String) (header : Line) {made : List Line → List Statement → Statement}
    {make : Nat → List Statement → Statement}
    (hmade : ∀ next, start ≤ next → next ≤ lines.length → made (lines.drop next) = make next) :
    Answers lines start (3 * (lines.length - start) - 2) (fuel + 1)
      (readLoop inlineDo keyword header made (lines.drop (start + 1)))
      (do
        let index ← loopBodyAt lines inlineDo keyword header start
        let b ← blockAt lines fuel .loopBody index
        loopTo header make b) := by
  unfold readLoop
  rcases loopBodyAt_cases inlineDo keyword header hlt with ⟨hdo, hat⟩ | ⟨index, hlength, hdo, hat,
    hindex, hend⟩
  · rw [hdo, hat]
    exact .refused _
  rw [hdo, hat, ok_bind]
  refine (ih.block .loopBody index hend).bind (by omega) ?_ ?_
  · rintro ⟨statements, _, rest, _, _⟩ rfl -
    exact .refused _
  · rintro ⟨statements, _, rest, _, _⟩ next last ending hnext hlast - rfl rfl
    have hmore : start < next + 1 := Nat.lt_succ_of_lt (Nat.lt_of_lt_of_le hindex hnext)
    dsimp only [loopTo]
    rw [← hmade (next + 1) (Nat.le_of_lt hmore) (lt_of_line hlast)]
    exact .read hmore (lt_of_line hlast) rfl

theorem forLoop_step (ih : ReadsOn lines fuel) (hl : lines[start]? = some line) :
    Answers lines start (3 * (lines.length - start) - 2) (fuel + 1)
      (readForLoop line (lines.drop (start + 1))) (forLoopAt lines (fuel + 1) start) := by
  rw [forLoopAt, lineAt_of_some hl, ok_bind, readForLoop]
  rcases forHead? line with - | ⟨name, items, inlineDo⟩
  · exact .refused _
  refine ih.loop_step (lt_of_line hl) inlineDo "for" line fun next hnext hle => ?_
  rw [← drop_of_line hl, sourceBetween_drop hnext hle]

theorem whileLoop_step (ih : ReadsOn lines fuel) (hl : lines[start]? = some line) :
    Answers lines start (3 * (lines.length - start) - 2) (fuel + 1)
      (readWhileLoop line (lines.drop (start + 1))) (whileLoopAt lines (fuel + 1) start) := by
  rw [whileLoopAt, lineAt_of_some hl, ok_bind, readWhileLoop]
  rcases whileHead? line with - | ⟨condition, inlineDo⟩
  · exact .refused _
  exact ih.loop_step (lt_of_line hl) inlineDo "while" line fun _ _ _ => rfl

end ReadsOn

/-- **The readers by position read what is read off the lines from there on**, whatever their fuel. -/
theorem readsOn (lines : List Line) (fuel : Nat) : ReadsOn lines fuel := by
  -- each call hands on one fuel less, so all readers are settled together
  induction fuel with
  | zero => exact readsOn_zero lines
  | succ fuel ih =>
    exact {
      block := fun kind _ => ih.block_step kind
      statement := fun _ _ => ih.statement_step
      conditional := fun _ _ _ => ih.conditional_step
      choice := fun _ _ => ih.choice_step
      arms := fun _ _ => ih.arms_step
      forLoop := fun _ _ => ih.forLoop_step
      whileLoop := fun _ _ => ih.whileLoop_step }

/-! ## 6. Progress -/

/-- **A reader of statements moves on**: it answers a position behind its own, which is no further than the end;
no line is looked at that is not there; and three calls for each line are fuel enough. -/
structure MovesOn (lines : List Line) (start fuel : Nat) {α : Type}
    (x : Except Halt (ReadTo α)) : Prop where
  onward : ∀ r, x = .ok r → start < r.next ∧ r.next ≤ lines.length
  inRange : x ≠ .error .outOfRange
  finishes : 3 * (lines.length - start) < fuel → x ≠ .error .unfinished

/-- **A reader of blocks ends somewhere**: not in front of where it starts; at the end of the lines exactly if no
line ended the block, and else at the line that ended it. -/
structure EndsAt (lines : List Line) (kind : BlockKind) (start fuel : Nat)
    (x : Except Halt BlockTo) : Prop where
  onward : ∀ b, x = .ok b → start ≤ b.next ∧ b.next ≤ lines.length
  whole : ∀ b, x = .ok b → (b.next = lines.length ↔ b.ending = none)
  ended : ∀ b ending, x = .ok b → b.ending = some ending →
    ∃ line, lines[b.next]? = some line ∧ endingOf? kind line = some ending
  inRange : x ≠ .error .outOfRange
  finishes : 3 * (lines.length - start) < fuel → x ≠ .error .unfinished

theorem Answers.movesOn {need fuel : Nat} {α : Type} {ls : List Line}
    {x : Except ReadError (Reading α ls)} {y : Except Halt (ReadTo α)}
    (h : Answers lines start need fuel x y) (hneed : need ≤ 3 * (lines.length - start)) :
    MovesOn lines start fuel y := by
  cases h with
  | read hlt hle =>
    exact ⟨fun _ h => by cases h; exact ⟨hlt, hle⟩, nofun, nofun⟩
  | refused e => exact ⟨nofun, nofun, nofun⟩
  | unfinished _ h => exact ⟨nofun, nofun, fun hfuel => by omega⟩

theorem BlockAnswers.endsAt {kind : BlockKind} {fuel : Nat} {ls : List Line}
    {x : Except ReadError (Block ls)} {y : Except Halt BlockTo}
    (h : BlockAnswers lines kind start (3 * (lines.length - start)) fuel x y)
    (hstart : start ≤ lines.length) : EndsAt lines kind start fuel y := by
  cases h with
  | whole =>
    exact {
      onward := fun _ h => by cases h; exact ⟨hstart, Nat.le_refl _⟩
      whole := fun _ h => by cases h; exact iff_of_true rfl rfl
      ended := fun _ _ h => by cases h; nofun
      inRange := nofun
      finishes := nofun }
  | ended hle hline hend =>
    have hlt := lt_of_line hline
    exact {
      onward := fun _ h => by cases h; exact ⟨hle, Nat.le_of_lt hlt⟩
      whole := fun _ h => by cases h; exact iff_of_false (Nat.ne_of_lt hlt) nofun
      ended := fun _ _ h => by cases h; rintro ⟨⟩; exact ⟨_, hline, hend⟩
      inRange := nofun
      finishes := nofun }
  | refused e => exact ⟨nofun, nofun, nofun, nofun, nofun⟩
  | unfinished _ h => exact ⟨nofun, nofun, nofun, nofun, fun hfuel => by omega⟩

/-- **What holds of the readers on the lines of a body.**

* `block`: every block ends somewhere;
* `statement`, `conditional`, `choice`, `forLoop`, `whileLoop`: every statement moves on, and so does every
  compound, a conditional also with another first line than the one there;
* `parsed`: the block of the whole body is read from the first line to the end, or refused, just as the body is;
* `reads`: each reader by position answers what is read off the lines from its position on. -/
structure Progress (body : String) : Prop where
  block : ∀ fuel kind start, start ≤ (linesOfBody body).length →
    EndsAt (linesOfBody body) kind start fuel (blockAt (linesOfBody body) fuel kind start)
  statement : ∀ fuel start, start < (linesOfBody body).length →
    MovesOn (linesOfBody body) start fuel (statementAt (linesOfBody body) fuel start)
  conditional : ∀ fuel given start, start < (linesOfBody body).length →
    MovesOn (linesOfBody body) start fuel (conditionalAt (linesOfBody body) fuel given start)
  choice : ∀ fuel start, start < (linesOfBody body).length →
    MovesOn (linesOfBody body) start fuel (choiceAt (linesOfBody body) fuel start)
  forLoop : ∀ fuel start, start < (linesOfBody body).length →
    MovesOn (linesOfBody body) start fuel (forLoopAt (linesOfBody body) fuel start)
  whileLoop : ∀ fuel start, start < (linesOfBody body).length →
    MovesOn (linesOfBody body) start fuel (whileLoopAt (linesOfBody body) fuel start)
  parsed : ∀ fuel, 3 * (linesOfBody body).length < fuel →
    blockAt (linesOfBody body) fuel .body 0 =
      match Statement.ofText body with
      | .ok statements => .ok ⟨statements, (linesOfBody body).length, none⟩
      | .error e => .error (.refused e)
  reads : ∀ fuel, ReadsOn (linesOfBody body) fuel

/-- With fuel enough, a body is read by position as it is read. -/
theorem blockAt_body (body : String) {fuel : Nat} (h : 3 * (linesOfBody body).length < fuel) :
    blockAt (linesOfBody body) fuel .body 0 =
      match Statement.ofText body with
      | .ok statements => .ok ⟨statements, (linesOfBody body).length, none⟩
      | .error e => .error (.refused e) := by
  have hb := (readsOn (linesOfBody body) fuel).block .body 0 (Nat.zero_le _)
  rw [List.drop_zero] at hb
  unfold Statement.ofText
  generalize readBlock .body (linesOfBody body) = x at hb ⊢
  generalize blockAt (linesOfBody body) fuel .body 0 = y at hb ⊢
  cases hb with
  | whole he hrest => rfl
  | ended hle hline hend => cases hend
  | refused e => rfl
  | unfinished x hfuel => omega

/-- **The readers of a body make progress**, whatever its text: no call stands still, goes astray or goes on for
ever, and together they read the body or refuse it. -/
theorem progress_of_text (body : String) : Progress body where
  block fuel kind start h := ((readsOn _ fuel).block kind start h).endsAt h
  statement fuel start h :=
    ((readsOn _ fuel).statement start _ (List.getElem?_eq_getElem h)).movesOn (Nat.sub_le ..)
  conditional fuel given start h := by
    obtain ⟨header, hheader⟩ := exists_headerAt h given
    exact ((readsOn _ fuel).conditional start given header h hheader).movesOn (Nat.sub_le ..)
  choice fuel start h :=
    ((readsOn _ fuel).choice start _ (List.getElem?_eq_getElem h)).movesOn (Nat.sub_le ..)
  forLoop fuel start h :=
    ((readsOn _ fuel).forLoop start _ (List.getElem?_eq_getElem h)).movesOn (Nat.sub_le ..)
  whileLoop fuel start h :=
    ((readsOn _ fuel).whileLoop start _ (List.getElem?_eq_getElem h)).movesOn (Nat.sub_le ..)
  parsed _ := blockAt_body body
  reads := readsOn _

end Runbook.ShellFunction
