import Runbook.Proofs.Run.Action
import Runbook.Proofs.StepTree

/-!
# The turns of a run

A run of steps is a sequence of turns: it comes to a step and asks about it, starts a command, judges
a condition, acts once a block has run, or gives up a loop. This file lists the turns of every run:

* `Occurrence`: a step as a run comes to it, in the state of the run at that moment;
* `Deed`, `Engine.perform`: what a run does at a step, and the action on its state that this is;
* `Turn`: a deed at an occurrence, with the occurrences around it and the state before it;
* `Course`: an action on a run's state that lists its turns as it goes;
* `Engine.stepCourse`, `blockCourse`: the course of a step and of a block;
* `stepCourse_run`, `blockCourse_run`: a course without its turns is the run itself.
-/

namespace Runbook

/-! ## 1. Occurrences and turns -/

/-- A step as a run comes to it: below the path of its block, on the top level or not, in a state of
the run. Each iteration of a loop comes to new occurrences of the steps of its body. -/
structure Occurrence (σ : Type) where
  above : String
  top : Bool
  step : Step
  state : RunState σ

namespace Occurrence

variable {σ : Type}

/-- The path of the step. -/
def path (o : Occurrence σ) : String := stepPath o.above o.step.name

/-- The head of the step, resolved for the values that hold when the run comes to it. -/
def head (o : Occurrence σ) : StepHead := o.step.head.resolve o.state.context

end Occurrence

/-- What a run does at a step: it comes to it and asks about it if need be, starts its command, judges
its condition, acts after its block, stops at the cap of a loop, or stops for lack of fuel. -/
inductive Deed where
  | reach
  | start
  | judge (c : Condition)
  | act (a : Option Action)
  | limit (cap : Int)
  | tire
deriving DecidableEq, Repr

/-- What a deed at an occurrence does to the state of a run. -/
def Engine.perform {σ : Type} (e : Engine σ) (o : Occurrence σ) : Deed → Run σ Unit
  | .reach => e.gate o.step.kind o.head o.path o.top
  | .start => e.runLeaf (o.step.kind == .auth) o.head o.path o.top
  | .judge c => do
    let _ ← e.evaluate c
    return ()
  | .act a => Engine.act a
  | .limit cap => do
    Run.record false ⟨o.path, .error (.loopLimit o.step.name cap)⟩
    Run.stop (.halted o.path 1)
  | .tire => Run.stop .unfinished

namespace Engine

variable {σ : Type}

theorem perform_reach (e : Engine σ) (o : Occurrence σ) :
    e.perform o .reach = e.gate o.step.kind o.head o.path o.top := rfl

theorem perform_start (e : Engine σ) (o : Occurrence σ) :
    e.perform o .start = e.runLeaf (o.step.kind == .auth) o.head o.path o.top := rfl

theorem perform_judge (e : Engine σ) (o : Occurrence σ) (c : Condition) :
    e.perform o (.judge c) = (e.evaluate c >>= fun _ => pure ()) := rfl

end Engine

/-- A deed in its place: the occurrence it belongs to, the occurrences around that one, innermost
first, and the state of the run before it. -/
structure Turn (σ : Type) where
  here : Occurrence σ
  around : List (Occurrence σ)
  deed : Deed
  before : RunState σ

/-! ## 2. Courses -/

/-- An action on the state of a run together with its turns. -/
def Course (σ α : Type) : Type :=
  RunState σ → List (Turn σ) × (Except Signal α × RunState σ)

namespace Course

variable {σ α β : Type}

/-- No turn at all. -/
def pure (a : α) : Course σ α := fun s => ([], (.ok a, s))

/-- One course after another; a signal skips the second. -/
def bind (m : Course σ α) (f : α → Course σ β) : Course σ β := fun s =>
  match m s with
  | (turns, (.ok a, s')) => (turns ++ (f a s').1, (f a s').2)
  | (turns, (.error signal, s')) => (turns, (.error signal, s'))

instance : Monad (Course σ) where
  pure := Course.pure
  bind := Course.bind

/-- A single turn. -/
def turn (o : Occurrence σ) (around : List (Occurrence σ)) (deed : Deed) (m : Run σ α) :
    Course σ α := fun s => ([⟨o, around, deed, s⟩], m s)

/-- The course of what is done at a step, from the state in which the run comes to it. -/
def visit (above : String) (top : Bool) (step : Step) (f : Occurrence σ → Course σ α) :
    Course σ α := fun s => f ⟨above, top, step, s⟩ s

/-- The turns of a course from a state. -/
def turns (c : Course σ α) (s : RunState σ) : List (Turn σ) := (c s).1

/-- A course without its turns. -/
def run (c : Course σ α) : Run σ α := fun s => (c s).2

/-- A course up to an early end by leaving a loop, with the answer whether it ended so. -/
def leftLoop (c : Course σ Unit) : Course σ Bool := fun s => (c.turns s, Run.leftLoop c.run s)

@[simp] theorem run_pure (a : α) : (Pure.pure a : Course σ α).run = (Pure.pure a : Run σ α) := rfl

@[simp] theorem run_bind (m : Course σ α) (f : α → Course σ β) :
    (m >>= f).run = m.run >>= fun a => (f a).run := by
  funext s
  show (Course.bind m f s).2 = Run.bind m.run (fun a => (f a).run) s
  unfold Course.bind Run.bind Course.run
  rcases m s with ⟨ts, r, s'⟩
  cases r <;> rfl

theorem turns_bind (m : Course σ α) (f : α → Course σ β) (s : RunState σ) :
    (m >>= f).turns s = m.turns s ++ match m.run s with
      | (.ok a, s') => (f a).turns s'
      | (.error _, _) => [] := by
  show (Course.bind m f s).1 = _
  unfold Course.bind Course.turns Course.run
  rcases m s with ⟨ts, r, s'⟩
  cases r <;> simp

@[simp] theorem run_leftLoop (c : Course σ Unit) : c.leftLoop.run = Run.leftLoop c.run := rfl

@[simp] theorem turns_leftLoop (c : Course σ Unit) (s : RunState σ) :
    c.leftLoop.turns s = c.turns s := rfl

theorem run_visit (above : String) (top : Bool) (step : Step) (f : Occurrence σ → Course σ α)
    (s : RunState σ) : (visit above top step f).run s = (f ⟨above, top, step, s⟩).run s := rfl

end Course

/-! ## 3. The courses of steps -/

namespace Engine

variable {σ : Type}

/-- A deed as the only turn of a course. -/
def deed (e : Engine σ) (o : Occurrence σ) (around : List (Occurrence σ)) (d : Deed) :
    Course σ Unit := .turn o around d (e.perform o d)

/-- The judging of a condition as the only turn of a course, with the outcome. -/
def judge (e : Engine σ) (o : Occurrence σ) (around : List (Occurrence σ)) (c : Condition) :
    Course σ Bool := .turn o around (.judge c) (e.evaluate c)

/-- The course of a loop; `done` counts the iterations so far. -/
def loopCourse (e : Engine σ) (o : Occurrence σ) (around : List (Occurrence σ)) (c : Condition)
    (body : Nat → Course σ Unit) : (rounds done : Nat) → Course σ Unit
  | 0, _ => e.deed o around .tire
  | rounds + 1, done => do
    if ← e.judge o around c then
      match e.pastCap (done + 1) with
      | some cap => e.deed o around (.limit cap)
      | none =>
        if ← (body (done + 1)).leftLoop then return ()
        else loopCourse e o around c body rounds (done + 1)
    else return ()

mutual

/-- The course of a step, below the path of its block and inside the given occurrences. -/
def stepCourse (e : Engine σ) (around : List (Occurrence σ)) (above : String) (top : Bool) :
    Step → Course σ Unit
  | .command h => .visit above top (.command h) fun o => do
    e.deed o around .reach
    e.deed o around .start
  | .auth h => .visit above top (.auth h) fun o => do
    e.deed o around .reach
    e.deed o around .start
  | .conditional h c thenBlock none action =>
    .visit above top (.conditional h c thenBlock none action) fun o => do
      e.deed o around .reach
      if ← e.judge o around c then
        blockCourse e (o :: around) (blockPath o.path "then") false thenBlock
      e.deed o around (.act action)
  | .conditional h c thenBlock (some elseBlock) action =>
    .visit above top (.conditional h c thenBlock (some elseBlock) action) fun o => do
      e.deed o around .reach
      if ← e.judge o around c then
        blockCourse e (o :: around) (blockPath o.path "then") false thenBlock
      else blockCourse e (o :: around) (blockPath o.path "else") false elseBlock
      e.deed o around (.act action)
  | .branch h selector cases none => .visit above top (.branch h selector cases none) fun o => do
    e.deed o around .reach
    let _ ← casesCourse e (o :: around) o.path o.state.context
      ((o.state.context.get? selector).getD "") cases
    return ()
  | .branch h selector cases (some fallback) =>
    .visit above top (.branch h selector cases (some fallback)) fun o => do
      e.deed o around .reach
      if ← casesCourse e (o :: around) o.path o.state.context
          ((o.state.context.get? selector).getD "") cases then return ()
      else blockCourse e (o :: around) (blockPath o.path "default") false fallback
  | .loop h c body => .visit above top (.loop h c body) fun o => do
    e.deed o around .reach
    e.loopCourse o around c (fun n =>
      blockCourse e (o :: around) (blockPath o.path (iterationLabel n)) false body) e.rounds 0

/-- The course of the steps of a block. -/
def blockCourse (e : Engine σ) (around : List (Occurrence σ)) (above : String) (top : Bool) :
    List Step → Course σ Unit
  | [] => pure ()
  | s :: rest => do
    stepCourse e around above top s
    blockCourse e around above top rest

/-- The course of the first case whose resolved value is the selected one. -/
def casesCourse (e : Engine σ) (around : List (Occurrence σ)) (path : String) (context : Context)
    (value : String) : List (String × List Step) → Course σ Bool
  | [] => pure false
  | (v, block) :: rest =>
    if Template.resolve context v = value then do
      blockCourse e around (blockPath path (Step.caseLabel value)) false block
      return true
    else casesCourse e around path context value rest

end

/-! ## 4. A course without its turns -/

theorem run_deed (e : Engine σ) (o : Occurrence σ) (around : List (Occurrence σ)) (d : Deed) :
    (e.deed o around d).run = e.perform o d := rfl

theorem run_judge (e : Engine σ) (o : Occurrence σ) (around : List (Occurrence σ))
    (c : Condition) : (e.judge o around c).run = e.evaluate c := rfl

theorem turns_deed (e : Engine σ) (o : Occurrence σ) (around : List (Occurrence σ)) (d : Deed)
    (s : RunState σ) : (e.deed o around d).turns s = [⟨o, around, d, s⟩] := rfl

theorem turns_judge (e : Engine σ) (o : Occurrence σ) (around : List (Occurrence σ))
    (c : Condition) (s : RunState σ) :
    (e.judge o around c).turns s = [⟨o, around, .judge c, s⟩] := rfl

theorem loopCourse_run (e : Engine σ) (o : Occurrence σ) (around : List (Occurrence σ))
    (c : Condition) (body : Nat → Course σ Unit) (rounds done : Nat) :
    (e.loopCourse o around c body rounds done).run =
      e.loop o.step.name o.path (e.evaluate c) (fun n => (body n).run) rounds done := by
  induction rounds generalizing done with
  | zero => rfl
  | succ rounds ih =>
    unfold loopCourse loop
    rw [Course.run_bind, run_judge]
    congr 1
    funext holds
    cases holds with
    | false => rfl
    | true =>
      simp only [if_true]
      cases e.pastCap (done + 1) with
      | some cap => rfl
      | none =>
        simp only [Course.run_bind, Course.run_leftLoop]
        congr 1
        funext left
        cases left with
        | true => rfl
        | false => simpa using ih (done + 1)

theorem blockCourse_run_of (e : Engine σ) (block : List Step)
    (h : ∀ s ∈ block, ∀ around above top,
      (e.stepCourse around above top s).run = e.runStep above top s)
    (around : List (Occurrence σ)) (above : String) (top : Bool) :
    (e.blockCourse around above top block).run = e.runBlock above top block := by
  induction block with
  | nil => simp [blockCourse, runBlock]
  | cons s rest ih =>
    unfold blockCourse runBlock
    rw [Course.run_bind, h s List.mem_cons_self around above top,
      ih fun t ht => h t (List.mem_cons_of_mem _ ht)]

theorem casesCourse_run_of (e : Engine σ) (cases : List (String × List Step))
    (h : ∀ entry ∈ cases, ∀ s ∈ entry.2, ∀ around above top,
      (e.stepCourse around above top s).run = e.runStep above top s)
    (around : List (Occurrence σ)) (path : String) (context : Context) (value : String) :
    (e.casesCourse around path context value cases).run =
      e.runCases path context value cases := by
  induction cases with
  | nil => rfl
  | cons entry rest ih =>
    obtain ⟨v, block⟩ := entry
    unfold casesCourse runCases
    by_cases hv : Template.resolve context v = value
    · rw [if_pos hv, if_pos hv, Course.run_bind,
        blockCourse_run_of e block (h (v, block) List.mem_cons_self)]
      rfl
    · rw [if_neg hv, if_neg hv]
      exact ih fun b hb => h b (List.mem_cons_of_mem _ hb)

/-- **The course of a step without its turns is the run of the step.** -/
theorem stepCourse_run (e : Engine σ) (s : Step) : ∀ around above top,
    (e.stepCourse around above top s).run = e.runStep above top s := by
  induction s using Step.childInduction with
  | h s ih =>
    intro around above top
    funext st
    cases s with
    | command h =>
      unfold stepCourse runStep
      simp only [Course.run_visit, Course.run_bind, run_deed]
      rfl
    | auth h =>
      unfold stepCourse runStep
      simp only [Course.run_visit, Course.run_bind, run_deed]
      rfl
    | conditional h c t el a =>
      have ht := blockCourse_run_of e t fun s hs => ih s (Step.mem_children_then hs)
      cases el with
      | none =>
        unfold stepCourse runStep
        simp only [Course.run_visit, Course.run_bind, run_deed, run_judge, Run.state_bind]
        refine congrFun (Run.bind_congr fun _ => Run.bind_congr fun holds => ?_) st
        cases holds with
        | false => rfl
        | true =>
          simp only [if_true, Course.run_bind, ht]
          rfl
      | some el =>
        have hel := blockCourse_run_of e el fun s hs =>
          ih s (Step.mem_children_else hs)
        unfold stepCourse runStep
        simp only [Course.run_visit, Course.run_bind, run_deed, run_judge, Run.state_bind]
        refine congrFun (Run.bind_congr fun _ => Run.bind_congr fun holds => ?_) st
        cases holds with
        | false =>
          simp only [Bool.false_eq_true, if_false, Course.run_bind, hel]
          rfl
        | true =>
          simp only [if_true, Course.run_bind, ht]
          rfl
    | branch h v cs d =>
      have hcs := casesCourse_run_of e cs fun entry he s hs =>
        ih s (Step.mem_children_case he hs)
      cases d with
      | none =>
        unfold stepCourse runStep
        simp only [Course.run_visit, Course.run_bind, run_deed, Run.state_bind, hcs]
        rfl
      | some d =>
        have hd := blockCourse_run_of e d fun s hs =>
          ih s (Step.mem_children_default hs)
        unfold stepCourse runStep
        simp only [Course.run_visit, Course.run_bind, run_deed, Run.state_bind, hcs]
        refine congrFun (Run.bind_congr fun _ => Run.bind_congr fun found => ?_) st
        cases found with
        | false => exact hd _ _ _
        | true => rfl
    | loop h c b =>
      have hb := blockCourse_run_of e b fun s hs => ih s (Step.mem_children_body hs)
      unfold stepCourse runStep
      simp only [Course.run_visit, Course.run_bind, run_deed, Run.state_bind, loopCourse_run, hb]
      rfl

/-- **The course of a block without its turns is the run of the block.** -/
theorem blockCourse_run (e : Engine σ) (around : List (Occurrence σ)) (above : String) (top : Bool)
    (block : List Step) : (e.blockCourse around above top block).run = e.runBlock above top block :=
  blockCourse_run_of e block (fun s _ => stepCourse_run e s) around above top

end Engine

end Runbook
