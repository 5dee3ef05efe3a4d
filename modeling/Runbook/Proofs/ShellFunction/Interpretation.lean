import Mathlib.Logic.Function.Iterate
import Runbook.Proofs.Run.Action
import Runbook.Run.Workflow
import Runbook.ShellFunction.Steps

/-!
# The statements of a shell function, interpreted directly

What a block of statements means, said without steps. An interpretation has a list of statements still
to be interpreted, and takes the first of them apart:

* `Act`: what an interpretation does: it starts a command or evaluates a condition;
* `chosen`: the body that a choice goes into;
* `Interpretation`: an interpretation on its way;
* `Interpretation.advance`: one step of it; an interpretation that is over stays as it is;
* `Statement.texts`: the texts that an interpretation makes use of.

A loop may go on for ever, so that an interpretation is looked at after any number of steps.
-/

namespace Runbook.ShellFunction

variable {σ : Type}

/-! ## 1. The body that a choice goes into -/

/-- The body of the arm of any value; of several such arms the last one counts. -/
def standardBody? (arms : List (String × List Statement)) : Option (List Statement) :=
  ((arms.filter fun arm => arm.1 = anyValue).getLast?).map (·.2)

/-- The body that a choice goes into: that of the first arm with the value as its pattern; without one
that of the arm of any value, if there is one. -/
def chosen (value : String) (arms : List (String × List Statement)) : List Statement :=
  match arms.find? fun arm => arm.1 ≠ anyValue ∧ arm.1 = value with
  | some arm => arm.2
  | none => (standardBody? arms).getD []

/-! ## 2. Interpretations -/

/-- What an interpretation does. -/
inductive Act where
  | spawned (command : String)
  | evaluated (condition : String)
deriving DecidableEq, Repr

/-- An interpretation on its way: the statements still to be interpreted, what it has done so far, what
it has failed with, if it has, and the values, the last process result, the events and the world. -/
structure Interpretation (σ : Type) where
  todo : List Statement
  acts : List Act
  failure : Option Signal
  state : RunState σ

namespace Interpretation

/-- The interpretation of a block before its first step. -/
def start (block : List Statement) (context : Context) (world : σ) : Interpretation σ :=
  ⟨block, [], none, Executor.initialState context world⟩

/-- Nothing is left to be interpreted, or the interpretation has failed. -/
def Over (p : Interpretation σ) : Prop := p.todo = [] ∨ p.failure ≠ none

/-- Starts a command and goes on with `rest`. -/
def spawning (e : Engine σ) (command : String) (rest : List Statement) (p : Interpretation σ) :
    Interpretation σ :=
  let (reply, world) := e.world.spawn command p.state.world
  let told := p.state.told [.spawned command] world
  let acts := p.acts ++ [.spawned command]
  match reply with
  | .finished result => ⟨rest, acts, none, { told with last := some result }⟩
  | .refused _ => ⟨rest, acts, none, told⟩
  | .raised fault => ⟨rest, acts, some (.raised fault), told⟩

/-- Evaluates a condition and goes on with `yes` if it holds and with `no` if not. -/
def evaluating (e : Engine σ) (condition : String) (yes no : List Statement)
    (p : Interpretation σ) : Interpretation σ :=
  let acts := p.acts ++ [.evaluated condition]
  match e.decide (Expression.substituteVariables p.state.context condition) p.state with
  | (.ok holds, s) => ⟨if holds then yes else no, acts, none, s⟩
  | (.error signal, s) => ⟨p.todo, acts, some signal, s⟩

/-- **One step of an interpretation.** -/
def advance (e : Engine σ) (p : Interpretation σ) : Interpretation σ :=
  match p.failure, p.todo with
  | none, .command text :: rest => p.spawning e text rest
  | none, .forLoop _ _ source _ :: rest => p.spawning e source rest
  | none, .assignment name value isLocal :: rest =>
    p.spawning e (assignmentCommand name value isLocal) rest
  | none, .conditional condition thenBlock elseBlock :: rest =>
    p.evaluating e condition (thenBlock ++ rest) (elseBlock.getD [] ++ rest)
  | none, .whileLoop condition body :: rest =>
    p.evaluating e condition (body ++ .whileLoop condition body :: rest) rest
  | none, .choice selector arms :: rest =>
    { p with todo := chosen ((p.state.context.get? selector).getD "") arms ++ rest }
  | none, [] => p
  | some _, _ => p

theorem advance_conditional (e : Engine σ) (condition : String) (thenBlock : List Statement)
    (elseBlock : Option (List Statement)) (rest : List Statement) (acts : List Act)
    (s : RunState σ) :
    advance e ⟨.conditional condition thenBlock elseBlock :: rest, acts, none, s⟩ =
      evaluating e condition (thenBlock ++ rest) (elseBlock.getD [] ++ rest)
        ⟨.conditional condition thenBlock elseBlock :: rest, acts, none, s⟩ := rfl

theorem advance_whileLoop (e : Engine σ) (condition : String) (body rest : List Statement)
    (acts : List Act) (s : RunState σ) :
    advance e ⟨.whileLoop condition body :: rest, acts, none, s⟩ =
      evaluating e condition (body ++ .whileLoop condition body :: rest) rest
        ⟨.whileLoop condition body :: rest, acts, none, s⟩ := rfl

end Interpretation

/-! ## 3. The texts that an interpretation makes use of -/

mutual

/-- The texts that interpreting a statement makes use of: commands, conditions and patterns, and of an
assignment its name and its value. -/
def Statement.texts : Statement → List String
  | .command text => [text]
  | .conditional condition thenBlock none => condition :: textsOfBlock thenBlock
  | .conditional condition thenBlock (some elseBlock) =>
    condition :: (textsOfBlock thenBlock ++ textsOfBlock elseBlock)
  | .choice _ arms => textsOfArms arms
  | .forLoop _ _ source _ => [source]
  | .whileLoop condition body => condition :: textsOfBlock body
  | .assignment name value _ => [name, value]

/-- The texts of a block. -/
def textsOfBlock : List Statement → List String
  | [] => []
  | s :: rest => s.texts ++ textsOfBlock rest

/-- The texts of arms. -/
def textsOfArms : List (String × List Statement) → List String
  | [] => []
  | (p, body) :: rest => p :: (textsOfBlock body ++ textsOfArms rest)

end

end Runbook.ShellFunction
