import Runbook.Step

/-!
# Walking the step tree

Every analysis of a workflow looks at the steps of a tree in one order, depth first and a step
before what it holds:

* `Step.blocks`: the blocks of a step with their labels, and `Step.children`: their steps;
* `Step.walk`, `walkBlock`: a step and everything below it;
* `Step.conditions`, `Step.texts`, `Step.caseValues`: the texts that a step carries itself;
* `capturedNames`: the variables that conditions of a tree capture their outcomes into.
-/

namespace Runbook

namespace Step

/-! ## 1. Blocks -/

/-- The label of the block of a case. -/
def caseLabel (value : String) : String :=
  "case[" ++ value ++ "]"

/-- The blocks of a step under the labels that traces name them by. -/
def blocks : Step → List (String × List Step)
  | .command _ => []
  | .auth _ => []
  | .conditional _ _ thenBlock elseBlock _ =>
    ("then", thenBlock) :: match elseBlock with
      | none => []
      | some block => [("else", block)]
  | .branch _ _ cases fallback =>
    (cases.map fun entry => (caseLabel entry.1, entry.2)) ++ match fallback with
      | none => []
      | some block => [("default", block)]
  | .loop _ _ body => [("loop", body)]

/-- The steps that a step holds directly, block by block. -/
def children (s : Step) : List Step :=
  s.blocks.flatMap (·.2)

/-! ## 2. The walk -/

mutual

/-- The step and everything below it, depth first. -/
def walk : Step → List Step
  | .command h => [.command h]
  | .auth h => [.auth h]
  | .conditional h c thenBlock none a => .conditional h c thenBlock none a :: walkBlock thenBlock
  | .conditional h c thenBlock (some elseBlock) a =>
    .conditional h c thenBlock (some elseBlock) a :: (walkBlock thenBlock ++ walkBlock elseBlock)
  | .branch h v cases none => .branch h v cases none :: walkCases cases
  | .branch h v cases (some fallback) =>
    .branch h v cases (some fallback) :: (walkCases cases ++ walkBlock fallback)
  | .loop h c body => .loop h c body :: walkBlock body

/-- The walk over the steps of a block. -/
def walkBlock : List Step → List Step
  | [] => []
  | s :: rest => walk s ++ walkBlock rest

/-- The walk over the blocks of cases. -/
def walkCases : List (String × List Step) → List Step
  | [] => []
  | (_, block) :: rest => walkBlock block ++ walkCases rest

end

theorem walkBlock_append (a b : List Step) : walkBlock (a ++ b) = walkBlock a ++ walkBlock b := by
  induction a with
  | nil => rfl
  | cons s a ih => simp [walkBlock, ih]

theorem walkCases_eq (cases : List (String × List Step)) :
    walkCases cases = walkBlock (cases.flatMap (·.2)) := by
  induction cases with
  | nil => rfl
  | cons entry rest ih =>
    obtain ⟨v, block⟩ := entry
    simp [walkCases, walkBlock_append, ih]

/-- **The walk of a step is the step itself and then the walk of its children.** -/
theorem walk_eq (s : Step) : s.walk = s :: walkBlock s.children := by
  cases s with
  | command h => rfl
  | auth h => rfl
  | conditional h c t e a =>
    cases e <;> simp [walk, children, blocks, walkBlock_append]
  | branch h v cs d =>
    cases d <;> simp [walk, children, blocks, walkBlock_append, walkCases_eq, List.flatMap_map]
  | loop h c b => simp [walk, children, blocks]

/-! ## 3. Texts -/

/-- The condition of a conditional or a loop. -/
def condition? : Step → Option Condition
  | .command _ => none
  | .auth _ => none
  | .conditional _ c .. => some c
  | .branch .. => none
  | .loop _ c _ => some c

/-- The condition text of a step, if it has a condition. -/
def conditions (s : Step) : List String :=
  s.condition?.toList.map (·.expression)

/-- The texts that running the step itself executes: its command and its condition. -/
def texts (s : Step) : List String :=
  (if s.commandText = "" then [] else [s.commandText]) ++ s.conditions

/-- The values that a branch compares its selector with. -/
def caseValues : Step → List String
  | .command _ => []
  | .auth _ => []
  | .conditional .. => []
  | .branch _ _ cases _ => cases.map (·.1)
  | .loop .. => []

/-- The variable whose value a branch goes by. -/
def selector? : Step → Option String
  | .command _ => none
  | .auth _ => none
  | .conditional .. => none
  | .branch _ v _ _ => some v
  | .loop .. => none

end Step

/-! ## 4. Captured names -/

/-- The list without later repetitions. -/
def distinct {α : Type} [DecidableEq α] (xs : List α) : List α :=
  xs.foldl (fun seen x => if x ∈ seen then seen else seen ++ [x]) []

/-- The variables that conditions of a tree capture their outcomes into, in the order of the walk;
an empty name captures nothing. -/
def capturedNames (steps : List Step) : List String :=
  distinct ((Step.walkBlock steps).filterMap fun s =>
    (s.condition?.bind (·.capture)).filter (· ≠ ""))

end Runbook
