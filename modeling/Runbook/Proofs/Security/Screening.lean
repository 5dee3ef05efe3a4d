import Mathlib.Data.List.Basic
import Runbook.Proofs.StepTree
import Runbook.Security.Workflow

/-!
# The screen sees every step

The screening of a workflow goes down the step tree by recursions of its own. They come to the same
steps as the walk:

* `stepIssues_eq`, `stepNeedsApproval_iff`: issues and approval of a step, read off its walk;
* `workflow_requiresApproval_iff`: a workflow needs approval if and only if some step of it does;
* **`clears_step`**: a workflow that is safe and needs no approval has only such steps.
-/

namespace Runbook.Security.Screen

/-! ## 1. Issues -/

theorem blockIssues_eq (screen : Screen) (block : List Step) :
    screen.blockIssues block = block.flatMap (screen.stepIssues ·) := by
  induction block with
  | nil => rfl
  | cons s rest ih =>
    unfold blockIssues
    rw [ih, List.flatMap_cons]

theorem caseIssues_eq (screen : Screen) (cases : List (String × List Step)) :
    screen.caseIssues cases = (cases.flatMap (·.2)).flatMap (screen.stepIssues ·) := by
  induction cases with
  | nil => rfl
  | cons entry rest ih =>
    obtain ⟨v, block⟩ := entry
    unfold caseIssues
    rw [ih, blockIssues_eq, List.flatMap_cons, List.flatMap_append]

/-- The issues of a step are its own and then those of its children. -/
theorem stepIssues_children (screen : Screen) (s : Step) :
    screen.stepIssues s = screen.ownIssues s.head ++ s.children.flatMap (screen.stepIssues ·) := by
  cases s with
  | command h => simp [stepIssues, Step.children, Step.blocks, Step.head]
  | auth h => simp [stepIssues, Step.children, Step.blocks, Step.head]
  | conditional h c t el a =>
    cases el <;> simp [stepIssues, Step.children, Step.blocks, Step.head, blockIssues_eq]
  | branch h v cs d =>
    cases d <;> simp [stepIssues, Step.children, Step.blocks, Step.head, blockIssues_eq,
      caseIssues_eq, List.flatMap_map]
  | loop h c b => simp [stepIssues, Step.children, Step.blocks, Step.head, blockIssues_eq]

/-- **The issues of a step are those of all steps of its walk.** -/
theorem stepIssues_eq (screen : Screen) (s : Step) :
    screen.stepIssues s = s.walk.flatMap fun t => screen.ownIssues t.head := by
  induction s using Step.childInduction with
  | h s ih =>
    rw [stepIssues_children, Step.walk_eq, List.flatMap_cons, Step.walkBlock_eq,
      List.flatMap_assoc]
    congr 1
    exact List.flatMap_congr ih

/-! ## 2. Approval -/

theorem blockNeedsApproval_eq (screen : Screen) (block : List Step) :
    screen.blockNeedsApproval block = block.any (screen.stepNeedsApproval ·) := by
  induction block with
  | nil => rfl
  | cons s rest ih =>
    unfold blockNeedsApproval
    rw [ih, List.any_cons]

theorem casesNeedApproval_eq (screen : Screen) (cases : List (String × List Step)) :
    screen.casesNeedApproval cases =
      (cases.flatMap (·.2)).any (screen.stepNeedsApproval ·) := by
  induction cases with
  | nil => rfl
  | cons entry rest ih =>
    obtain ⟨v, block⟩ := entry
    unfold casesNeedApproval
    rw [ih, blockNeedsApproval_eq, List.flatMap_cons, List.any_append]

/-- A step needs approval if it does so itself or one of its children does. -/
theorem stepNeedsApproval_children (screen : Screen) (s : Step) :
    screen.stepNeedsApproval s =
      (screen.ownApproval s.head || s.children.any (screen.stepNeedsApproval ·)) := by
  cases s with
  | command h => simp [stepNeedsApproval, Step.children, Step.blocks, Step.head]
  | auth h => simp [stepNeedsApproval, Step.children, Step.blocks, Step.head]
  | conditional h c t el a =>
    cases el <;>
      simp [stepNeedsApproval, Step.children, Step.blocks, Step.head, blockNeedsApproval_eq]
  | branch h v cs d =>
    cases d <;> simp [stepNeedsApproval, Step.children, Step.blocks, Step.head,
      blockNeedsApproval_eq, casesNeedApproval_eq, List.flatMap_map]
  | loop h c b =>
    simp [stepNeedsApproval, Step.children, Step.blocks, Step.head, blockNeedsApproval_eq]

/-- **A step needs approval if and only if some step of its walk does.** -/
theorem stepNeedsApproval_iff (screen : Screen) (s : Step) :
    screen.stepNeedsApproval s = true ↔ ∃ t ∈ s.walk, screen.ownApproval t.head = true := by
  induction s using Step.childInduction with
  | h s ih =>
    rw [stepNeedsApproval_children, Bool.or_eq_true, List.any_eq_true]
    constructor
    · rintro (h | ⟨c, hc, h⟩)
      · exact ⟨s, Step.mem_walk_self s, h⟩
      · obtain ⟨t, ht, h⟩ := (ih c hc).mp h
        exact ⟨t, Step.mem_walk_of_child hc ht, h⟩
    · rintro ⟨t, ht, h⟩
      rcases Step.mem_walk.mp ht with rfl | ⟨c, hc, ht⟩
      · exact Or.inl h
      · exact Or.inr ⟨c, hc, (ih c hc).mpr ⟨t, ht, h⟩⟩

/-! ## 3. Workflows -/

/-- **A workflow needs approval if and only if some step of it does.** -/
theorem workflow_requiresApproval_iff (screen : Screen) (w : Workflow) :
    (screen.workflow w).requiresApproval = true ↔
      ∃ s ∈ w.allSteps, screen.ownApproval s.head = true := by
  show w.steps.any (screen.stepNeedsApproval ·) = true ↔ _
  rw [List.any_eq_true]
  constructor
  · rintro ⟨b, hb, h⟩
    obtain ⟨s, hs, h⟩ := (stepNeedsApproval_iff screen b).mp h
    exact ⟨s, Step.mem_walkBlock.mpr ⟨b, hb, hs⟩, h⟩
  · rintro ⟨s, hs, h⟩
    obtain ⟨b, hb, hs⟩ := Step.mem_walkBlock.mp hs
    exact ⟨b, hb, (stepNeedsApproval_iff screen b).mpr ⟨s, hs, h⟩⟩

/-- The steps of a safe workflow have no issues. -/
theorem ownIssues_of_isSafe {screen : Screen} {w : Workflow}
    (h : (screen.workflow w).isSafe = true) {s : Step} (hs : s ∈ w.allSteps) :
    screen.ownIssues s.head = [] := by
  have hall : screen.workflowIssues w = [] := List.isEmpty_iff.mp h
  unfold workflowIssues at hall
  obtain ⟨⟨-, hsteps⟩, -⟩ : (_ ∧ _) ∧ _ := by simpa only [List.append_eq_nil_iff] using hall
  obtain ⟨b, hb, hsb⟩ := Step.mem_walkBlock.mp hs
  have hissues := List.flatMap_eq_nil_iff.mp hsteps b hb
  rw [stepIssues_eq] at hissues
  exact List.flatMap_eq_nil_iff.mp hissues s hsb

/-- **In a workflow that is safe and needs no approval no step is flagged**, and the text of every
step is safe and calls for no approval. -/
theorem clears_step {screen : Screen} {w : Workflow} (h : (screen.workflow w).isSafe = true)
    (ha : (screen.workflow w).requiresApproval = false) {s : Step} (hs : s ∈ w.allSteps) :
    s.head.requireApproval = false ∧ (s.commandText ≠ "" →
      (screen.command s.commandText).isSafe = true ∧
        (screen.command s.commandText).requiresApproval = false) := by
  have hown : screen.ownApproval s.head = false := by
    rw [← Bool.not_eq_true]
    intro hown
    rw [(workflow_requiresApproval_iff screen w).mpr ⟨s, hs, hown⟩] at ha
    cases ha
  have hissues := ownIssues_of_isSafe h hs
  unfold ownApproval at hown
  unfold ownIssues at hissues
  obtain ⟨hflag, htext⟩ := Bool.or_eq_false_iff.mp hown
  refine ⟨hflag, fun hne => ?_⟩
  have hne : s.head.command ≠ "" := hne
  rw [if_neg hne] at hissues
  rw [decide_eq_true hne, Bool.true_and] at htext
  exact ⟨List.isEmpty_iff.mpr hissues, htext⟩

end Runbook.Security.Screen
