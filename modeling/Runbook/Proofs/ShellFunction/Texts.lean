import Runbook.Proofs.ShellFunction.Interpretation
import Runbook.Template.Steps

/-!
# The texts of statements and of their steps

Each step of a converted function comes from one of its statements, and has that statement's texts:

* `Statement.walk`: a statement and everything below it that becomes steps of its own;
* `mem_walk_stepsOf`: every step of the walk over the steps of a block comes from such a statement;
* `Statement.ownTexts`: the texts of a statement without those below it; `ownTexts_subset`;
* **`templates_stepOf`**: what holds of these texts, and is kept by assignments, holds of the step's.
-/

namespace Runbook.ShellFunction

/-! ## 1. The walk over statements -/

mutual

/-- The statement and everything below it that becomes steps; a loop over items is one step alone. -/
def Statement.walk : Statement → List Statement
  | .command text => [.command text]
  | .conditional condition thenBlock none =>
    .conditional condition thenBlock none :: walkBlock thenBlock
  | .conditional condition thenBlock (some elseBlock) =>
    .conditional condition thenBlock (some elseBlock) ::
      (walkBlock thenBlock ++ walkBlock elseBlock)
  | .choice selector arms => .choice selector arms :: walkArms arms
  | .forLoop loopVariable items source body => [.forLoop loopVariable items source body]
  | .whileLoop condition body => .whileLoop condition body :: walkBlock body
  | .assignment name value isLocal => [.assignment name value isLocal]

/-- The walk over the statements of a block. -/
def walkBlock : List Statement → List Statement
  | [] => []
  | s :: rest => s.walk ++ walkBlock rest

/-- The walk over the bodies of arms. -/
def walkArms : List (String × List Statement) → List Statement
  | [] => []
  | (_, body) :: rest => walkBlock body ++ walkArms rest

end

mutual

/-- Every step of the walk over a statement's step comes from a statement of the walk over it. -/
theorem mem_walk_stepOf : ∀ (s : Statement), ∀ x ∈ (stepOf s).walk, ∃ s' ∈ s.walk, x = stepOf s'
  | .command text, x, hx => ⟨_, List.mem_cons_self, List.mem_singleton.mp hx⟩
  | .forLoop _ _ _ _, x, hx => ⟨_, List.mem_cons_self, List.mem_singleton.mp hx⟩
  | .assignment _ _ _, x, hx => ⟨_, List.mem_cons_self, List.mem_singleton.mp hx⟩
  | .conditional condition thenBlock none, x, hx => by
    rcases List.mem_cons.mp hx with rfl | hx
    · exact ⟨_, List.mem_cons_self, rfl⟩
    · obtain ⟨s', hs', rfl⟩ := mem_walk_stepsOf thenBlock x hx
      exact ⟨s', List.mem_cons_of_mem _ hs', rfl⟩
  | .conditional condition thenBlock (some elseBlock), x, hx => by
    rcases List.mem_cons.mp hx with rfl | hx
    · exact ⟨_, List.mem_cons_self, rfl⟩
    rcases List.mem_append.mp hx with hx | hx
    · obtain ⟨s', hs', rfl⟩ := mem_walk_stepsOf thenBlock x hx
      exact ⟨s', List.mem_cons_of_mem _ (List.mem_append_left _ hs'), rfl⟩
    · obtain ⟨s', hs', rfl⟩ := mem_walk_stepsOf elseBlock x hx
      exact ⟨s', List.mem_cons_of_mem _ (List.mem_append_right _ hs'), rfl⟩
  | .whileLoop condition body, x, hx => by
    rcases List.mem_cons.mp hx with rfl | hx
    · exact ⟨_, List.mem_cons_self, rfl⟩
    · obtain ⟨s', hs', rfl⟩ := mem_walk_stepsOf body x hx
      exact ⟨s', List.mem_cons_of_mem _ hs', rfl⟩
  | .choice selector arms, x, hx => by
    have hbranch : stepOf (.choice selector arms) =
      .branch (choiceHead selector) selector (casesOf arms) (fallbackOf arms) := rfl
    rw [hbranch, Step.walk_eq, List.mem_cons] at hx
    rcases hx with rfl | hx
    · exact ⟨_, List.mem_cons_self, rfl⟩
    · obtain ⟨s', hs', rfl⟩ : ∃ s' ∈ walkArms arms, x = stepOf s' := by
        cases hf : fallbackOf arms with
        | none =>
          rw [hf] at hx
          simp only [Step.children, Step.blocks, List.append_nil, List.flatMap_map] at hx
          rw [← Step.walkCases_eq] at hx
          exact mem_walk_casesOf arms x hx
        | some block =>
          rw [hf] at hx
          simp only [Step.children, Step.blocks, List.flatMap_append, List.flatMap_map,
            List.flatMap_singleton, Step.walkBlock_append, List.mem_append] at hx
          rw [← Step.walkCases_eq] at hx
          rcases hx with hx | hx
          · exact mem_walk_casesOf arms x hx
          · exact mem_walk_fallbackOf arms block hf x hx
      exact ⟨s', List.mem_cons_of_mem _ hs', rfl⟩

/-- **So does every step of the walk over the steps of a block.** -/
theorem mem_walk_stepsOf : ∀ (block : List Statement), ∀ x ∈ Step.walkBlock (stepsOf block),
    ∃ s ∈ walkBlock block, x = stepOf s
  | s :: rest, x, hx => by
    rcases List.mem_append.mp hx with hx | hx
    · obtain ⟨s', hs', rfl⟩ := mem_walk_stepOf s x hx
      exact ⟨s', List.mem_append_left _ hs', rfl⟩
    · obtain ⟨s', hs', rfl⟩ := mem_walk_stepsOf rest x hx
      exact ⟨s', List.mem_append_right _ hs', rfl⟩

theorem mem_walk_casesOf : ∀ (arms : List (String × List Statement)),
    ∀ x ∈ Step.walkCases (casesOf arms), ∃ s ∈ walkArms arms, x = stepOf s
  | (p, body) :: rest, x, hx => by
    unfold casesOf at hx
    by_cases hany : p = anyValue
    · rw [if_pos hany] at hx
      obtain ⟨s', hs', rfl⟩ := mem_walk_casesOf rest x hx
      exact ⟨s', List.mem_append_right _ hs', rfl⟩
    · rw [if_neg hany] at hx
      rcases List.mem_append.mp hx with hx | hx
      · obtain ⟨s', hs', rfl⟩ := mem_walk_stepsOf body x hx
        exact ⟨s', List.mem_append_left _ hs', rfl⟩
      · obtain ⟨s', hs', rfl⟩ := mem_walk_casesOf rest x hx
        exact ⟨s', List.mem_append_right _ hs', rfl⟩

theorem mem_walk_fallbackOf : ∀ (arms : List (String × List Statement)) (block : List Step),
    fallbackOf arms = some block → ∀ x ∈ Step.walkBlock block, ∃ s ∈ walkArms arms, x = stepOf s
  | (p, body) :: rest, block, hf, x, hx => by
    unfold fallbackOf at hf
    cases hr : fallbackOf rest with
    | some later =>
      rw [hr] at hf
      cases hf
      obtain ⟨s', hs', rfl⟩ := mem_walk_fallbackOf rest _ hr x hx
      exact ⟨s', List.mem_append_right _ hs', rfl⟩
    | none =>
      rw [hr] at hf
      by_cases hany : p = anyValue
      · rw [if_pos hany] at hf
        cases hf
        obtain ⟨s', hs', rfl⟩ := mem_walk_stepsOf body x hx
        exact ⟨s', List.mem_append_left _ hs', rfl⟩
      · rw [if_neg hany] at hf
        cases hf

end

/-! ## 2. Texts -/

/-- The texts of a statement, without those of the statements below it. -/
def Statement.ownTexts : Statement → List String
  | .command text => [text]
  | .conditional condition _ _ => [condition]
  | .choice _ arms => arms.map (·.1)
  | .forLoop _ _ source _ => [source]
  | .whileLoop condition _ => [condition]
  | .assignment name value _ => [name, value]

theorem mem_textsOfArms {p : String} {body : List Statement}
    {arms : List (String × List Statement)} (h : (p, body) ∈ arms) : p ∈ textsOfArms arms := by
  induction arms with
  | nil => cases h
  | cons arm rest ih =>
    obtain ⟨q, other⟩ := arm
    rcases List.mem_cons.mp h with heq | h
    · cases heq
      exact List.mem_cons_self
    · exact List.mem_cons_of_mem _ (List.mem_append_right _ (ih h))

mutual

/-- The texts of every statement of the walk are texts of the whole. -/
theorem ownTexts_subset : ∀ (s : Statement), ∀ s' ∈ s.walk, s'.ownTexts ⊆ s.texts
  | .command _, s', h => by
    rw [List.mem_singleton.mp h]
    exact List.Subset.refl _
  | .forLoop _ _ _ _, s', h => by
    rw [List.mem_singleton.mp h]
    exact List.Subset.refl _
  | .assignment _ _ _, s', h => by
    rw [List.mem_singleton.mp h]
    exact List.Subset.refl _
  | .conditional condition thenBlock none, s', h => by
    rcases List.mem_cons.mp h with rfl | h
    · simp [Statement.ownTexts, Statement.texts]
    · exact List.subset_cons_of_subset _ (ownTexts_subset_block thenBlock s' h)
  | .conditional condition thenBlock (some elseBlock), s', h => by
    rcases List.mem_cons.mp h with rfl | h
    · simp [Statement.ownTexts, Statement.texts]
    rcases List.mem_append.mp h with h | h
    · exact List.subset_cons_of_subset _
        (List.subset_append_of_subset_left _ (ownTexts_subset_block thenBlock s' h))
    · exact List.subset_cons_of_subset _
        (List.subset_append_of_subset_right _ (ownTexts_subset_block elseBlock s' h))
  | .whileLoop condition body, s', h => by
    rcases List.mem_cons.mp h with rfl | h
    · simp [Statement.ownTexts, Statement.texts]
    · exact List.subset_cons_of_subset _ (ownTexts_subset_block body s' h)
  | .choice selector arms, s', h => by
    rcases List.mem_cons.mp h with rfl | h
    · intro text ht
      obtain ⟨arm, harm, rfl⟩ := List.mem_map.mp ht
      exact mem_textsOfArms harm
    · exact ownTexts_subset_arms arms s' h

theorem ownTexts_subset_block : ∀ (block : List Statement), ∀ s ∈ walkBlock block,
    s.ownTexts ⊆ textsOfBlock block
  | first :: rest, s, h => by
    rcases List.mem_append.mp h with h | h
    · exact List.subset_append_of_subset_left _ (ownTexts_subset first s h)
    · exact List.subset_append_of_subset_right _ (ownTexts_subset_block rest s h)

theorem ownTexts_subset_arms : ∀ (arms : List (String × List Statement)), ∀ s ∈ walkArms arms,
    s.ownTexts ⊆ textsOfArms arms
  | (p, body) :: rest, s, h => by
    refine List.subset_cons_of_subset _ ?_
    rcases List.mem_append.mp h with h | h
    · exact List.subset_append_of_subset_left _ (ownTexts_subset_block body s h)
    · exact List.subset_append_of_subset_right _ (ownTexts_subset_arms rest s h)

end

theorem values_casesOf (arms : List (String × List Statement)) :
    (casesOf arms).map (·.1) ⊆ arms.map (·.1) := by
  induction arms with
  | nil => exact List.Subset.refl _
  | cons arm rest ih =>
    obtain ⟨p, body⟩ := arm
    unfold casesOf
    split
    · exact List.subset_cons_of_subset _ ih
    · exact List.cons_subset_cons _ ih

/-- **What holds of the texts of a statement holds of the texts of its step**, if an assignment keeps it
that writes a name and a value down as a command. -/
theorem templates_stepOf {P : String → Prop} (hassign : ∀ name value isLocal, P name → P value →
    P (assignmentCommand name value isLocal)) {s : Statement} (h : ∀ text ∈ s.ownTexts, P text) :
    ∀ text ∈ (stepOf s).templates, P text := by
  have command : ∀ head : StepHead, P head.command →
      ∀ text ∈ Step.templates (.command head), P text := by
    intro head hc text ht
    unfold Step.templates Step.texts at ht
    split at ht
    · simp [Step.conditions, Step.condition?, Step.caseValues] at ht
    · obtain rfl : text = head.command := by
        simpa [Step.commandText, Step.conditions, Step.condition?, Step.caseValues, Step.head] using ht
      exact hc
  cases s with
  | command text => exact command _ (h text List.mem_cons_self)
  | forLoop loopVariable items source body => exact command _ (h source List.mem_cons_self)
  | assignment name value isLocal =>
    exact command _ (hassign name value isLocal (h name List.mem_cons_self)
      (h value (List.mem_cons_of_mem _ List.mem_cons_self)))
  | conditional condition thenBlock elseBlock => cases elseBlock <;> exact h
  | whileLoop condition body => exact h
  | choice selector arms => exact fun text ht => h text (values_casesOf arms ht)

end Runbook.ShellFunction
