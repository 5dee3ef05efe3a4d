import Mathlib.Data.List.Basic
import Runbook.Proofs.StepTree
import Runbook.Proofs.Text.Pieces
import Runbook.Template.Steps

/-!
# What resolving a text depends on

* `resolve_congr`: on the values of the names in the text and on nothing else;
* `resolve_of_closed`: a text without placeholders stays as it is;
* `Step.walk_resolve`: resolving a step resolves the steps of its walk, one by one;
* `Workflow.mem_placeholderNames`: a workflow depends on the names in the texts of its steps.
-/

namespace Runbook

theorem mem_distinct {α : Type} [DecidableEq α] {x : α} {xs : List α} :
    x ∈ distinct xs ↔ x ∈ xs := by
  unfold distinct
  suffices h : ∀ seen : List α,
      x ∈ xs.foldl (fun seen x => if x ∈ seen then seen else seen ++ [x]) seen ↔
        x ∈ seen ∨ x ∈ xs by
    simpa using h []
  induction xs with
  | nil => simp
  | cons y ys ih =>
    intro seen
    rw [List.foldl_cons, ih, List.mem_cons]
    by_cases hy : y ∈ seen
    · rw [if_pos hy]
      constructor
      · rintro (h | h)
        · exact Or.inl h
        · exact Or.inr (Or.inr h)
      · rintro (h | rfl | h)
        · exact Or.inl h
        · exact Or.inl hy
        · exact Or.inr h
    · rw [if_neg hy, List.mem_append, List.mem_singleton, or_assoc]

theorem nodup_distinct {α : Type} [DecidableEq α] (xs : List α) : (distinct xs).Nodup := by
  unfold distinct
  suffices h : ∀ seen : List α, seen.Nodup →
      (xs.foldl (fun seen x => if x ∈ seen then seen else seen ++ [x]) seen).Nodup from
    h [] List.nodup_nil
  induction xs with
  | nil => exact fun seen h => h
  | cons y ys ih =>
    intro seen h
    rw [List.foldl_cons]
    by_cases hy : y ∈ seen
    · rw [if_pos hy]
      exact ih seen h
    · rw [if_neg hy]
      exact ih _ (List.nodup_append.mpr
        ⟨h, by simp, fun x hx z hz e => hy (List.mem_singleton.mp hz ▸ e ▸ hx)⟩)

/-! ## 1. Texts -/

namespace Template

/-- The names of a text are those of its placeholders. -/
theorem mem_placeholderNames {text name : String} :
    name ∈ placeholderNames text ↔ ∃ source, .token name source ∈ placeholders text := by
  rw [placeholderNames, mem_distinct, Text.mem_tokens]

/-- **Resolving a text depends only on the values of the names in it.** -/
theorem resolve_congr {context context' : Context} {text : String}
    (h : ∀ name ∈ placeholderNames text, context.get? name = context'.get? name) :
    resolve context text = resolve context' text := by
  unfold resolve
  congr 1
  refine List.flatMap_congr fun piece hp => ?_
  cases piece with
  | plain c => rfl
  | token name source =>
    unfold resolvePiece
    dsimp only
    rw [h name (mem_placeholderNames.mpr ⟨source, hp⟩)]

/-- **A text without placeholders stays as it is.** -/
theorem resolve_of_closed (context : Context) {text : String} (h : placeholderNames text = []) :
    resolve context text = text := by
  have hsource : (placeholders text).flatMap (resolvePiece context) =
      (placeholders text).flatMap Text.Piece.source := by
    refine List.flatMap_congr fun piece hp => ?_
    cases piece with
    | plain c => rfl
    | token name source =>
      have hname : name ∈ placeholderNames text := mem_placeholderNames.mpr ⟨source, hp⟩
      rw [h] at hname
      cases hname
  unfold resolve
  rw [hsource, placeholders, Text.flatMap_source_pieces, String.ofList_toList]

end Template

/-! ## 2. Steps -/

namespace StepHead

-- by unfolding first: a comparison of the heads as they stand goes into their texts
theorem resolve_name (c : Context) (h : StepHead) : (h.resolve c).name = h.name := by
  unfold resolve
  rfl

theorem resolve_requireApproval (c : Context) (h : StepHead) :
    (h.resolve c).requireApproval = h.requireApproval := by
  unfold resolve
  rfl

theorem resolve_continueOnError (c : Context) (h : StepHead) :
    (h.resolve c).continueOnError = h.continueOnError := by
  unfold resolve
  rfl

end StepHead

namespace Step

theorem resolveBlock_eq (context : Context) (block : List Step) :
    resolveBlock context block = block.map (resolve context) := by
  induction block with
  | nil => rfl
  | cons s rest ih =>
    unfold resolveBlock
    rw [ih, List.map_cons]

theorem resolveCases_eq (context : Context) (cases : List (String × List Step)) :
    resolveCases context cases =
      cases.map fun entry =>
        (Template.resolve context entry.1, entry.2.map (resolve context)) := by
  induction cases with
  | nil => rfl
  | cons entry rest ih =>
    obtain ⟨v, block⟩ := entry
    unfold resolveCases
    rw [ih, resolveBlock_eq, List.map_cons]

/-- The children of a resolved step are its children, resolved. -/
theorem children_resolve (context : Context) (s : Step) :
    (s.resolve context).children = s.children.map (resolve context) := by
  cases s with
  | command h => rfl
  | auth h => rfl
  | conditional h c t el a =>
    cases el <;> simp [resolve, children, blocks, resolveBlock_eq]
  | branch h v cs d =>
    cases d <;> simp [resolve, children, blocks, resolveBlock_eq, resolveCases_eq,
      List.flatMap_map, List.map_flatMap]
  | loop h c b => simp [resolve, children, blocks, resolveBlock_eq]

/-- **Resolving a step resolves the steps of its walk, one by one.** -/
theorem walk_resolve (context : Context) (s : Step) :
    (s.resolve context).walk = s.walk.map (resolve context) := by
  induction s using Step.childInduction with
  | h s ih =>
    rw [walk_eq, walk_eq s, List.map_cons, children_resolve, walkBlock_eq, walkBlock_eq,
      List.flatMap_map, List.map_flatMap]
    congr 1
    exact List.flatMap_congr ih

/-- The walk over a resolved block is the walk over the block, step by step resolved. -/
theorem walkBlock_resolve (context : Context) (block : List Step) :
    walkBlock (resolveBlock context block) = (walkBlock block).map (resolve context) := by
  rw [resolveBlock_eq, walkBlock_eq, walkBlock_eq, List.flatMap_map, List.map_flatMap]
  exact List.flatMap_congr fun s _ => walk_resolve context s

theorem commandText_resolve (context : Context) (s : Step) :
    (s.resolve context).commandText = Template.resolve context s.commandText := by
  cases s with
  | command h => rfl
  | auth h => rfl
  | conditional h c t el a => cases el <;> rfl
  | branch h v cs d => cases d <;> rfl
  | loop h c b => rfl

theorem condition?_resolve (context : Context) (s : Step) :
    (s.resolve context).condition? = s.condition?.map (Condition.resolve context) := by
  cases s with
  | command h => rfl
  | auth h => rfl
  | conditional h c t el a => cases el <;> rfl
  | branch h v cs d => cases d <;> rfl
  | loop h c b => rfl

theorem caseValues_resolve (context : Context) (s : Step) :
    (s.resolve context).caseValues = s.caseValues.map (Template.resolve context) := by
  cases s with
  | command h => rfl
  | auth h => rfl
  | conditional h c t el a => cases el <;> rfl
  | branch h v cs d => cases d <;> simp [resolve, caseValues, resolveCases_eq]
  | loop h c b => rfl

/-- The text of a step that is not empty is one of its templates. -/
theorem commandText_mem_templates {s : Step} (h : s.commandText ≠ "") :
    s.commandText ∈ s.templates := by
  unfold templates texts
  rw [if_neg h]
  exact List.mem_append_left _ (List.mem_append_left _ List.mem_cons_self)

theorem expression_mem_templates {s : Step} {c : Condition} (h : s.condition? = some c) :
    c.expression ∈ s.templates := by
  unfold templates texts conditions
  rw [h]
  exact List.mem_append_left _ (List.mem_append_right _ List.mem_cons_self)

theorem mem_templates_of_case {h : StepHead} {v : String} {cases : List (String × List Step)}
    {d : Option (List Step)} {entry : String × List Step} (he : entry ∈ cases) :
    entry.1 ∈ (Step.branch h v cases d).templates := by
  unfold templates
  exact List.mem_append_right _ (List.mem_map_of_mem he)

/-- The templates of a resolved step are its templates, resolved; a text that is empty then is none
of them any more. -/
theorem mem_templates_resolve {context : Context} {s : Step} {text : String}
    (h : text ∈ s.templates) : Template.resolve context text ∈ (s.resolve context).templates ∨
      Template.resolve context text = "" := by
  by_cases hempty : Template.resolve context text = ""
  · exact Or.inr hempty
  left
  unfold templates texts conditions at h ⊢
  rw [commandText_resolve, condition?_resolve, caseValues_resolve]
  rcases List.mem_append.mp h with h | h
  · rcases List.mem_append.mp h with h | h
    · refine List.mem_append_left _ (List.mem_append_left _ ?_)
      by_cases hc : s.commandText = ""
      · rw [if_pos hc] at h
        cases h
      · rw [if_neg hc, List.mem_singleton] at h
        rw [h] at hempty ⊢
        rw [if_neg hempty]
        exact List.mem_cons_self
    · refine List.mem_append_left _ (List.mem_append_right _ ?_)
      rw [List.mem_map] at h ⊢
      obtain ⟨c, hc, rfl⟩ := h
      refine ⟨c.resolve context, ?_, rfl⟩
      rw [Option.mem_toList] at hc ⊢
      exact Option.mem_map_of_mem _ hc
  · exact List.mem_append_right _ (List.mem_map_of_mem h)

end Step

/-! ## 3. Workflows -/

namespace Workflow

/-- **A workflow depends on the names in the templates of its steps.** -/
theorem mem_placeholderNames {w : Workflow} {name : String} :
    name ∈ w.placeholderNames ↔
      ∃ s ∈ w.allSteps, ∃ text ∈ s.templates, name ∈ Template.placeholderNames text := by
  unfold placeholderNames
  rw [mem_distinct, List.mem_flatMap]
  constructor
  · rintro ⟨text, htext, hname⟩
    obtain ⟨s, hs, htext⟩ := List.mem_flatMap.mp htext
    exact ⟨s, hs, text, htext, mem_distinct.mpr hname⟩
  · rintro ⟨s, hs, text, htext, hname⟩
    exact ⟨text, List.mem_flatMap.mpr ⟨s, hs, htext⟩, mem_distinct.mp hname⟩

theorem allSteps_resolve (context : Context) (w : Workflow) :
    (w.resolve context).allSteps = w.allSteps.map (Step.resolve context) :=
  Step.walkBlock_resolve context w.steps

end Workflow

end Runbook
