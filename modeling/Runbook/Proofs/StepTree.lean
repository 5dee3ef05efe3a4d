import Runbook.Step.Walk

/-!
# Induction over the step tree

A step holds other steps in its blocks. What follows from the children of a step to the step itself
holds of every step, and the walk over a tree comes to every child.
-/

namespace Runbook

namespace Step

/-! ## 1. Children -/

theorem mem_children_of_blocks {s c : Step} (label : String) {block : List Step}
    (hb : (label, block) ∈ s.blocks) (hc : c ∈ block) : c ∈ s.children := by
  unfold children
  exact List.mem_flatMap.mpr ⟨_, hb, hc⟩

theorem mem_children_then {h : StepHead} {c : Condition} {t : List Step}
    {el : Option (List Step)} {a : Option Action} {s : Step} (hs : s ∈ t) :
    s ∈ (Step.conditional h c t el a).children :=
  mem_children_of_blocks "then" (by simp [blocks]) hs

theorem mem_children_else {h : StepHead} {c : Condition} {t el : List Step} {a : Option Action}
    {s : Step} (hs : s ∈ el) : s ∈ (Step.conditional h c t (some el) a).children :=
  mem_children_of_blocks "else" (by simp [blocks]) hs

theorem mem_children_case {h : StepHead} {v : String} {cases : List (String × List Step)}
    {d : Option (List Step)} {entry : String × List Step} (he : entry ∈ cases) {s : Step}
    (hs : s ∈ entry.2) : s ∈ (Step.branch h v cases d).children :=
  mem_children_of_blocks (caseLabel entry.1)
    (by simp only [blocks, List.mem_append, List.mem_map]; exact Or.inl ⟨entry, he, rfl⟩) hs

theorem mem_children_default {h : StepHead} {v : String} {cases : List (String × List Step)}
    {d : List Step} {s : Step} (hs : s ∈ d) : s ∈ (Step.branch h v cases (some d)).children :=
  mem_children_of_blocks "default" (by simp [blocks]) hs

theorem mem_children_body {h : StepHead} {c : Condition} {body : List Step} {s : Step}
    (hs : s ∈ body) : s ∈ (Step.loop h c body).children :=
  mem_children_of_blocks "loop" (by simp [blocks]) hs

/-! ## 2. Induction -/

/-- A block is smaller than the step that holds it. -/
theorem sizeOf_lt_of_mem_blocks {s : Step} {label : String} {block : List Step}
    (h : (label, block) ∈ s.blocks) : sizeOf block < sizeOf s := by
  cases s with
  | command hd => cases h
  | auth hd => cases h
  | conditional hd c t el a =>
    cases el with
    | none =>
      simp only [blocks, List.mem_singleton, Prod.mk.injEq] at h
      obtain ⟨-, rfl⟩ := h
      simp only [conditional.sizeOf_spec]
      omega
    | some el =>
      simp only [blocks, List.mem_cons, Prod.mk.injEq, List.not_mem_nil, or_false] at h
      simp only [conditional.sizeOf_spec, Option.some.sizeOf_spec]
      rcases h with ⟨-, rfl⟩ | ⟨-, rfl⟩ <;> omega
  | branch hd v cs d =>
    simp only [blocks, List.mem_append, List.mem_map, Prod.mk.injEq] at h
    simp only [branch.sizeOf_spec]
    rcases h with ⟨⟨w, b⟩, he, -, rfl⟩ | h
    · have hlt : sizeOf (w, b) < sizeOf cs := List.sizeOf_lt_of_mem he
      simp only [Prod.mk.sizeOf_spec] at hlt
      show sizeOf b < _
      omega
    · cases d with
      | none => cases h
      | some d =>
        simp only [List.mem_singleton, Prod.mk.injEq] at h
        obtain ⟨-, rfl⟩ := h
        simp only [Option.some.sizeOf_spec]
        omega
  | loop hd c body =>
    simp only [blocks, List.mem_singleton, Prod.mk.injEq] at h
    obtain ⟨-, rfl⟩ := h
    simp only [loop.sizeOf_spec]
    omega

/-- A child is smaller than the step that holds it. -/
theorem sizeOf_lt_of_mem_children {s c : Step} (h : c ∈ s.children) : sizeOf c < sizeOf s := by
  unfold children at h
  obtain ⟨⟨label, block⟩, hb, hc⟩ := List.mem_flatMap.mp h
  exact Nat.lt_trans (List.sizeOf_lt_of_mem hc) (sizeOf_lt_of_mem_blocks hb)

/-- **What follows from the children of a step to the step itself holds of every step.** -/
theorem childInduction {P : Step → Prop} (h : ∀ s : Step, (∀ c ∈ s.children, P c) → P s)
    (s : Step) : P s :=
  h s fun c _ => childInduction h c
termination_by sizeOf s
decreasing_by exact sizeOf_lt_of_mem_children ‹_›

/-! ## 3. The walk -/

theorem walkBlock_eq (block : List Step) : walkBlock block = block.flatMap walk := by
  induction block with
  | nil => simp [walkBlock]
  | cons s rest ih => simp [walkBlock, ih]

theorem mem_walkBlock {s : Step} {block : List Step} :
    s ∈ walkBlock block ↔ ∃ b ∈ block, s ∈ b.walk := by
  rw [walkBlock_eq, List.mem_flatMap]

theorem mem_walk {s t : Step} : t ∈ s.walk ↔ t = s ∨ ∃ c ∈ s.children, t ∈ c.walk := by
  rw [walk_eq, List.mem_cons, mem_walkBlock]

theorem mem_walk_self (s : Step) : s ∈ s.walk := mem_walk.mpr (Or.inl rfl)

theorem mem_walk_of_child {s c t : Step} (hc : c ∈ s.children) (ht : t ∈ c.walk) : t ∈ s.walk :=
  mem_walk.mpr (Or.inr ⟨c, hc, ht⟩)

/-- **What a step passes on to its children holds of every step of its walk.** -/
theorem forall_mem_walk {P : Step → Prop} (h : ∀ s, P s → ∀ c ∈ s.children, P c) {s : Step}
    (hs : P s) : ∀ t ∈ s.walk, P t := by
  induction s using childInduction with
  | h s ih =>
    intro t ht
    rcases mem_walk.mp ht with rfl | ⟨c, hc, ht⟩
    · exact hs
    · exact ih c hc (h s hs c hc) t ht

end Step

end Runbook
