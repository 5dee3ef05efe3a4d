import Runbook.Proofs.StepTree.Places
import Runbook.Proofs.Template

/-!
# Which names a workflow depends on

The names of a workflow are gathered by one walk, and its texts are resolved by another one. They look
at the same texts:

* `Step.at?_resolve`: what stands at a place of a resolved tree;
* `Template.resolve_put_ne`: every name of a text matters to what the text is resolved to;
* `Workflow.DependsExactlyOn`, **`Workflow.placeholderNames_exact`**: the names that are gathered are
  enough, each of them is needed, and none is there twice.
-/

namespace Runbook

/-! ## 1. Places in a resolved tree -/

namespace Step

theorem below?_resolve (context : Context) (s : Step) (place : List Nat) :
    (s.resolve context).below? place = (s.below? place).map (resolve context) := by
  induction place generalizing s with
  | nil => rfl
  | cons i place ih =>
    unfold below?
    rw [children_resolve, List.getElem?_map]
    cases s.children[i]? with
    | none => rfl
    | some c => exact ih c

/-- **At a place of a resolved tree stands what stands there in the tree, resolved.** -/
theorem at?_resolve (context : Context) (w : Workflow) (place : List Nat) :
    at? (w.resolve context).steps place = (at? w.steps place).map (resolve context) := by
  show at? (resolveBlock context w.steps) place = _
  rw [resolveBlock_eq]
  cases place with
  | nil => rfl
  | cons i place =>
    rw [at?_cons, at?_cons, List.getElem?_map]
    cases w.steps[i]? with
    | none => rfl
    | some s => exact below?_resolve context s place

theorem conditions_resolve (context : Context) (s : Step) :
    (s.resolve context).conditions = s.conditions.map (Template.resolve context) := by
  unfold conditions
  rw [condition?_resolve]
  cases s.condition? <;> rfl

/-- What a run goes by at a step: its command, its condition and the values of its cases. -/
def runTexts (s : Step) : String × List String × List String :=
  (s.commandText, s.conditions, s.caseValues)

theorem runTexts_resolve (context : Context) (s : Step) :
    (s.resolve context).runTexts = (Template.resolve context s.commandText,
      s.conditions.map (Template.resolve context), s.caseValues.map (Template.resolve context)) := by
  unfold runTexts
  rw [commandText_resolve, conditions_resolve, caseValues_resolve]

end Step

/-! ## 2. Names that matter -/

namespace Template

theorem length_flatMap_lt {α β : Type} {f g : α → List β} {xs : List α} {x : α} (hx : x ∈ xs)
    (hle : ∀ y, (f y).length ≤ (g y).length) (hlt : (f x).length < (g x).length) :
    (xs.flatMap f).length < (xs.flatMap g).length := by
  have hall : ∀ ys : List α, (ys.flatMap f).length ≤ (ys.flatMap g).length := by
    intro ys
    induction ys with
    | nil => exact Nat.le_refl 0
    | cons y ys ih =>
      rw [List.flatMap_cons, List.flatMap_cons, List.length_append, List.length_append]
      exact Nat.add_le_add (hle y) ih
  obtain ⟨front, back, rfl⟩ := List.append_of_mem hx
  have hfront := hall front
  have hback := hall back
  simp only [List.flatMap_append, List.flatMap_cons, List.length_append]
  omega

/-- **Every name of a text matters**: with one character for it the text comes out longer than with
none. -/
theorem resolve_put_ne (context : Context) {text name : String} (h : name ∈ placeholderNames text) :
    resolve (context.put name "") text ≠ resolve (context.put name "x") text := by
  obtain ⟨source, hsource⟩ := mem_placeholderNames.mp h
  have hle : ∀ piece, (resolvePiece (context.put name "") piece).length ≤
      (resolvePiece (context.put name "x") piece).length := by
    intro piece
    cases piece with
    | plain c => exact Nat.le_refl 1
    | token other written =>
      unfold resolvePiece
      simp only [Assoc.get?_put]
      by_cases hother : name = other
      · simp [hother]
      · simp [hother]
  have hlt := length_flatMap_lt hsource hle (by simp [resolvePiece])
  intro he
  unfold resolve at he
  rw [String.ofList_inj.mp he] at hlt
  exact Nat.lt_irrefl _ hlt

end Template

/-! ## 3. Workflows -/

namespace Workflow

/-- **A workflow depends on names and on no others**: two contexts that agree on them resolve its tree
to the same texts at every place; for each of them, whatever the others are bound to, two contexts that
differ in nothing else resolve some text of the tree differently; and none of them is there twice. -/
structure DependsExactlyOn (w : Workflow) (names : List String) : Prop where
  enough : ∀ c c' : Context, (∀ name ∈ names, c.get? name = c'.get? name) → ∀ place,
    (Step.at? (w.resolve c).steps place).map Step.runTexts =
      (Step.at? (w.resolve c').steps place).map Step.runTexts
  needed : ∀ name ∈ names, ∀ base : Context, ∃ c c' : Context,
    (∀ other, other ≠ name → c.get? other = base.get? other ∧ c'.get? other = base.get? other) ∧
    ∃ place s s', Step.at? (w.resolve c).steps place = some s ∧
      Step.at? (w.resolve c').steps place = some s' ∧
      (s.commandText ≠ s'.commandText ∨ s.conditions ≠ s'.conditions ∨ s.caseValues ≠ s'.caseValues)
  once : names.Nodup

/-- The names of every text that a run goes by are names of the workflow. -/
theorem mem_placeholderNames_of_runText {w : Workflow} {s : Step} (hs : s ∈ w.allSteps)
    {text : String} (ht : text = s.commandText ∨ text ∈ s.conditions ∨ text ∈ s.caseValues)
    {name : String} (hname : name ∈ Template.placeholderNames text) : name ∈ w.placeholderNames := by
  refine mem_placeholderNames.mpr ⟨s, hs, text, ?_, hname⟩
  rcases ht with rfl | ht | ht
  · refine Step.commandText_mem_templates ?_
    intro hempty
    rw [hempty] at hname
    cases hname
  · exact List.mem_append_left _ (List.mem_append_right _ ht)
  · exact List.mem_append_right _ ht

/-- Contexts that agree on the names of a workflow resolve its texts alike. -/
theorem runTexts_congr {w : Workflow} {c c' : Context}
    (h : ∀ name ∈ w.placeholderNames, c.get? name = c'.get? name) {s : Step} (hs : s ∈ w.allSteps) :
    (s.resolve c).runTexts = (s.resolve c').runTexts := by
  have htext : ∀ text, (text = s.commandText ∨ text ∈ s.conditions ∨ text ∈ s.caseValues) →
      Template.resolve c text = Template.resolve c' text :=
    fun text ht => Template.resolve_congr fun name hname =>
      h name (mem_placeholderNames_of_runText hs ht hname)
  rw [Step.runTexts_resolve, Step.runTexts_resolve, htext s.commandText (Or.inl rfl),
    List.map_congr_left fun text ht => htext text (Or.inr (Or.inl ht)),
    List.map_congr_left fun text ht => htext text (Or.inr (Or.inr ht))]

/-- A name of a step's templates changes one of the texts that a run goes by. -/
theorem exists_runText_ne {s : Step} {text name : String} (ht : text ∈ s.templates)
    (hname : name ∈ Template.placeholderNames text) (base : Context) :
    (s.resolve (base.put name "")).commandText ≠ (s.resolve (base.put name "x")).commandText ∨
      (s.resolve (base.put name "")).conditions ≠ (s.resolve (base.put name "x")).conditions ∨
      (s.resolve (base.put name "")).caseValues ≠ (s.resolve (base.put name "x")).caseValues := by
  have hne := Template.resolve_put_ne base hname
  have hmap : ∀ {texts : List String}, text ∈ texts →
      texts.map (Template.resolve (base.put name "")) ≠
        texts.map (Template.resolve (base.put name "x")) :=
    fun hm he => hne (List.map_inj_left.mp he text hm)
  rw [Step.commandText_resolve, Step.commandText_resolve, Step.conditions_resolve,
    Step.conditions_resolve, Step.caseValues_resolve, Step.caseValues_resolve]
  rcases List.mem_append.mp ht with ht | ht
  · rcases List.mem_append.mp ht with ht | ht
    · left
      split at ht
      · cases ht
      · obtain rfl := List.mem_singleton.mp ht
        exact hne
    · exact Or.inr (Or.inl (hmap ht))
  · exact Or.inr (Or.inr (hmap ht))

/-- **The names that are gathered from a workflow are exactly those that it depends on.** -/
theorem placeholderNames_exact (w : Workflow) : w.DependsExactlyOn w.placeholderNames where
  enough c c' h place := by
    rw [Step.at?_resolve, Step.at?_resolve]
    cases hs : Step.at? w.steps place with
    | none => rfl
    | some s =>
      exact congrArg some (runTexts_congr h (Step.mem_walkBlock_iff_at?.mpr ⟨place, hs⟩))
  needed name hname base := by
    obtain ⟨s, hs, text, ht, hname⟩ := mem_placeholderNames.mp hname
    obtain ⟨place, hplace⟩ := Step.mem_walkBlock_iff_at?.mp hs
    refine ⟨base.put name "", base.put name "x", fun other hother => ⟨?_, ?_⟩, place, _, _,
      ?_, ?_, exists_runText_ne ht hname base⟩
    · exact Assoc.get?_put_of_ne base "" (Ne.symm hother)
    · exact Assoc.get?_put_of_ne base "x" (Ne.symm hother)
    · rw [Step.at?_resolve, hplace]
      rfl
    · rw [Step.at?_resolve, hplace]
      rfl
  once := nodup_distinct _

end Workflow

end Runbook
