import Mathlib.Data.List.Find
import Runbook.Proofs.Run.Rules
import Runbook.Proofs.ShellFunction.Texts
import Runbook.Proofs.Template.Closed

/-!
# The steps of statements

What is needed of converted steps where a run comes to them:

* `Plain`: texts without placeholders; `placeholderNames_of_plain`: the workflow of statements without
  placeholders depends on no name;
* `blockOfCase_eq`: a branch goes into the block of the body that the choice goes into;
* `stepOf_leaf`, `stepOf_conditional`, `stepOf_branch`, `stepOf_loop`: which statement a step comes from.
-/

namespace Runbook.ShellFunction

open Template

variable {σ : Type}

/-! ## 1. Statements without placeholders -/

/-- Texts none of which has a placeholder. -/
def Plain (texts : List String) : Prop := ∀ text ∈ texts, placeholderNames text = []

namespace Plain

theorem cons {text : String} {texts : List String} :
    Plain (text :: texts) ↔ placeholderNames text = [] ∧ Plain texts := List.forall_mem_cons

theorem append {texts more : List String} :
    Plain (texts ++ more) ↔ Plain texts ∧ Plain more := List.forall_mem_append

theorem flatMap {α : Type} {xs : List α} {f : α → List String} :
    Plain (xs.flatMap f) ↔ ∀ x ∈ xs, Plain (f x) := by
  simp only [Plain, List.mem_flatMap]
  grind

end Plain

theorem textsOfArms_eq (arms : List (String × List Statement)) :
    textsOfArms arms = arms.flatMap fun arm => arm.1 :: textsOfBlock arm.2 := by
  induction arms with
  | nil => rfl
  | cons arm rest ih =>
    obtain ⟨p, body⟩ := arm
    unfold textsOfArms
    rw [ih, List.flatMap_cons, List.cons_append]

/-- The command of an assignment has placeholders only where its name or its value has some. -/
theorem placeholderNames_assignmentCommand {name value : String} (isLocal : Bool)
    (hn : placeholderNames name = []) (hv : placeholderNames value = []) :
    placeholderNames (assignmentCommand name value isLocal) = [] := by
  have hname : Closed name.toList := closed_toList.mpr hn
  have hvalue : Closed value.toList := closed_toList.mpr hv
  refine closed_toList.mp ?_
  unfold assignmentCommand
  by_cases h : value = ""
  · rw [if_pos h, String.toList_append]
    refine .behind ?_ hname
    cases isLocal <;> decide
  · have hquoted : Closed ('"' :: (value.toList ++ ['"'])) :=
      closed_nil.join (hvalue.join closed_nil (by decide)) (by decide)
    rw [if_neg h]
    simpa using hname.join hquoted (c := '=') (by decide)

theorem plain_nil : Plain [] := fun _ h => by cases h

/-- A workflow of converted statements depends on no name where the statements have no placeholder. -/
theorem placeholderNames_of_plain {w : Workflow} {block : List Statement}
    (hw : w.steps = stepsOf block) (h : Plain (textsOfBlock block)) : w.placeholderNames = [] := by
  refine List.eq_nil_iff_forall_not_mem.mpr fun name hname => ?_
  obtain ⟨x, hx, text, ht, hn⟩ := Workflow.mem_placeholderNames.mp hname
  rw [Workflow.allSteps, hw] at hx
  obtain ⟨s, hs, rfl⟩ := mem_walk_stepsOf block x hx
  have hplain := templates_stepOf (P := fun text => placeholderNames text = [])
    (fun _ _ isLocal => placeholderNames_assignmentCommand isLocal)
    (fun text ht => h text (ownTexts_subset_block block s hs ht)) text ht
  rw [hplain] at hn
  cases hn

/-! ## 2. The block of a choice -/

theorem fallbackOf_eq (arms : List (String × List Statement)) :
    fallbackOf arms = (standardBody? arms).map stepsOf := by
  unfold standardBody?
  induction arms with
  | nil => rfl
  | cons arm rest ih =>
    obtain ⟨p, body⟩ := arm
    unfold fallbackOf
    rw [ih]
    by_cases hany : p = anyValue
    · rw [List.filter_cons_of_pos (by simpa using hany), List.getLast?_cons]
      cases (rest.filter fun arm => decide (arm.1 = anyValue)).getLast? <;> simp [hany]
    · rw [List.filter_cons_of_neg (by simpa using hany)]
      cases (rest.filter fun arm => decide (arm.1 = anyValue)).getLast? <;> simp [hany]

/-- The block that the branch of a choice goes into is that of the body of an arm, with the values of
names put into its pattern, or that of the arm of any value. -/
theorem blockOfCase_casesOf (context : Context) (value : String)
    (arms : List (String × List Statement)) :
    (Step.blockOfCase context value (fallbackOf arms) (casesOf arms)).2 =
      stepsOf ((((arms.find? fun arm => arm.1 ≠ anyValue ∧ resolve context arm.1 = value).map
        (·.2)).or (standardBody? arms)).getD []) := by
  rw [fallbackOf_eq]
  generalize standardBody? arms = standard
  induction arms with
  | nil => cases standard <;> rfl
  | cons arm rest ih =>
    obtain ⟨p, body⟩ := arm
    unfold casesOf
    by_cases hany : p = anyValue
    · rw [if_pos hany, ih, List.find?_cons_of_neg (by simp [hany])]
    · rw [if_neg hany, Step.blockOfCase]
      by_cases hv : resolve context p = value
      · rw [if_pos hv, List.find?_cons_of_pos (by simp [hv, hany])]
        rfl
      · rw [if_neg hv, ih, List.find?_cons_of_neg (by simp [hv])]

/-- **The branch of a choice goes into the block of the body that the choice goes into.** -/
theorem blockOfCase_eq (context : Context) (value : String)
    {arms : List (String × List Statement)} (h : Plain (textsOfArms arms)) :
    (Step.blockOfCase context value (fallbackOf arms) (casesOf arms)).2 =
      stepsOf (chosen value arms) := by
  have hplain : ∀ arm ∈ arms, resolve context arm.1 = arm.1 := fun arm harm =>
    resolve_of_closed context (h arm.1 (mem_textsOfArms harm))
  have hfind : (arms.find? fun arm => arm.1 ≠ anyValue ∧ resolve context arm.1 = value) =
      arms.find? fun arm => arm.1 ≠ anyValue ∧ arm.1 = value :=
    List.find?_congr fun arm harm => by rw [hplain arm harm]
  rw [blockOfCase_casesOf, hfind]
  unfold chosen
  cases arms.find? fun arm => arm.1 ≠ anyValue ∧ arm.1 = value <;> rfl

/-! ## 3. Which statement a step comes from -/

theorem stepOf_leaf {e : Engine σ} {x : Statement} (hk : (stepOf x).kind.isControlFlow = false)
    (hp : Plain x.texts) :
    (stepOf x).kind = .command ∧ placeholderNames (stepOf x).head.command = [] ∧
      ∀ (rest : List Statement) acts s, Interpretation.advance e ⟨x :: rest, acts, none, s⟩ =
        Interpretation.spawning e (stepOf x).head.command rest ⟨x :: rest, acts, none, s⟩ := by
  cases x with
  | command text => exact ⟨rfl, hp text (by simp [Statement.texts]), fun _ _ _ => rfl⟩
  | forLoop loopVariable items source body =>
    exact ⟨rfl, hp source (by simp [Statement.texts]), fun _ _ _ => rfl⟩
  | assignment name value isLocal =>
    exact ⟨rfl, placeholderNames_assignmentCommand isLocal (hp name (by simp [Statement.texts]))
      (hp value (by simp [Statement.texts])), fun _ _ _ => rfl⟩
  | conditional condition thenBlock elseBlock => cases elseBlock <;> cases hk
  | choice selector arms => cases hk
  | whileLoop condition body => cases hk

theorem stepOf_conditional {x : Statement} {hd : StepHead} {c : Condition} {t : List Step}
    {el : Option (List Step)} {a : Option Action} (h : stepOf x = .conditional hd c t el a) :
    ∃ condition thenBlock elseBlock, x = .conditional condition thenBlock elseBlock ∧
      c = ⟨condition, none⟩ ∧ a = none ∧ ∀ holds, (Step.blockFor holds t el).2 =
        stepsOf (if holds then thenBlock else elseBlock.getD []) := by
  cases x with
  | conditional condition thenBlock elseBlock =>
    cases elseBlock with
    | none =>
      cases h
      exact ⟨_, _, _, rfl, rfl, rfl, fun holds => by cases holds <;> rfl⟩
    | some elseBlock =>
      cases h
      exact ⟨_, _, _, rfl, rfl, rfl, fun holds => by cases holds <;> rfl⟩
  | command | choice | forLoop | whileLoop | assignment => cases h

theorem stepOf_branch {x : Statement} {hd : StepHead} {selector : String}
    {cs : List (String × List Step)} {d : Option (List Step)}
    (h : stepOf x = .branch hd selector cs d) :
    ∃ arms, x = .choice selector arms ∧ cs = casesOf arms ∧ d = fallbackOf arms := by
  cases x with
  | choice selector arms =>
    cases h
    exact ⟨arms, rfl, rfl, rfl⟩
  | conditional condition thenBlock elseBlock => cases elseBlock <;> cases h
  | command | forLoop | whileLoop | assignment => cases h

theorem stepOf_loop {x : Statement} {hd : StepHead} {c : Condition} {b : List Step}
    (h : stepOf x = .loop hd c b) :
    ∃ condition body, x = .whileLoop condition body ∧ c = ⟨condition, none⟩ ∧
      b = stepsOf body := by
  cases x with
  | whileLoop condition body =>
    cases h
    exact ⟨condition, body, rfl, rfl, rfl⟩
  | conditional condition thenBlock elseBlock => cases elseBlock <;> cases h
  | command | forLoop | choice | assignment => cases h

theorem requireApproval_stepOf (x : Statement) : (stepOf x).head.requireApproval = false := by
  cases x with
  | conditional condition thenBlock elseBlock => cases elseBlock <;> rfl
  | command | forLoop | choice | whileLoop | assignment => rfl

theorem plain_chosen (value : String) {arms : List (String × List Statement)}
    (h : Plain (textsOfArms arms)) : Plain (textsOfBlock (chosen value arms)) := by
  have hbody : ∀ arm ∈ arms, Plain (textsOfBlock arm.2) := by
    rw [textsOfArms_eq, Plain.flatMap] at h
    exact fun arm harm => (Plain.cons.mp (h arm harm)).2
  unfold chosen
  cases hf : arms.find? fun arm => arm.1 ≠ anyValue ∧ arm.1 = value with
  | some arm => exact hbody arm (List.mem_of_find?_eq_some hf)
  | none =>
    unfold standardBody?
    cases hl : (arms.filter fun arm => arm.1 = anyValue).getLast? with
    | none => exact plain_nil
    | some arm => exact hbody arm (List.mem_filter.mp (List.mem_of_getLast? hl)).1

theorem plain_singleton {x : Statement} : Plain (textsOfBlock [x]) ↔ Plain x.texts := by
  rw [textsOfBlock, textsOfBlock, List.append_nil]

theorem plain_blockFor {condition : String} {thenBlock : List Statement}
    {elseBlock : Option (List Statement)}
    (h : Plain (Statement.conditional condition thenBlock elseBlock).texts) :
    placeholderNames condition = [] ∧
      ∀ holds, Plain (textsOfBlock (if holds = true then thenBlock else elseBlock.getD [])) := by
  cases elseBlock with
  | none =>
    obtain ⟨hc, ht⟩ := Plain.cons.mp h
    exact ⟨hc, fun holds => by cases holds with
      | true => exact ht
      | false => exact plain_nil⟩
  | some elseBlock =>
    obtain ⟨hc, hb⟩ := Plain.cons.mp h
    obtain ⟨ht, he⟩ := Plain.append.mp hb
    exact ⟨hc, fun holds => by cases holds with
      | true => exact ht
      | false => exact he⟩

end Runbook.ShellFunction
