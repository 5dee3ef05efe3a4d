import Runbook.Proofs.Run.Record
import Runbook.Proofs.Run.Resolution
import Runbook.Proofs.Run.Screened

/-!
# Runs stay inside the step tree

Every check of a workflow walks its step tree, and a run goes through the tree by itself. This file
says that they look at the same steps, and where a run takes its texts from:

* `Occurrence.Enters`: the blocks that a run may go into at a step, under their labels;
* `Located`: an occurrence at the end of a way down the tree, with the parts of its path;
* `Runs.located`: every turn of a run is at such an occurrence;
* `Runs.start_context`: nothing is captured between the coming to a command and its start;
* `Executor.Covered`, **`runWorkflow_covered`**: what this says of whole runs.
-/

namespace Runbook

variable {σ : Type}

/-! ## 1. Ways down the tree -/

/-- The block of a conditional, unless it is empty, is one of its blocks. -/
theorem Step.mem_blocks_of_blockFor {hd : StepHead} {c : Condition} {t : List Step}
    {el : Option (List Step)} {a : Option Action} {holds : Bool} {x : Step}
    (hx : x ∈ (Step.blockFor holds t el).2) :
    Step.blockFor holds t el ∈ (Step.conditional hd c t el a).blocks := by
  cases holds with
  | true => exact List.mem_cons_self
  | false =>
    cases el with
    | none => cases hx
    | some el => exact List.mem_cons_of_mem _ List.mem_cons_self

/-- The block of a branch, unless it is empty, is one of its blocks once its values are resolved. -/
theorem Step.mem_blocks_of_blockOfCase {hd : StepHead} {v : String} {context : Context}
    {value : String} {cases : List (String × List Step)} {d : Option (List Step)} {x : Step}
    (hx : x ∈ (Step.blockOfCase context value d cases).2) :
    Step.blockOfCase context value d cases ∈
      ((Step.branch hd v cases d).resolveSelf context).blocks := by
  show _ ∈ List.map _ (List.map _ cases) ++ _
  rcases Step.blockOfCase_cases context value d cases with ⟨entry, he, hv, hr⟩ | hr
  · rw [hr, List.map_map]
    exact List.mem_append_left _ (List.mem_map.mpr ⟨entry, he, by rw [← hv]; rfl⟩)
  · rw [hr] at hx ⊢
    cases d with
    | none => cases hx
    | some d => exact List.mem_append_right _ List.mem_cons_self

/-- **The blocks that a run may go into** at a step that it has come to: those that a walk over the tree
sees, under the same labels. Values of cases are resolved for the values that hold when the run comes
to the step, and the body of a loop stands under the number of the iteration. -/
inductive Occurrence.Enters (o : Occurrence σ) : String → List Step → Prop
  | block {label : String} {block : List Step} (hk : o.step.kind ≠ .loop)
      (hb : (label, block) ∈ (o.step.resolveSelf o.state.context).blocks) :
      Enters o label block
  | iteration (k : Nat) {body : List Step} (hk : o.step.kind = .loop)
      (hb : ("loop", body) ∈ (o.step.resolveSelf o.state.context).blocks) :
      Enters o (iterationLabel (k + 1)) body

/-- **An occurrence at the end of a way down the tree**, inside the occurrences on the way, with the
names of steps and the labels of blocks along it. -/
inductive Located (steps : List Step) :
    Occurrence σ → List (Occurrence σ) → List String → Prop
  | top {o : Occurrence σ} (hs : o.step ∈ steps) (ha : o.above = "") (ht : o.top = true) :
      Located steps o [] [o.step.name]
  | inner {o p : Occurrence σ} {around : List (Occurrence σ)} {parts : List String}
      {label : String} {block : List Step} (hp : Located steps p around parts)
      (he : p.Enters label block) (hs : o.step ∈ block) (ha : o.above = blockPath p.path label)
      (ht : o.top = false) : Located steps o (p :: around) (parts ++ [label, o.step.name])

namespace Located

variable {steps : List Step} {o : Occurrence σ} {around : List (Occurrence σ)}
  {parts : List String}

theorem ne_nil (h : Located steps o around parts) : parts ≠ [] := by
  cases h <;> simp

/-- **The path of an occurrence is made of the names and labels on the way to it.** -/
theorem path_eq (h : Located steps o around parts) : o.path = "/".intercalate parts := by
  induction h with
  | top hs ha ht =>
    unfold Occurrence.path stepPath
    rw [if_pos ha, String.intercalate_singleton]
  | @inner o p around parts label block hp he hs ha ht ih =>
    have hne : o.above ≠ "" := by
      rw [ha]
      unfold blockPath
      intro h
      have hl := congrArg String.length h
      simp at hl
    unfold Occurrence.path stepPath
    rw [if_neg hne, ha, blockPath, ih, String.intercalate_append_of_ne_nil hp.ne_nil (by simp),
      String.intercalate_cons_cons, String.intercalate_singleton]
    simp only [String.append_assoc]

/-- On the top level are the occurrences that are inside no other one. -/
theorem top_iff (h : Located steps o around parts) : o.top = true ↔ around = [] := by
  cases h with
  | top _ _ ht => simp [ht]
  | inner _ _ _ _ ht => simp [ht]

end Located

namespace Engine

variable {e : Engine σ} {around : List (Occurrence σ)} {act : Activity σ} {s s' : RunState σ}
  {ts : List (Turn σ)} {r : Except Signal Unit} {steps : List Step}

/-- All that an activity comes to itself is at the end of a way down the tree. -/
def LocatedIn (steps : List Step) (around : List (Occurrence σ)) : Activity σ → Prop
  | .step above top x => ∀ s, ∃ parts, Located steps ⟨above, top, x, s⟩ around parts
  | .block above top block =>
    ∀ x ∈ block, ∀ s, ∃ parts, Located steps ⟨above, top, x, s⟩ around parts
  | .inside o => ∃ parts, Located steps o around parts
  | .rounds o c body _ _ => (∃ parts, Located steps o around parts) ∧
      ∃ hd, o.step = .loop hd c body

theorem LocatedIn.block {o : Occurrence σ} {label : String} {block : List Step}
    (h : ∃ parts, Located steps o around parts) (he : ∀ x ∈ block, o.Enters label block) :
    LocatedIn steps (o :: around) (.block (blockPath o.path label) false block) := by
  intro x hx s
  obtain ⟨parts, h⟩ := h
  exact ⟨_, .inner h (he x hx) hx rfl rfl⟩

/-- **Wherever a run goes, it goes down the tree.** -/
theorem LocatedIn.leads {around' : List (Occurrence σ)} {act' : Activity σ}
    (h : LocatedIn steps around act) (hl : e.Leads around act around' act') :
    LocatedIn steps around' act' := by
  cases hl with
  | first => exact h _ List.mem_cons_self
  | later => exact fun x hx => h x (List.mem_cons_of_mem _ hx)
  | reached => exact h _
  | taken hs =>
    refine LocatedIn.block h fun x hx => .block (by rw [hs]; nofun) ?_
    rw [hs]
    exact Step.mem_blocks_of_blockFor hx
  | chosen hs =>
    refine LocatedIn.block h fun x hx => .block (by rw [hs]; nofun) ?_
    rw [hs]
    exact Step.mem_blocks_of_blockOfCase hx
  | looped hs => exact ⟨h, _, hs⟩
  | body =>
    obtain ⟨h, hd, hs⟩ := h
    refine LocatedIn.block h fun x hx => .iteration _ (by rw [hs]; rfl) ?_
    rw [hs]
    exact List.mem_cons_self
  | again => exact h

/-- **Every turn of a run is at the end of a way down the tree.** -/
theorem Runs.located (h : e.Runs around act s ts r s') (ha : LocatedIn steps around act) :
    ∀ t ∈ ts, ∃ parts, Located steps t.here t.around parts := by
  refine h.each (P := LocatedIn steps) LocatedIn.leads ?_ ha
  intro around act t ha ho
  cases ho with
  | reach => exact ha _
  | start => exact ha
  | decide => exact ha
  | act => exact ha
  | judge => exact ha.1
  | limit => exact ha.1
  | tire => exact ha.1

/-! ## 2. The values that hold -/

/-- What is done inside a step starts with the values that hold when the run comes to it. -/
def Fresh (s : RunState σ) : Activity σ → Prop
  | .step .. => True
  | .block .. => True
  | .inside o => s.context = o.state.context
  | .rounds .. => True

/-- **Between the coming to a command and its start no value changes.** -/
theorem Runs.start_context (h : e.Runs around act s ts r s') : Fresh s act →
    ∀ t ∈ ts, t.deed = .start → t.before.context = t.here.state.context := by
  induction h with
  | nil => exact fun _ t ht => absurd ht List.not_mem_nil
  | cons _ _ ihx ihr => exact fun _ => List.forall_mem_append.mpr ⟨ihx trivial, ihr trivial⟩
  | cut _ ih => exact fun _ => ih trivial
  | barred => exact fun _ => List.forall_mem_singleton.mpr nofun
  | @reached around above top x s s₁ s' ts r h inner ih =>
    have hs : s₁.context = s.context := by
      have hg := gate_context e x.kind (x.head.resolve s.context) (stepPath above x.name) top s
      have hp : e.gate x.kind (x.head.resolve s.context) (stepPath above x.name) top s =
        (.ok (), s₁) := h
      rw [hp] at hg
      exact hg
    exact fun _ => List.forall_mem_cons.mpr ⟨nofun, ih hs⟩
  | leaf => exact fun hf => List.forall_mem_singleton.mpr fun _ => hf
  | unjudged | tired | undecided | ceased => exact fun _ => List.forall_mem_singleton.mpr nofun
  | stopped _ _ _ ih => exact fun _ => List.forall_mem_cons.mpr ⟨nofun, ih trivial⟩
  | acted _ _ _ _ ih =>
    exact fun _ => List.forall_mem_cons.mpr ⟨nofun, List.forall_mem_append.mpr
      ⟨ih trivial, List.forall_mem_singleton.mpr nofun⟩⟩
  | chosen _ _ ih => exact fun _ => ih trivial
  | looped _ _ ih => exact fun _ => ih trivial
  | capped =>
    exact fun _ => List.forall_mem_cons.mpr ⟨nofun, List.forall_mem_singleton.mpr nofun⟩
  | left _ _ _ ih => exact fun _ => List.forall_mem_cons.mpr ⟨nofun, ih trivial⟩
  | ended _ _ _ _ ih => exact fun _ => List.forall_mem_cons.mpr ⟨nofun, ih trivial⟩
  | again _ _ _ _ ihb ihn =>
    exact fun _ => List.forall_mem_cons.mpr
      ⟨nofun, List.forall_mem_append.mpr ⟨ihb trivial, ihn trivial⟩⟩

/-- A turn that requests a test judges a condition, by that text. -/
theorem judge_of_tested {t : Turn σ} {text : String} (h : t.requests e = [.tested text]) :
    ∃ c, t.deed = .judge c ∧ text = judgedText c t.before.context := by
  unfold Turn.requests at h
  cases hd : t.deed with
  | judge c =>
    rw [hd] at h
    unfold testsFor at h
    dsimp only at h
    split at h
    · cases h
    · exact ⟨c, rfl, by simpa using h.symm⟩
  | reach =>
    rw [hd] at h
    dsimp only at h
    split at h <;> simp at h
  | start =>
    rw [hd] at h
    simp at h
  | act | limit | tire =>
    rw [hd] at h
    cases h

end Engine

/-! ## 3. Whole runs -/

namespace Executor

/-- **Where a run goes, and where it takes its texts from.**

* `spawned`: a text in the log of commands is the command of a step of the walk, resolved once, for
  the values that hold when it is started;
* `judged`, `tested`: a condition is that of a step of the walk, and it is judged by its text, resolved
  once for the values that hold then and read by the evaluator;
* `walked`, `named`: every turn is at a step of the walk, and its entry is named by the way there;
* `within`, `unbroken`: what happens at or inside a step happens in an execution of it, in one piece;
* `numbered`: an execution of a loop goes through its iterations with the numbers 1, 2, 3 and so on;
* `traced`, `reported`: the trace has the entries of the turns and no other, unless the workflow was
  turned down as a whole, and reports show it as it is. -/
structure Covered (x : Executor σ) (w : Workflow) (r : RunRequest) (world : σ) : Prop where
  spawned : ∀ before text after,
    (x.runWorkflow w r world).2.events = before ++ .spawned text :: after →
      ∃ t ∈ x.turns w r world, t.deed = .start ∧ t.before.events = before ∧
        t.here.step ∈ w.allSteps ∧ t.here.step.kind.isControlFlow = false ∧
        text = Template.resolve t.before.context t.here.step.commandText
  judged : ∀ t ∈ x.turns w r world, ∀ c, t.deed = .judge c →
    t.here.step ∈ w.allSteps ∧ t.here.step.condition? = some c ∧
    ((x.engineOf w r world).evaluate c t.before).1 =
      ((x.engineOf w r world).decide (Expression.substituteVariables t.before.context
        (Template.resolve t.before.context c.expression)) t.before).1
  tested : ∀ before text after,
    (x.runWorkflow w r world).2.events = before ++ .tested text :: after →
      ∃ t ∈ x.turns w r world, ∃ c, t.deed = .judge c ∧ t.before.events = before ∧
        t.here.step ∈ w.allSteps ∧ t.here.step.condition? = some c ∧
        text = Expression.substituteVariables t.before.context
          (Template.resolve t.before.context c.expression)
  walked : ∀ t ∈ x.turns w r world, t.here.step ∈ w.allSteps
  named : ∀ t ∈ x.turns w r world, ∃ parts, Located w.steps t.here t.around parts ∧
    ∀ entry ∈ t.entry? (x.engineOf w r world), entry.name = "/".intercalate parts
  within : ∀ t ∈ x.turns w r world, ∀ o around, o :: around <:+ t.here :: t.around →
    ∃ u ∈ x.turns w r world, u.deed = .reach ∧ u.here = o ∧ u.around = around ∧
      t ∈ u.execution (x.engineOf w r world)
  unbroken : ∀ past u later, x.turns w r world = past ++ u :: later → u.deed = .reach →
    u.execution (x.engineOf w r world) <+: u :: later
  numbered : ∀ u ∈ x.turns w r world, u.deed = .reach → ∀ hd c body,
    u.here.step = .loop hd c body → ∃ count its tail,
      u.execution (x.engineOf w r world) = u :: (its ++ tail) ∧
      Engine.Iterations (x.engineOf w r world) u.around u.here c body 0 count its ∧
      Engine.LoopEnd (x.engineOf w r world) u.around u.here c count tail
  traced : (x.runWorkflow w r world).2.trace =
      (x.turns w r world).filterMap (Turn.entry? (x.engineOf w r world)) ∨
    x.Answered w r world false ∧ (x.runWorkflow w r world).2.trace =
      [⟨w.name, .error (.notApproved .workflow w.name)⟩]
  reported : ∀ report ∈ (x.runWorkflow w r world).1.report?,
    report.trace = (x.runWorkflow w r world).2.trace

/-- A turn that judges a condition does so at a step with that condition. -/
theorem condition_of_judge {x : Executor σ} {w : Workflow} {r : RunRequest} {world : σ}
    {t : Turn σ} (ht : t ∈ x.turns w r world) {c : Condition} (hd : t.deed = .judge c) :
    t.here.step.condition? = some c := by
  have hp := (place_of_turn ht).2
  rw [hd] at hp
  cases hp with
  | judge _ hc => exact hc

/-- **Runs stay inside the step tree.** -/
theorem runWorkflow_covered (x : Executor σ) (w : Workflow) (r : RunRequest) (world : σ) :
    x.Covered w r world where
  spawned before text after he := by
    obtain ⟨t, ht, hb, hq⟩ := turn_of_request he rfl nofun
    obtain ⟨hd, -, htext⟩ := Turn.start_of_spawned (hq ▸ List.mem_singleton_self _)
    obtain ⟨hwalk, hp⟩ := place_of_turn ht
    obtain ⟨approved, s, hop, -⟩ := x.begins_of_turn w r world ht
    have hctx := (runs_of_begun hop).start_context trivial t ht hd
    rw [hd] at hp
    cases hp with
    | start hk => exact ⟨t, ht, hd, hb, hwalk, hk, by rw [htext, hctx]; rfl⟩
  judged t ht c hd := by
    refine ⟨(place_of_turn ht).1, condition_of_judge ht hd, ?_⟩
    rw [Engine.evaluate_apply, Engine.judgedText]
    rcases (x.engineOf w r world).decide _ t.before with ⟨result, s'⟩
    cases result <;> rfl
  tested before text after he := by
    obtain ⟨t, ht, hb, hq⟩ := turn_of_request he rfl nofun
    obtain ⟨c, hd, htext⟩ := Engine.judge_of_tested hq
    exact ⟨t, ht, c, hd, hb, (place_of_turn ht).1, condition_of_judge ht hd, htext⟩
  walked t ht := (place_of_turn ht).1
  named t ht := by
    obtain ⟨approved, s, hop, -⟩ := x.begins_of_turn w r world ht
    obtain ⟨parts, hl⟩ := (runs_of_begun hop).located
      (fun x hx s => ⟨[x.name], .top hx rfl rfl⟩) t ht
    exact ⟨parts, hl, fun entry he => (Engine.name_of_entry he).trans hl.path_eq⟩
  within _ ht _ _ ha := execution_of_turn ht ha
  unbroken _ _ _ hts hd := execution_unbroken hts hd
  numbered u hu hd head c body hs := by
    have hb := Engine.state_eq_before (place_of_turn hu).2 hd
    exact Engine.execution_of_loop _ hs hd hb
  traced := x.trace_cases w r world
  reported report hr := (report_eq hr).1

end Executor

end Runbook
