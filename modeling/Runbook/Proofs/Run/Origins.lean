import Runbook.Proofs.Definition.Stores
import Runbook.Proofs.Definition.WorkflowRoundTrip
import Runbook.Proofs.Run.Leaving
import Runbook.Proofs.ShellFunction.ConvertedSteps
import Runbook.ShellFunction.Conversion

/-!
# Where workflows come from

What is checked once where a workflow is made holds of every workflow there is:

* `Workflow.Obtained`: the workflows that definitions, stores and shell functions give, and what
  becomes of them by resolving, declaring, adding profiles and counting uses;
* `proper_of_stored`, `proper_of_converted`, `proper_resolve`: a step that holds others has no command
  text, and an action that leaves the run has an exit code, whoever made the step;
* `Executor.exists_exitCode`: a run of such steps that returns has an exit code;
* **`Workflow.Obtained.wellBehaved`**.
-/

namespace Runbook

/-! ## 1. Workflows -/

/-- **A workflow that can be had.** -/
inductive Workflow.Obtained : Workflow → Prop
  | defined {now : Int} {w : Workflow} (h : w.IsDefined now) : Obtained w
  | stored {now : Int} {v : Value} {s : Store} {key : String} {w : Workflow}
      (h : Store.ofValue now v = .ok s) (hw : (key, w) ∈ s.workflows) : Obtained w
  | converted {now : Int} {r : ShellFunction.ConversionRequest} {content : String} {w : Workflow}
      (h : ShellFunction.convert now r content = .ok w) : Obtained w
  | resolved {w : Workflow} (h : Obtained w) (context : Context) :
      Obtained (w.resolve context)
  | declared {w : Workflow} (h : Obtained w) (v : Variable) : Obtained (w.addVariable v)
  | profiled {w : Workflow} (h : Obtained w) (p : Profile) : Obtained (w.addProfile p)
  | used {w : Workflow} (h : Obtained w) (now : Int) : Obtained (w.markUsed now)

/-! ## 2. Stored workflows -/

open Definition in
theorem proper_of_stored {now : Int} {v : Value} {s : Store} (h : Store.ofValue now v = .ok s)
    {key : String} {w : Workflow} (hw : (key, w) ∈ s.workflows) :
    ∀ t ∈ w.allSteps, t.Proper := by
  cases v with
  | scalar s | list items | set members => cases h
  | map fields =>
    rcases optional_eq_valid.mp (Store.ofValue_map_eq_ok.mp h).2.2 with ⟨-, hnil⟩ | ⟨v, -, hv⟩
    · rw [← hnil] at hw
      cases hw
    · obtain ⟨u, hu⟩ := exists_of_mem_readMapOf hv hw
      obtain ⟨fields, -, hread⟩ := readRecord_eq_valid.mp hu
      exact (readWorkflowFields_eq_valid.mp hread).proper

/-! ## 3. Converted workflows -/

namespace ShellFunction

theorem stepsOf_eq (block : List Statement) : stepsOf block = block.map stepOf := by
  induction block with
  | nil => rfl
  | cons x rest ih =>
    unfold stepsOf
    rw [ih, List.map_cons]

theorem exists_of_mem_casesOf {arms : List (String × List Statement)} {p : String}
    {block : List Step} (h : (p, block) ∈ casesOf arms) : ∃ body, block = stepsOf body := by
  induction arms with
  | nil => cases h
  | cons arm rest ih =>
    obtain ⟨q, body⟩ := arm
    unfold casesOf at h
    split at h
    · exact ih h
    · rcases List.mem_cons.mp h with he | h
      · exact ⟨body, congrArg Prod.snd he⟩
      · exact ih h

/-- A step that holds others is made of a statement that holds statements. -/
theorem exists_of_mem_blocks_stepOf {x : Statement} {entry : String × List Step}
    (h : entry ∈ (stepOf x).blocks) : ∃ block, entry.2 = stepsOf block := by
  cases x with
  | command | forLoop | assignment => cases h
  | conditional condition thenBlock elseBlock =>
    cases elseBlock with
    | none =>
      cases List.mem_singleton.mp h
      exact ⟨thenBlock, rfl⟩
    | some elseBlock =>
      rcases List.mem_cons.mp h with rfl | h
      · exact ⟨thenBlock, rfl⟩
      · cases List.mem_singleton.mp h
        exact ⟨elseBlock, rfl⟩
  | choice selector arms =>
    rcases List.mem_append.mp h with h | h
    · obtain ⟨arm, harm, rfl⟩ := List.mem_map.mp h
      exact exists_of_mem_casesOf harm
    · rw [fallbackOf_eq] at h
      cases hb : standardBody? arms with
      | none =>
        rw [hb] at h
        cases h
      | some body =>
        rw [hb] at h
        cases List.mem_singleton.mp h
        exact ⟨body, rfl⟩
  | whileLoop condition body =>
    cases List.mem_singleton.mp h
    exact ⟨body, rfl⟩

/-- The children of a converted step are converted. -/
theorem exists_of_mem_children_stepOf {x : Statement} {c : Step} (h : c ∈ (stepOf x).children) :
    ∃ y, stepOf y = c := by
  unfold Step.children at h
  obtain ⟨entry, he, hc⟩ := List.mem_flatMap.mp h
  obtain ⟨block, hb⟩ := exists_of_mem_blocks_stepOf he
  rw [hb, stepsOf_eq] at hc
  obtain ⟨y, -, hy⟩ := List.mem_map.mp hc
  exact ⟨y, hy⟩

theorem proper_stepOf (x : Statement) : (stepOf x).Proper := by
  cases x with
  | command | forLoop | assignment => trivial
  | conditional condition thenBlock elseBlock => cases elseBlock <;> exact ⟨rfl, nofun⟩
  | choice => rfl
  | whileLoop => rfl

theorem proper_of_converted {now : Int} {r : ConversionRequest} {content : String} {w : Workflow}
    (h : convert now r content = .ok w) : ∀ t ∈ w.allSteps, t.Proper := by
  obtain ⟨-, block, -, -, hblock, -⟩ := of_convert_eq_ok h
  intro t ht
  rw [Workflow.allSteps, hblock, stepsOf_eq] at ht
  obtain ⟨b, hb, ht⟩ := Step.mem_walkBlock.mp ht
  obtain ⟨x, -, rfl⟩ := List.mem_map.mp hb
  have hchildren : ∀ s, (∃ y, stepOf y = s) → ∀ c ∈ s.children, ∃ y, stepOf y = c := by
    rintro _ ⟨y, rfl⟩ c hc
    exact exists_of_mem_children_stepOf hc
  obtain ⟨y, rfl⟩ := Step.forall_mem_walk hchildren ⟨x, rfl⟩ t ht
  exact proper_stepOf y

end ShellFunction

/-! ## 4. Resolved workflows -/

theorem resolve_silent (context : Context) {h : StepHead} (hs : h.command = "") :
    (h.resolve context).command = "" := by
  unfold StepHead.resolve
  rw [hs]
  exact Template.resolve_of_closed context rfl

theorem proper_resolve (context : Context) {s : Step} (h : s.Proper) :
    (s.resolve context).Proper := by
  cases s with
  | command | auth => trivial
  | conditional hd c t el a => cases el <;> exact ⟨resolve_silent context h.1, h.2⟩
  | branch hd v cs d => cases d <;> exact resolve_silent context h
  | loop hd c b => exact resolve_silent context h

/-- **Every workflow that can be had has proper steps only.** -/
theorem Workflow.Obtained.proper {w : Workflow} (h : w.Obtained) : ∀ t ∈ w.allSteps, t.Proper := by
  induction h with
  | defined h => exact (Workflow.proper_of_defined h).steps
  | stored h hw => exact proper_of_stored h hw
  | converted h => exact ShellFunction.proper_of_converted h
  | resolved h context ih =>
    intro t ht
    rw [Workflow.allSteps_resolve] at ht
    obtain ⟨s, hs, rfl⟩ := List.mem_map.mp ht
    exact proper_resolve context (ih s hs)
  | declared h v ih => exact ih
  | profiled h p ih => exact ih
  | used h now ih => exact ih

/-! ## 5. Runs that return -/

/-- The action of a proper step has an exit code if it leaves the run. -/
theorem Step.Proper.exitCode_ne_none {s : Step} (h : s.Proper) {a : Action} (ha : s.action? = some a)
    (hk : a.kind = .leaveRun) : a.exitCode ≠ none := by
  cases s with
  | command | auth | branch | loop => cases ha
  | conditional hd c t el action => exact h.2 a ha hk

/-- A run of proper steps that returns has an exit code. -/
theorem Executor.exists_exitCode {σ : Type} {x : Executor σ} {w : Workflow} {r : RunRequest}
    {world : σ} (hw : ∀ t ∈ w.allSteps, t.Proper) {report : RunReport}
    (h : report ∈ (x.runWorkflow w r world).1.report?) (hs : report.status = .returned) :
    ∃ code, report.exitCode = some code := by
  obtain ⟨s', hends⟩ := endsIn_of_returned h hs
  obtain ⟨past, t, hts, hp⟩ := hends.last_turn
  have ht : t ∈ x.turns w r world := by simp [hts]
  obtain ⟨hd, -⟩ := Engine.act_of_returned hp
  have hproper := hw t.here.step (place_of_turn ht).1
  exact Option.ne_none_iff_exists'.mp
    (hproper.exitCode_ne_none (action_of_turn ht hd).1 rfl)

/-- **A workflow that can be had has no command text in a step that holds others and an exit code in
every action that leaves the run, at every depth; so each of its runs that returns has one.** -/
theorem Workflow.Obtained.wellBehaved {w : Workflow} (h : w.Obtained) :
    (∀ t ∈ w.allSteps, t.Proper) ∧ ∀ {σ : Type} (x : Executor σ) (r : RunRequest) (world : σ),
      ∀ report ∈ (x.runWorkflow w r world).1.report?, report.status = .returned →
        ∃ code, report.exitCode = some code :=
  ⟨h.proper, fun _ _ _ _ hr hs => Executor.exists_exitCode h.proper hr hs⟩

/-- A definition in short form is resolved and used, and then its run leaves a loop with an exit code. -/
theorem Workflow.looselyDefined_wellBehaved :
    let w := (Definition.looselyDefined.resolve [("k", "2")]).markUsed 8
    let x : Executor Script := ⟨Script.world true true, ⟨1000, 3, [], [], []⟩, some 5, 0, false⟩
    let world : Script := ⟨[], [("true", [.decided true])], [], []⟩
    let report? := (x.runWorkflow w ⟨none, [], none, false⟩ world).1.report?
    w.Obtained ∧ report?.map (·.status) = some .returned ∧ (∀ t ∈ w.allSteps, t.Proper) ∧
      ∀ report ∈ report?, report.status = .returned → ∃ code, report.exitCode = some code := by
  have hdefined : Workflow.ofValue 5 Definition.looseDefinition = .ok Definition.looselyDefined := by
    decide +kernel
  have h : ((Definition.looselyDefined.resolve [("k", "2")]).markUsed 8).Obtained :=
    ((Workflow.Obtained.defined (Or.inl ⟨_, hdefined⟩)).resolved _).used 8
  refine ⟨h, by decide +kernel, (Workflow.Obtained.wellBehaved h).1, ?_⟩
  exact (Workflow.Obtained.wellBehaved h).2 _ _ _

end Runbook
