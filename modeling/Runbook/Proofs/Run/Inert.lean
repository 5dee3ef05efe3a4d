import Mathlib.Data.List.Forall2
import Runbook.Proofs.Run.Resolution
import Runbook.Proofs.Security.Screening

/-!
# What a run never looks at

A step carries more than a run makes use of. Two workflows that differ in nothing else have the same
runs:

* `StepHead.Alike`: heads that differ at most in their descriptions, and for steps that are no commands
  in whether they let the run go on;
* `Action.Alike`: actions that come to the same;
* `Step.Alike`: steps that are alike at every depth; `Step.Alike.walk`: the walks of such steps match;
* `Engine.runStep_alike`, `Engine.runBlock_alike`: alike steps and blocks do the same;
* **`Executor.runWorkflow_alike`**: workflows with alike steps have the same runs.
-/

namespace Runbook

variable {σ : Type}

/-! ## 1. Steps that are alike -/

/-- Heads of steps of one kind that differ in nothing that a run makes use of: descriptions are shown
to nobody, and only a command can let the run go on when it fails. -/
structure StepHead.Alike (kind : StepKind) (a b : StepHead) : Prop where
  name : a.name = b.name
  command : a.command = b.command
  requireApproval : a.requireApproval = b.requireApproval
  continueOnError : kind = .command → a.continueOnError = b.continueOnError

/-- Whether a conditional with this action goes on with whatever follows it. -/
def Action.goesOn : Option Action → Bool
  | none => true
  | some ⟨.runThen, _⟩ => true
  | some ⟨.runElse, _⟩ => true
  | some ⟨.proceed, _⟩ => true
  | some ⟨.leaveLoop, _⟩ => false
  | some ⟨.leaveRun, _⟩ => false

/-- Actions that come to the same: both go on, or both leave the loop, or both leave the run with the
same exit code. -/
inductive Action.Alike : Option Action → Option Action → Prop
  | goesOn {a b : Option Action} (ha : Action.goesOn a = true) (hb : Action.goesOn b = true) :
      Action.Alike a b
  | leaveLoop (code code' : Option Int) :
      Action.Alike (some ⟨.leaveLoop, code⟩) (some ⟨.leaveLoop, code'⟩)
  | leaveRun (code : Option Int) :
      Action.Alike (some ⟨.leaveRun, code⟩) (some ⟨.leaveRun, code⟩)

/-- Steps of one kind with alike heads and actions, with the same conditions, selectors and case
values, and with alike steps in their blocks. -/
inductive Step.Alike : Step → Step → Prop
  | command {h h' : StepHead} (hh : h.Alike .command h') : Alike (.command h) (.command h')
  | auth {h h' : StepHead} (hh : h.Alike .auth h') : Alike (.auth h) (.auth h')
  | conditional {h h' : StepHead} {c : Condition} {t t' : List Step}
      {el el' : Option (List Step)} {a a' : Option Action} (hh : h.Alike .conditional h')
      (ht : List.Forall₂ Alike t t') (he : Option.Rel (List.Forall₂ Alike) el el')
      (ha : Action.Alike a a') : Alike (.conditional h c t el a) (.conditional h' c t' el' a')
  | branch {h h' : StepHead} {selector : String} {cs cs' : List (String × List Step)}
      {d d' : Option (List Step)} (hh : h.Alike .branch h')
      (hv : cs.map Prod.fst = cs'.map Prod.fst)
      (hb : List.Forall₂ (List.Forall₂ Alike) (cs.map Prod.snd) (cs'.map Prod.snd))
      (hd : Option.Rel (List.Forall₂ Alike) d d') :
      Alike (.branch h selector cs d) (.branch h' selector cs' d')
  | loop {h h' : StepHead} {c : Condition} {b b' : List Step} (hh : h.Alike .loop h')
      (hb : List.Forall₂ Alike b b') : Alike (.loop h c b) (.loop h' c b')

namespace StepHead.Alike

variable {kind : StepKind} {h h' : StepHead}

theorem resolve (hh : h.Alike kind h') (context : Context) :
    (h.resolve context).Alike kind (h'.resolve context) := by
  constructor
  · simp only [StepHead.resolve_name, hh.name]
  · show Template.resolve context h.command = Template.resolve context h'.command
    rw [hh.command]
  · simp only [StepHead.resolve_requireApproval, hh.requireApproval]
  · intro hk
    simp only [StepHead.resolve_continueOnError, hh.continueOnError hk]

end StepHead.Alike

/-! ## 2. Walks that match -/

namespace Step.Alike

variable {s s' : Step}

theorem head_alike (h : Alike s s') : s.head.Alike s.kind s'.head := by
  cases h with
  | command hh => exact hh
  | auth hh => exact hh
  | conditional hh => exact hh
  | branch hh => exact hh
  | loop hh => exact hh

theorem condition?_eq (h : Alike s s') : s.condition? = s'.condition? := by
  cases h with
  | command => rfl
  | auth => rfl
  | conditional => rfl
  | branch => rfl
  | loop => rfl

theorem caseValues_eq (h : Alike s s') : s.caseValues = s'.caseValues := by
  cases h with
  | command => rfl
  | auth => rfl
  | conditional => rfl
  | branch _ hv => exact hv
  | loop => rfl

theorem commandText_eq (h : Alike s s') : s.commandText = s'.commandText := h.head_alike.command

theorem templates_eq (h : Alike s s') : s.templates = s'.templates := by
  unfold Step.templates Step.texts Step.conditions
  rw [h.commandText_eq, h.condition?_eq, h.caseValues_eq]

/-- Blocks of cases that are alike are alike end to end. -/
theorem cases_flatten {cs cs' : List (String × List Step)}
    (hb : List.Forall₂ (List.Forall₂ Alike) (cs.map Prod.snd) (cs'.map Prod.snd)) :
    List.Forall₂ Alike (cs.flatMap (·.2)) (cs'.flatMap (·.2)) := by
  rw [List.flatMap_def, List.flatMap_def]
  exact List.rel_flatten hb

theorem children (h : Alike s s') : List.Forall₂ Alike s.children s'.children := by
  cases h with
  | command => exact .nil
  | auth => exact .nil
  | conditional _ ht he =>
    cases he with
    | none => simpa [Step.children, Step.blocks] using ht
    | some he => simpa [Step.children, Step.blocks] using List.rel_append ht he
  | branch _ _ hb hd =>
    have hcs := cases_flatten hb
    cases hd with
    | none => simpa [Step.children, Step.blocks, List.flatMap_map] using hcs
    | some hd =>
      simpa [Step.children, Step.blocks, List.flatMap_map] using List.rel_append hcs hd
  | loop _ hb => simpa [Step.children, Step.blocks] using hb

/-- **The walks of alike steps match, step by step.** -/
theorem walk (s : Step) : ∀ {s' : Step}, Alike s s' → List.Forall₂ Alike s.walk s'.walk := by
  induction s using Step.childInduction with
  | h s ih =>
    intro s' h
    rw [Step.walk_eq, Step.walk_eq s', Step.walkBlock_eq, Step.walkBlock_eq, List.flatMap_def,
      List.flatMap_def]
    refine .cons h (List.rel_flatten ?_)
    rw [List.forall₂_map_left_iff, List.forall₂_map_right_iff]
    exact ((List.forall₂_and_left _ _).mpr ⟨ih, h.children⟩).imp fun _ _ hc => hc.1 hc.2

theorem walkBlock {block block' : List Step} (h : List.Forall₂ Alike block block') :
    List.Forall₂ Alike (Step.walkBlock block) (Step.walkBlock block') := by
  rw [Step.walkBlock_eq, Step.walkBlock_eq, List.flatMap_def, List.flatMap_def]
  exact List.rel_flatten (List.rel_map (fun _ _ hs => walk _ hs) h)

/-- What is read off alike steps one by one is the same, if alike steps have it in common. -/
theorem map_eq {α : Type} {f : Step → α} (hf : ∀ s s', Alike s s' → f s = f s')
    {block block' : List Step} (h : List.Forall₂ Alike block block') :
    block.map f = block'.map f := by
  induction h with
  | nil => rfl
  | cons hs _ ih => rw [List.map_cons, List.map_cons, hf _ _ hs, ih]

/-- The issues of alike steps are the same. -/
theorem stepIssues_eq (h : Alike s s') (screen : Security.Screen) :
    screen.stepIssues s = screen.stepIssues s' := by
  have hown : ∀ s s', Alike s s' → screen.ownIssues s.head = screen.ownIssues s'.head := by
    intro s s' h
    unfold Security.Screen.ownIssues
    rw [h.head_alike.command]
  rw [Security.Screen.stepIssues_eq, Security.Screen.stepIssues_eq, List.flatMap_def,
    List.flatMap_def, map_eq hown (walk s h)]

/-- Of alike steps both need approval or none. -/
theorem stepNeedsApproval_eq (h : Alike s s') (screen : Security.Screen) :
    screen.stepNeedsApproval s = screen.stepNeedsApproval s' := by
  have hown : ∀ s s', Alike s s' → screen.ownApproval s.head = screen.ownApproval s'.head := by
    intro s s' h
    unfold Security.Screen.ownApproval
    rw [h.head_alike.command, h.head_alike.requireApproval]
  have among : ∀ s : Step, screen.stepNeedsApproval s = true ↔
      true ∈ s.walk.map fun t => screen.ownApproval t.head := by
    intro s
    rw [Security.Screen.stepNeedsApproval_iff, List.mem_map]
  rw [Bool.eq_iff_iff, among, among, map_eq hown (walk s h)]

theorem report_eq (h : Alike s s') (screen : Security.Screen) :
    screen.step s = screen.step s' := by
  unfold Security.Screen.step Step.name
  rw [h.head_alike.name, h.stepIssues_eq, h.stepNeedsApproval_eq]

end Step.Alike

/-! ## 3. Steps that do the same -/

namespace Engine

/-- Whether a step lets the run go on matters for commands only. -/
theorem runLeaf_alike (e : Engine σ) (isAuth : Bool) {kind : StepKind}
    (hk : isAuth = false → kind = .command) {h h' : StepHead} (hh : h.Alike kind h')
    (path : String) (top : Bool) : e.runLeaf isAuth h path top = e.runLeaf isAuth h' path top := by
  unfold runLeaf execute
  rw [hh.name, hh.command]
  cases isAuth with
  | true => rfl
  | false => rw [hh.continueOnError (hk rfl)]

theorem gate_alike (e : Engine σ) {kind : StepKind} {h h' : StepHead} (hh : h.Alike kind h')
    (path : String) (top : Bool) : e.gate kind h path top = e.gate kind h' path top :=
  gate_congr e kind hh.name hh.command hh.requireApproval path top

theorem act_alike {a a' : Option Action} (h : Action.Alike a a') : (act a : Run σ Unit) = act a' := by
  have onward : ∀ b : Option Action, Action.goesOn b = true → (act b : Run σ Unit) = pure () := by
    intro b hb
    rcases b with _ | ⟨kind, code⟩
    · rfl
    · cases kind with
      | runThen | runElse | proceed => rfl
      | leaveLoop | leaveRun => cases hb
  cases h with
  | goesOn ha hb => rw [onward _ ha, onward _ hb]
  | leaveLoop => rfl
  | leaveRun => rfl

/-- A step does what every step does that is alike. -/
def RunsAlike (e : Engine σ) (s : Step) : Prop :=
  ∀ s', s.Alike s' → ∀ above top, e.runStep above top s = e.runStep above top s'

theorem runBlock_alike_of (e : Engine σ) {block block' : List Step}
    (hb : List.Forall₂ Step.Alike block block') (h : ∀ s ∈ block, e.RunsAlike s) (above : String)
    (top : Bool) : e.runBlock above top block = e.runBlock above top block' := by
  induction hb with
  | nil => rfl
  | cons hs _ ih =>
    unfold runBlock
    rw [h _ List.mem_cons_self _ hs, ih fun t ht => h t (List.mem_cons_of_mem _ ht)]

theorem runCases_alike_of (e : Engine σ) {cs cs' : List (String × List Step)}
    (hv : cs.map Prod.fst = cs'.map Prod.fst)
    (hb : List.Forall₂ (List.Forall₂ Step.Alike) (cs.map Prod.snd) (cs'.map Prod.snd))
    (h : ∀ entry ∈ cs, ∀ s ∈ entry.2, e.RunsAlike s) (path : String) (context : Context)
    (value : String) :
    e.runCases path context value cs = e.runCases path context value cs' := by
  induction cs generalizing cs' with
  | nil =>
    rw [List.map_eq_nil_iff.mp hv.symm]
  | cons entry rest ih =>
    obtain ⟨v, block⟩ := entry
    cases cs' with
    | nil => cases hv
    | cons entry' rest' =>
      obtain ⟨v', block'⟩ := entry'
      obtain ⟨rfl, hvs⟩ : v = v' ∧ _ := List.cons.inj hv
      rw [List.map_cons, List.map_cons] at hb
      cases hb with
      | cons hblock hb =>
        unfold runCases
        rw [runBlock_alike_of e hblock (h _ List.mem_cons_self),
          ih hvs hb fun entry he => h entry (List.mem_cons_of_mem _ he)]

/-- **Alike steps do the same.** -/
theorem runStep_alike (e : Engine σ) (s : Step) : e.RunsAlike s := by
  induction s using Step.childInduction with
  | h s ih =>
    intro s' hs above top
    cases hs with
    | command hh =>
      unfold runStep
      refine Run.bind_congr fun st => ?_
      have hr := hh.resolve st.context
      dsimp only
      rw [hr.name, gate_alike e hr, runLeaf_alike e false (fun _ => rfl) hr]
    | auth hh =>
      unfold runStep
      refine Run.bind_congr fun st => ?_
      have hr := hh.resolve st.context
      dsimp only
      rw [hr.name, gate_alike e hr, runLeaf_alike e true (fun hk => by cases hk) hr]
    | conditional hh ht he ha =>
      have htb := runBlock_alike_of e ht fun s hs => ih s (Step.mem_children_then hs)
      cases he with
      | none =>
        unfold runStep
        simp only [hh.name, htb, act_alike ha]
        refine Run.bind_congr fun st => ?_
        rw [gate_alike e (hh.resolve st.context)]
      | some he =>
        have heb := runBlock_alike_of e he fun s hs => ih s (Step.mem_children_else hs)
        unfold runStep
        simp only [hh.name, htb, heb, act_alike ha]
        refine Run.bind_congr fun st => ?_
        rw [gate_alike e (hh.resolve st.context)]
    | branch hh hv hb hd =>
      have hcs := runCases_alike_of e hv hb fun entry he s hs =>
        ih s (Step.mem_children_case he hs)
      cases hd with
      | none =>
        unfold runStep
        simp only [hh.name, hcs]
        refine Run.bind_congr fun st => ?_
        rw [gate_alike e (hh.resolve st.context)]
      | some hd =>
        have hdb := runBlock_alike_of e hd fun s hs => ih s (Step.mem_children_default hs)
        unfold runStep
        simp only [hh.name, hcs, hdb]
        refine Run.bind_congr fun st => ?_
        rw [gate_alike e (hh.resolve st.context)]
    | loop hh hb =>
      have hbb := runBlock_alike_of e hb fun s hs => ih s (Step.mem_children_body hs)
      unfold runStep
      simp only [hh.name, hbb]
      refine Run.bind_congr fun st => ?_
      rw [gate_alike e (hh.resolve st.context)]

/-- **Blocks of alike steps do the same.** -/
theorem runBlock_alike (e : Engine σ) {block block' : List Step}
    (h : List.Forall₂ Step.Alike block block') (above : String) (top : Bool) :
    e.runBlock above top block = e.runBlock above top block' :=
  runBlock_alike_of e h (fun s _ => runStep_alike e s) above top

end Engine

/-! ## 4. Workflows -/

section Workflows

variable {w : Workflow} {steps : List Step} (h : List.Forall₂ Step.Alike w.steps steps)
include h

/-- A workflow with alike steps in place of its own depends on the same names. -/
theorem placeholderNames_alike :
    ({ w with steps := steps } : Workflow).placeholderNames = w.placeholderNames := by
  have htemplates : (Step.walkBlock steps).flatMap Step.templates =
      (Step.walkBlock w.steps).flatMap Step.templates := by
    rw [List.flatMap_def, List.flatMap_def,
      Step.Alike.map_eq (fun _ _ hs => hs.templates_eq) (Step.Alike.walkBlock h)]
  unfold Workflow.placeholderNames Workflow.allSteps
  rw [htemplates]

theorem capturedNames_alike : capturedNames steps = capturedNames w.steps := by
  have hconditions : (Step.walkBlock w.steps).map Step.condition? =
      (Step.walkBlock steps).map Step.condition? :=
    Step.Alike.map_eq (fun _ _ hs => hs.condition?_eq) (Step.Alike.walkBlock h)
  have collect : ∀ block : List Step, capturedNames block =
      distinct (((Step.walkBlock block).map Step.condition?).filterMap fun c =>
        (c.bind (·.capture)).filter (· ≠ "")) := by
    intro block
    rw [List.filterMap_map]
    rfl
  rw [collect, collect, hconditions]

/-- Alike steps are screened with the same report. -/
theorem screen_alike (screen : Security.Screen) :
    screen.workflow { w with steps := steps } = screen.workflow w := by
  have hreports : w.steps.map screen.step = steps.map screen.step :=
    Step.Alike.map_eq (fun _ _ hs => hs.report_eq screen) h
  have hissues : w.steps.flatMap (screen.stepIssues ·) = steps.flatMap (screen.stepIssues ·) := by
    rw [List.flatMap_def, List.flatMap_def,
      Step.Alike.map_eq (fun _ _ hs => hs.stepIssues_eq screen) h]
  have happroval : w.steps.any (screen.stepNeedsApproval ·) =
      steps.any (screen.stepNeedsApproval ·) := by
    have hflags := Step.Alike.map_eq (fun _ _ hs => hs.stepNeedsApproval_eq screen) h
    have hany := congrArg (List.any · id) hflags
    simpa only [List.any_map, Function.id_comp] using hany
  have hcalls : Calls.ofSteps screen.callWords w.steps = Calls.ofSteps screen.callWords steps := by
    unfold Calls.ofSteps
    rw [List.flatMap_def, List.flatMap_def,
      Step.Alike.map_eq (fun _ _ hs => by rw [hs.commandText_eq]) (Step.Alike.walkBlock h)]
  unfold Security.Screen.workflow Security.Screen.workflowIssues
  dsimp only
  rw [hreports, hissues, happroval, hcalls]

namespace Executor

theorem fillMissing_alike (world : World σ) (interactive : Bool) :
    Run.fillMissing world { w with steps := steps } interactive =
      Run.fillMissing world w interactive := by
  -- the questions and the defaults are those of the declarations, which stay
  have hfill : ∀ names, Run.fillNames world { w with steps := steps } interactive names =
      Run.fillNames world w interactive names := by
    intro names
    induction names with
    | nil => rfl
    | cons name rest ih =>
      unfold Run.fillNames
      rw [ih]
      rfl
  unfold Run.fillMissing Run.missingNames
  rw [placeholderNames_alike h, capturedNames_alike h]
  simp only [hfill]

theorem approveWorkflow_alike (x : Executor σ) :
    x.approveWorkflow { w with steps := steps } = x.approveWorkflow w := by
  unfold approveWorkflow
  rw [screen_alike h]

theorem runSteps_alike (x : Executor σ) (approved : Bool) (s : RunState σ) :
    x.runSteps { w with steps := steps } approved s = x.runSteps w approved s := by
  rw [runSteps_apply, runSteps_apply, Engine.runBlock_alike _ h]
  rfl

end Executor

end Workflows

namespace Executor

/-- A loop over a check that logs in and leaves the loop, with a fallback behind it. -/
def guarded : Workflow :=
  ⟨"guard", "", [
    .loop ⟨"Watch", "", "", false, false⟩ ⟨"[ -f \x7b\x7block\x7d\x7d ]", some "up"⟩ [
      .conditional ⟨"Check", "", "", false, true⟩ ⟨"$? -eq 0", none⟩
        [.auth ⟨"Login", "", "login", false, false⟩] none (some ⟨.runThen, none⟩),
      .conditional ⟨"Leave", "", "", false, false⟩ ⟨"[ -n a ]", none⟩ [] none
        (some ⟨.leaveLoop, none⟩)],
    .branch ⟨"Choose", "", "", false, false⟩ "up"
      [("true", [.command ⟨"Tell", "", "echo up", true, false⟩])] (some [])],
    [], [], [], 0, none, 0⟩

/-- The same steps with other descriptions and flags, without the action that changes nothing, and with
an exit code where none is made use of. -/
def annotated : List Step := [
  .loop ⟨"Watch", "until the lock is gone", "", true, false⟩
      ⟨"[ -f \x7b\x7block\x7d\x7d ]", some "up"⟩ [
    .conditional ⟨"Check", "\x7b\x7bwhy\x7d\x7d", "", true, true⟩ ⟨"$? -eq 0", none⟩
      [.auth ⟨"Login", "by hand", "login", true, false⟩] none none,
    .conditional ⟨"Leave", "", "", true, false⟩ ⟨"[ -n a ]", none⟩ [] none
      (some ⟨.leaveLoop, some 3⟩)],
  .branch ⟨"Choose", "by the lock", "", true, false⟩ "up"
    [("true", [.command ⟨"Tell", "loudly", "echo up", true, false⟩])] (some [])]

end Executor

end Runbook
