import Runbook.Proofs.Run.Opening
import Runbook.Proofs.Template
import Runbook.Run.Script

/-!
# Late and eager resolution

A run resolves the texts of a step when it comes to the step. Resolving the whole workflow before the
run comes to the same, if the values that the texts depend on are there and stay:

* `Context.AgreeOn`: two contexts with the same values for some names;
* `Step.SettledBy`: a step whose texts are settled by a context, for good;
* `Run.SameOn`: two actions that do the same from some states and stay among them;
* `runStep_resolve`, `runBlock_resolve`: steps and their resolved copies do the same;
* **`runWorkflow_resolve`**: a workflow and its resolved copy have the same runs.
-/

namespace Runbook

variable {σ α β : Type}

/-! ## 1. Values that stay -/

/-- Two contexts have the same values for the given names. -/
def Context.AgreeOn (names : List String) (a b : Context) : Prop :=
  ∀ name ∈ names, a.get? name = b.get? name

/-- The texts of a step are settled by a context: they depend on the given names only, hold no
placeholder once they are resolved, and the condition of the step captures none of the names. -/
structure Step.SettledBy (names : List String) (c : Context) (s : Step) : Prop where
  depends : ∀ text ∈ s.templates, ∀ name ∈ Template.placeholderNames text, name ∈ names
  closed : ∀ text ∈ s.templates,
    Template.placeholderNames (Template.resolve c text) = []
  kept : ∀ condition, s.condition? = some condition →
    ∀ name, condition.capture = some name → name ≠ "" → name ∉ names

namespace Step.SettledBy

variable {names : List String} {c context : Context} {s : Step}

/-- **A settled text comes out the same whether it is resolved late, or before and late.** -/
theorem resolve_twice (h : s.SettledBy names c) (hc : Context.AgreeOn names context c)
    {text : String} (ht : text ∈ s.templates) :
    Template.resolve context (Template.resolve c text) = Template.resolve context text := by
  rw [Template.resolve_of_closed context (h.closed text ht)]
  exact (Template.resolve_congr fun name hname => hc name (h.depends text ht name hname)).symm

theorem command_resolve_twice (h : s.SettledBy names c)
    (hc : Context.AgreeOn names context c) :
    ((s.head.resolve c).resolve context).command = (s.head.resolve context).command := by
  show Template.resolve context (Template.resolve c s.commandText) =
    Template.resolve context s.commandText
  by_cases hempty : s.commandText = ""
  · rw [hempty]
    rfl
  · exact h.resolve_twice hc (commandText_mem_templates hempty)

/-- A settled condition is judged by the same text whether it is resolved before or not. -/
theorem judgedText_resolve (h : s.SettledBy names c) (hc : Context.AgreeOn names context c)
    {condition : Condition} (hcond : s.condition? = some condition) :
    Engine.judgedText (condition.resolve c) context = Engine.judgedText condition context := by
  unfold Engine.judgedText Condition.resolve
  rw [h.resolve_twice hc (expression_mem_templates hcond)]

end Step.SettledBy

/-! ## 2. Actions that do the same -/

namespace Run

/-- Two actions do the same from all states of a kind, and stay among these states. -/
def SameOn (P : RunState σ → Prop) (m m' : Run σ α) : Prop :=
  ∀ s, P s → m s = m' s ∧ P (m s).2

namespace SameOn

variable {P : RunState σ → Prop}

theorem refl {m : Run σ α} (h : ∀ s, P s → P (m s).2) : SameOn P m m :=
  fun s hs => ⟨rfl, h s hs⟩

theorem pure (a : α) : SameOn P (Pure.pure a : Run σ α) (Pure.pure a) := refl fun _ hs => hs

theorem bind {m m' : Run σ α} {f f' : α → Run σ β} (hm : SameOn P m m')
    (hf : ∀ a, SameOn P (f a) (f' a)) : SameOn P (m >>= f) (m' >>= f') := by
  intro s hs
  obtain ⟨heq, hP⟩ := hm s hs
  rw [bind_apply, bind_apply, ← heq]
  rcases hr : m s with ⟨r, s'⟩
  rw [hr] at hP
  cases r with
  | ok a => exact hf a s' hP
  | error signal => exact ⟨rfl, hP⟩

/-- Actions that look at the state first do the same if they do so for every state of the kind. -/
theorem look {f f' : RunState σ → Run σ α} (h : ∀ s, P s → SameOn P (f s) (f' s)) :
    SameOn P (state >>= f) (state >>= f') := by
  intro s hs
  rw [state_bind, state_bind]
  exact h s hs s hs

theorem ite {c : Prop} [Decidable c] {a a' b b' : Run σ α} (ha : SameOn P a a')
    (hb : SameOn P b b') : SameOn P (if c then a else b) (if c then a' else b') := by
  by_cases hc : c
  · rw [if_pos hc, if_pos hc]
    exact ha
  · rw [if_neg hc, if_neg hc]
    exact hb

theorem leftLoop {m m' : Run σ Unit} (h : SameOn P m m') :
    SameOn P (Run.leftLoop m) (Run.leftLoop m') := by
  intro s hs
  obtain ⟨heq, hP⟩ := h s hs
  unfold Run.leftLoop
  rw [← heq]
  refine ⟨rfl, ?_⟩
  rcases hr : m s with ⟨r, s'⟩
  rw [hr] at hP
  rcases r with signal | u
  · cases signal <;> exact hP
  · exact hP

end SameOn

end Run

namespace Engine

variable {names : List String} {c : Context}

/-- The states in which the given names have the values that a context gives them. -/
def Holds (names : List String) (c : Context) (s : RunState σ) : Prop :=
  Context.AgreeOn names s.context c

/-! ## 3. Single actions -/

theorem gate_context (e : Engine σ) (kind : StepKind) (h : StepHead) (path : String) (top : Bool)
    (s : RunState σ) : (e.gate kind h path top s).2.context = s.context := by
  cases ha : e.asks h with
  | false => rw [gate_of_not_asks ha]
  | true =>
    rw [gate_of_asks ha]
    obtain ⟨r, lines, world, hq, -, -⟩ := Run.approve_cases e.world (question kind h) s
    rw [hq]
    rcases r with signal | yes
    · rfl
    · cases yes <;> rfl

theorem runLeaf_context (e : Engine σ) (isAuth : Bool) (h : StepHead) (path : String) (top : Bool)
    (s : RunState σ) : (e.runLeaf isAuth h path top s).2.context = s.context := by
  rcases runLeaf_cases e isAuth h path top s with
    ⟨fault, world, hx⟩ | ⟨entry, r, world, more, world', -, -, hx, -, -⟩
  · rw [hx]
    rfl
  · rw [hx]
    exact RunState.executed_context s h.command top entry world

theorem act_context (a : Option Action) (s : RunState σ) : (act a s).2.context = s.context := by
  rcases a with _ | ⟨kind, code⟩
  · rfl
  · cases kind <;> rfl

/-- What a head says besides its description is all that an approval looks at. -/
theorem gate_congr (e : Engine σ) (kind : StepKind) {h h' : StepHead} (hn : h.name = h'.name)
    (hc : h.command = h'.command) (ha : h.requireApproval = h'.requireApproval) (path : String)
    (top : Bool) : e.gate kind h path top = e.gate kind h' path top := by
  unfold gate summary
  rw [hn, hc, ha]

theorem runLeaf_congr (e : Engine σ) (isAuth : Bool) {h h' : StepHead} (hn : h.name = h'.name)
    (hc : h.command = h'.command) (ho : h.continueOnError = h'.continueOnError) (path : String)
    (top : Bool) : e.runLeaf isAuth h path top = e.runLeaf isAuth h' path top := by
  unfold runLeaf execute
  rw [hn, hc, ho]

/-- **The approval of a settled step is the same whether its head is resolved before or not.** -/
theorem gate_resolve {s : Step} {h : StepHead} (e : Engine σ) (hs : s.SettledBy names c)
    (hh : s.head = h) (kind : StepKind) (path : String) (top : Bool) {st : RunState σ}
    (hst : Holds names c st) :
    Run.SameOn (Holds names c) (e.gate kind (h.resolve st.context) path top)
      (e.gate kind ((h.resolve c).resolve st.context) path top) := by
  subst hh
  have hst' : Context.AgreeOn names st.context c := hst
  have hsame : e.gate kind ((s.head.resolve c).resolve st.context) path top =
      e.gate kind (s.head.resolve st.context) path top :=
    gate_congr e kind (by simp only [StepHead.resolve_name]) (hs.command_resolve_twice hst')
      (by simp only [StepHead.resolve_requireApproval]) path top
  rw [hsame]
  refine .refl fun s' hs' => ?_
  unfold Holds
  rw [gate_context]
  exact hs'

theorem runLeaf_resolve {s : Step} {h : StepHead} (e : Engine σ) (hs : s.SettledBy names c)
    (hh : s.head = h) (isAuth : Bool) (path : String) (top : Bool) {st : RunState σ}
    (hst : Holds names c st) :
    Run.SameOn (Holds names c) (e.runLeaf isAuth (h.resolve st.context) path top)
      (e.runLeaf isAuth ((h.resolve c).resolve st.context) path top) := by
  subst hh
  have hst' : Context.AgreeOn names st.context c := hst
  have hsame : e.runLeaf isAuth ((s.head.resolve c).resolve st.context) path top =
      e.runLeaf isAuth (s.head.resolve st.context) path top :=
    runLeaf_congr e isAuth (by simp only [StepHead.resolve_name])
      (hs.command_resolve_twice hst') (by simp only [StepHead.resolve_continueOnError]) path top
  rw [hsame]
  refine .refl fun s' hs' => ?_
  unfold Holds
  rw [runLeaf_context]
  exact hs'

theorem act_same (a : Option Action) :
    Run.SameOn (Holds names c) (act a : Run σ Unit) (act a) := by
  refine .refl fun s hs => ?_
  unfold Holds
  rw [act_context]
  exact hs

/-- Capturing an outcome under another name keeps the values of the given names. -/
theorem holds_captured {condition : Condition} {holds : Bool} {s : RunState σ}
    (hkept : ∀ name, condition.capture = some name → name ≠ "" → name ∉ names)
    (hs : Holds names c s) : Holds names c (s.captured condition holds) := by
  intro name hname
  unfold RunState.captured
  cases hc : condition.capture with
  | none => exact hs name hname
  | some captured =>
    dsimp only
    by_cases he : captured = ""
    · rw [if_pos he]
      exact hs name hname
    · rw [if_neg he]
      have hne : captured ≠ name := by
        rintro rfl
        exact hkept captured hc he hname
      exact (Assoc.get?_put_of_ne s.context _ hne).trans (hs name hname)

/-- **The outcome of a settled condition is the same whether it is resolved before or not.** -/
theorem evaluate_resolve {s : Step} (e : Engine σ) (hs : s.SettledBy names c)
    (condition : Condition) (hcond : s.condition? = some condition) :
    Run.SameOn (Holds names c) (e.evaluate condition) (e.evaluate (condition.resolve c)) := by
  intro st hst
  constructor
  · rw [evaluate_apply, evaluate_apply, hs.judgedText_resolve hst hcond]
    rcases e.decide (judgedText condition st.context) st with ⟨r, s'⟩
    cases r <;> rfl
  · obtain ⟨world, ⟨holds, hv⟩ | ⟨signal, hv, -⟩⟩ := evaluate_cases e condition st
    · rw [hv]
      exact holds_captured (hs.kept condition hcond) hst
    · rw [hv]
      exact hst

/-! ## 4. Steps -/

/-- Loops over conditions and bodies that do the same do the same. -/
theorem loop_same (e : Engine σ) (name path : String) {condition condition' : Run σ Bool}
    {body body' : Nat → Run σ Unit} (hc : Run.SameOn (Holds names c) condition condition')
    (hb : ∀ n, Run.SameOn (Holds names c) (body n) (body' n)) (rounds done : Nat) :
    Run.SameOn (Holds names c) (e.loop name path condition body rounds done)
      (e.loop name path condition' body' rounds done) := by
  induction rounds generalizing done with
  | zero => exact .refl fun _ hs => hs
  | succ rounds ih =>
    unfold loop
    refine .bind hc fun holds => .ite ?_ (.pure ())
    cases e.pastCap (done + 1) with
    | some cap => exact .refl fun _ hs => hs
    | none =>
      exact .bind (.leftLoop (hb (done + 1))) fun left => .ite (.pure ()) (ih (done + 1))

/-- The run of a step and that of its resolved copy do the same wherever they start. -/
def ResolvesTo (e : Engine σ) (names : List String) (c : Context) (s : Step) : Prop :=
  ∀ above top, Run.SameOn (Holds names c) (e.runStep above top s)
    (e.runStep above top (s.resolve c))

theorem runBlock_resolve_of (e : Engine σ) (block : List Step)
    (h : ∀ s ∈ block, e.ResolvesTo names c s) (above : String) (top : Bool) :
    Run.SameOn (Holds names c) (e.runBlock above top block)
      (e.runBlock above top (Step.resolveBlock c block)) := by
  induction block with
  | nil =>
    unfold Step.resolveBlock runBlock
    exact .pure ()
  | cons s rest ih =>
    unfold Step.resolveBlock runBlock
    exact .bind (h s List.mem_cons_self above top) fun _ =>
      ih fun t ht => h t (List.mem_cons_of_mem _ ht)

theorem runCases_resolve_of (e : Engine σ) (cases : List (String × List Step))
    (h : ∀ entry ∈ cases, ∀ s ∈ entry.2, e.ResolvesTo names c s) (context : Context)
    (hv : ∀ entry ∈ cases, Template.resolve context (Template.resolve c entry.1) =
      Template.resolve context entry.1) (path value : String) :
    Run.SameOn (Holds names c) (e.runCases path context value cases)
      (e.runCases path context value (Step.resolveCases c cases)) := by
  induction cases with
  | nil =>
    unfold Step.resolveCases runCases
    exact .pure false
  | cons entry rest ih =>
    obtain ⟨v, block⟩ := entry
    unfold Step.resolveCases runCases
    rw [hv (v, block) List.mem_cons_self]
    refine .ite ?_ (ih (fun b hb => h b (List.mem_cons_of_mem _ hb)) fun b hb =>
      hv b (List.mem_cons_of_mem _ hb))
    exact .bind (runBlock_resolve_of e block (h (v, block) List.mem_cons_self) _ _)
      fun _ => .pure true

/-- **A settled step and its resolved copy do the same.** -/
theorem runStep_resolve (e : Engine σ) (s : Step) :
    (∀ t ∈ s.walk, t.SettledBy names c) → e.ResolvesTo names c s := by
  induction s using Step.childInduction with
  | h s ih =>
    intro hw above top
    have hs : s.SettledBy names c := hw s (Step.mem_walk_self s)
    have ih' : ∀ t ∈ s.children, e.ResolvesTo names c t :=
      fun t ht => ih t ht fun u hu => hw u (Step.mem_walk_of_child ht hu)
    cases s with
    | command h =>
      unfold Step.resolve runStep
      simp only [StepHead.resolve_name]
      exact .look fun st hst => .bind (gate_resolve e hs rfl .command _ top hst) fun _ =>
        runLeaf_resolve e hs rfl false _ top hst
    | auth h =>
      unfold Step.resolve runStep
      simp only [StepHead.resolve_name]
      exact .look fun st hst => .bind (gate_resolve e hs rfl .auth _ top hst) fun _ =>
        runLeaf_resolve e hs rfl true _ top hst
    | conditional h cond t el a =>
      have ht := runBlock_resolve_of e t fun s hs => ih' s (Step.mem_children_then hs)
      have hcond := evaluate_resolve e hs cond rfl
      cases el with
      | none =>
        unfold Step.resolve runStep
        simp only [StepHead.resolve_name]
        refine .look fun st hst => .bind (gate_resolve e hs rfl .conditional _ top hst) fun _ => ?_
        refine .bind hcond fun holds => .ite ?_ (act_same a)
        exact .bind (ht _ _) fun _ => act_same a
      | some el =>
        have hel := runBlock_resolve_of e el fun s hs => ih' s (Step.mem_children_else hs)
        unfold Step.resolve runStep
        simp only [StepHead.resolve_name]
        refine .look fun st hst => .bind (gate_resolve e hs rfl .conditional _ top hst) fun _ => ?_
        refine .bind hcond fun holds => .ite ?_ ?_
        · exact .bind (ht _ _) fun _ => act_same a
        · exact .bind (hel _ _) fun _ => act_same a
    | branch h v cs d =>
      have hcs := runCases_resolve_of e cs fun entry he s hs =>
        ih' s (Step.mem_children_case he hs)
      cases d with
      | none =>
        unfold Step.resolve runStep
        simp only [StepHead.resolve_name]
        refine .look fun st hst => .bind (gate_resolve e hs rfl .branch _ top hst) fun _ => ?_
        exact .bind (hcs st.context (fun entry he =>
          hs.resolve_twice hst (Step.mem_templates_of_case he)) _ _) fun _ => .pure ()
      | some d =>
        have hd := runBlock_resolve_of e d fun s hs => ih' s (Step.mem_children_default hs)
        unfold Step.resolve runStep
        simp only [StepHead.resolve_name]
        refine .look fun st hst => .bind (gate_resolve e hs rfl .branch _ top hst) fun _ => ?_
        exact .bind (hcs st.context (fun entry he =>
          hs.resolve_twice hst (Step.mem_templates_of_case he)) _ _) fun found =>
            .ite (.pure ()) (hd _ _)
    | loop h cond b =>
      have hb := runBlock_resolve_of e b fun s hs => ih' s (Step.mem_children_body hs)
      have hcond := evaluate_resolve e hs cond rfl
      unfold Step.resolve runStep
      simp only [StepHead.resolve_name]
      refine .look fun st hst => .bind (gate_resolve e hs rfl .loop _ top hst) fun _ => ?_
      exact loop_same e _ _ hcond (fun n => hb _ _) _ _

end Engine

/-! ## 5. Workflows -/

theorem mem_capturedNames {steps : List Step} {name : String} :
    name ∈ capturedNames steps ↔ ∃ s ∈ Step.walkBlock steps, ∃ condition,
      s.condition? = some condition ∧ condition.capture = some name ∧ name ≠ "" := by
  unfold capturedNames
  rw [mem_distinct, List.mem_filterMap]
  constructor
  · rintro ⟨s, hs, hname⟩
    obtain ⟨hcapture, hne⟩ := Option.filter_eq_some_iff.mp hname
    obtain ⟨condition, hcond, hc⟩ := Option.bind_eq_some_iff.mp hcapture
    exact ⟨s, hs, condition, hcond, hc, of_decide_eq_true hne⟩
  · rintro ⟨s, hs, condition, hcond, hc, hne⟩
    refine ⟨s, hs, Option.filter_eq_some_iff.mpr ⟨?_, decide_eq_true hne⟩⟩
    exact Option.bind_eq_some_iff.mpr ⟨condition, hcond, hc⟩

/-- **Values settle every step of a workflow**, if no condition captures one of the names that the
workflow depends on, and resolving the workflow for the values leaves no placeholder. -/
theorem Workflow.settledBy {w : Workflow} {c : Context}
    (hkept : ∀ name ∈ capturedNames w.steps, name ∉ w.placeholderNames)
    (hclosed : (w.resolve c).placeholderNames = []) :
    ∀ s ∈ w.allSteps, s.SettledBy w.placeholderNames c := by
  intro s hs
  refine ⟨?_, ?_, ?_⟩
  · intro text htext name hname
    exact Workflow.mem_placeholderNames.mpr ⟨s, hs, text, htext, hname⟩
  · intro text htext
    rcases Step.mem_templates_resolve htext with hmem | hempty
    · have hstep : s.resolve c ∈ (w.resolve c).allSteps := by
        rw [Workflow.allSteps_resolve]
        exact List.mem_map_of_mem hs
      rw [List.eq_nil_iff_forall_not_mem]
      intro name hname
      have hin : name ∈ (w.resolve c).placeholderNames :=
        Workflow.mem_placeholderNames.mpr ⟨s.resolve c, hstep, _, hmem, hname⟩
      rw [hclosed] at hin
      cases hin
    · rw [hempty]
      rfl
  · intro condition hcond name hcapture hne
    exact hkept name (mem_capturedNames.mpr ⟨s, hs, condition, hcond, hcapture, hne⟩)

namespace Executor

/-- Where all names are bound, nothing is filled in. -/
theorem fillMissing_of_bound (world : World σ) {w : Workflow} (interactive : Bool)
    {s : RunState σ} (h : ∀ name ∈ w.placeholderNames, s.context.contains name = true) :
    Run.fillMissing world w interactive s = (.ok (), s) := by
  have hnone : Run.missingNames w s.context = [] := by
    unfold Run.missingNames
    rw [List.filter_eq_nil_iff]
    intro name hname
    rw [h name hname]
    simp
  show Run.fillNames world w interactive (Run.missingNames w s.context) s = _
  rw [hnone]
  rfl

/-- A run without screening, from a context in which all names are bound, is the run of its steps. -/
theorem runWorkflow_of_bound {x : Executor σ} {w : Workflow} {r : RunRequest} {c : Context}
    (hr : r.context = some c) (hx : x.securityCheck = false)
    (h : ∀ name ∈ w.placeholderNames, c.contains name = true) (world : σ) :
    x.runWorkflow w r world = x.runSteps w false (initialState c world) := by
  have hstart : startState w r world = initialState c world := by
    unfold startState
    rw [hr]
  unfold runWorkflow
  rw [hstart, fillMissing_of_bound x.world r.interactive h]
  dsimp only
  unfold screenAndRun
  rw [hx]
  rfl

/-- A loop that captures its outcome, over a command with a placeholder. -/
def repeated : Workflow :=
  ⟨"poll", "", [.loop ⟨"Poll", "", "", false, false⟩ ⟨"[ -n \x7b\x7bhost\x7d\x7d ]", some "up"⟩
    [.command ⟨"Ping", "", "ping \x7b\x7bhost\x7d\x7d", false, false⟩]],
    [], [], [], 0, none, 0⟩

end Executor

end Runbook
