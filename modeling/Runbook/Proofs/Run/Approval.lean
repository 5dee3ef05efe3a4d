import Runbook.Proofs.Run.Consistency
import Runbook.Proofs.Run.Log
import Runbook.Proofs.Security.Screening

/-!
# Approval

What a run does it may have to ask for first. This file follows the questions through a whole run:

* `Engine.Answered`, `Executor.Answered`: the answer to the question about an occurrence, or about
  the workflow as a whole;
* `Executor.ApprovalSafe`: what holds of questions and answers in a run;
* **`runWorkflow_approvalSafe`**: it holds in every run.
-/

namespace Runbook

variable {σ : Type}

/-! ## 1. Answers -/

/-- Whether an entry says that something was turned down. -/
def StepResult.isDenial (entry : StepResult) : Bool :=
  match entry.outcome with
  | .error (.notApproved ..) => true
  | _ => false

namespace Engine

/-- The question about an occurrence, put when the run comes to it, is answered with yes or no. -/
def Answered (e : Engine σ) (o : Occurrence σ) (yes : Bool) : Prop :=
  ∃ s', Run.approve e.world (question o.step.kind o.head) o.state = (.ok yes, s')

/-- **Behind a step that has to be asked about, a run goes on only after a yes.** -/
theorem Chain.answered {e : Engine σ} {s s' : RunState σ} {past later : List (Turn σ)} {t : Turn σ}
    {r : Except Signal Unit} (h : e.Chain s (past ++ t :: later) r s') {o : Occurrence σ}
    (hr : Reached o past) (ha : e.asks o.head = true) : e.Answered o true := by
  obtain ⟨s₁, hp, -⟩ := h.passed hr
  cases does_of_perform hp with
  | free hfree => rw [ha] at hfree; cases hfree
  | approved lines world _ _ hy => exact ⟨_, hy⟩

/-- No step ends for want of a variable. -/
theorem Chain.ne_missing {e : Engine σ} {s s' : RunState σ} {ts : List (Turn σ)}
    {name : String} (h : e.Chain s ts (.error (.missingVariable name)) s') : False := by
  obtain ⟨⟨o, around, d, before⟩, -, hp⟩ := h.last_of_error
  cases does_of_perform hp with
  | unanswered _ _ _ _ _ hs => cases hs
  | started _ _ _ _ _ _ _ _ hr =>
    cases hr with
    | well _ _ hr => cases hr _ rfl
  | unjudged _ _ _ hs => rcases hs with hs | ⟨error, hs⟩ <;> cases hs

/-- A command leaves an entry that says nothing of approval. -/
theorem isDenial_of_execute {e : Engine σ} {h : StepHead} {path : String} {top : Bool}
    {s : RunState σ} {entry : StepResult} (hx : (e.execute h path top s).1 = .ok entry) :
    entry.isDenial = false := by
  unfold execute at hx
  rw [Run.bind_apply, Run.spawn_apply] at hx
  dsimp only at hx
  cases hr : (e.world.spawn h.command s.world).1 with
  | finished result => rw [hr] at hx; cases hx; rfl
  | refused reason => rw [hr] at hx; cases hx; rfl
  | raised fault => rw [hr] at hx; cases hx

theorem Settled.isDenial {e : Engine σ} {ts : List (Turn σ)} {entry : StepResult}
    (h : e.Settled ts entry) : entry.isDenial = false := by
  rcases h with hok | ⟨t, -, -, -, hx⟩
  · unfold StepResult.ok at hok
    unfold StepResult.isDenial
    split at hok
    · rename_i result hout
      rw [hout]
    · cases hok
  · exact isDenial_of_execute hx

/-- A run comes to an occurrence in the occurrence's own state. -/
theorem state_eq_before {e : Engine σ} {t : Turn σ} (h : e.Place t.here t.before t.deed)
    (hd : t.deed = .reach) : t.here.state = t.before := by
  rw [hd] at h
  cases h with
  | reach hs => exact hs

/-- **A no stops the run at the step, under the step's path, with one entry more that says so.** -/
theorem Chain.stopped_of_no {e : Engine σ} {s s' : RunState σ} {past later : List (Turn σ)}
    {t : Turn σ} {r : Except Signal Unit} (h : e.Chain s (past ++ t :: later) r s')
    (hf : ∀ u ∈ past ++ t :: later, e.Place u.here u.before u.deed) (hs : s.trace = [])
    (hd : t.deed = .reach) (ha : e.asks t.here.head = true) (hn : e.Answered t.here false) :
    later = [] ∧ r = .error (.halted t.here.path 1) ∧ ∃ earlier,
      s'.trace = earlier ++ [⟨t.here.path, .error (.notApproved .step t.here.step.name)⟩] ∧
      ∀ entry ∈ earlier, entry.isDenial = false := by
  obtain ⟨before, after⟩ := h.cut
  obtain ⟨s₁, hn⟩ := hn
  rw [state_eq_before (hf t (by simp)) hd] at hn
  have hp : e.perform t.here t.deed t.before = (.error (.halted t.here.path 1),
      s₁.recorded t.here.top
        ⟨t.here.path, .error (.notApproved .step t.here.step.name)⟩) := by
    rw [hd, perform_reach, gate_of_asks ha, hn]
    rfl
  obtain ⟨rfl, rfl, rfl⟩ := after.eq_nil_of_stops hp (by simp)
  have hs₁ : s₁.trace = t.before.trace := by
    obtain ⟨r, lines, world, hq, -, -⟩ :=
      Run.approve_cases e.world (question t.here.step.kind t.here.head) t.before
    rw [hn] at hq
    cases hq
    rfl
  obtain ⟨new, ht, hnew⟩ := before.adds fun u hu => hf u (List.mem_append_left _ hu)
  refine ⟨rfl, rfl, t.before.trace, by rw [RunState.recorded_trace, hs₁], ?_⟩
  rw [ht, hs, List.nil_append]
  exact fun entry he => (hnew.settled (by simp) entry he).isDenial

end Engine

/-! ## 2. Counting questions -/

/-- Whether an event asks for approval. -/
def Event.isApproval : Event → Bool
  | .approval _ => true
  | _ => false

theorem Event.filter_isApproval (events : List Event) :
    events.filter Event.isApproval = (events.filter Event.isRequest).filter Event.isApproval := by
  rw [List.filter_filter]
  refine List.filter_congr fun ev _ => ?_
  cases ev <;> rfl

theorem filter_isApproval_testsFor (text : String) :
    (Engine.testsFor text).filter Event.isApproval = [] := by
  unfold Engine.testsFor
  cases Expression.exitCodeCheck? text <;> rfl

/-- A turn at a step that is not asked about asks nothing. -/
theorem Turn.filter_isApproval_requests {e : Engine σ} {t : Turn σ}
    (ha : e.asks t.here.head = false) : (t.requests e).filter Event.isApproval = [] := by
  unfold requests
  cases t.deed with
  | reach => simp [ha]
  | start => exact List.filter_cons_of_neg (by simp [Event.isApproval])
  | judge c => exact filter_isApproval_testsFor _
  | act | limit | tire => exact List.filter_nil

theorem filter_isApproval_requests {e : Engine σ} {ts : List (Turn σ)}
    (ha : ∀ t ∈ ts, e.asks t.here.head = false) :
    (ts.flatMap (Turn.requests e)).filter Event.isApproval = [] := by
  rw [List.filter_flatMap, List.flatMap_eq_nil_iff]
  exact fun t ht => Turn.filter_isApproval_requests (ha t ht)

/-! ## 3. Whole runs -/

namespace Executor

/-- The screen lets a workflow run without a question only if it clears every step. -/
theorem clears_of_unquestioned {x : Executor σ} {w : Workflow} (hu : x.unquestioned w = true)
    {s : Step} (hs : s ∈ w.allSteps) :
    s.head.requireApproval = false ∧ (s.commandText ≠ "" →
      (x.screen.command s.commandText).isSafe = true ∧
        (x.screen.command s.commandText).requiresApproval = false) := by
  obtain ⟨hsafe, hneed⟩ := Bool.and_eq_true_iff.mp hu
  exact Security.Screen.clears_step hsafe (by simpa using hneed) hs

/-- The question about a workflow as a whole is put, and answered with yes or no. -/
def Answered (x : Executor σ) (w : Workflow) (r : RunRequest) (world : σ) (yes : Bool) : Prop :=
  x.securityCheck = true ∧ x.unquestioned w = false ∧ ∃ s s',
    x.filled w r world = (.ok (), s) ∧
      Run.approve x.world (question w) (s.told (x.warnings w) s.world) = (.ok yes, s')

/-- **A screened run asks about no step**: either all of it is approved, or the screen has seen that no
step is flagged. -/
theorem asks_of_securityCheck {x : Executor σ} {w : Workflow} {r : RunRequest} {world : σ}
    (hc : x.securityCheck = true) :
    ∀ t ∈ x.turns w r world, (x.engineOf w r world).asks t.here.head = false := by
  intro t ht
  obtain ⟨approved, s, hop, h⟩ := x.begins_of_turn w r world ht
  rw [Engine.asks, Bool.and_eq_false_iff]
  cases h with
  | unscreened _ _ hc' => rw [hc] at hc'; cases hc'
  | unquestioned _ _ _ _ hu =>
    obtain ⟨earlier, later, hts⟩ := List.append_of_mem ht
    have hfits := (turns_of_begun hop).2
    rw [hts] at hfits
    exact Or.inl (clears_of_unquestioned hu hfits.here.step).1
  | allowed =>
    rw [engineOf_of_begun hop]
    exact Or.inr rfl

/-- The questions of a screened run are those that it puts before its steps. -/
theorem questions_of_securityCheck {x : Executor σ} {w : Workflow} {r : RunRequest} {world : σ}
    (hc : x.securityCheck = true) :
    (x.runWorkflow w r world).2.events.filter Event.isApproval =
      (x.upFront w r world).filter Event.isApproval := by
  rw [Event.filter_isApproval, log_eq, List.filter_append,
    filter_isApproval_requests (asks_of_securityCheck hc), List.append_nil]

/-- **A run is approved as a whole by a yes to the question about its workflow, and only by it.** -/
theorem approved_iff (x : Executor σ) (w : Workflow) (r : RunRequest) (world : σ) :
    (x.engineOf w r world).approved = true ↔ x.Answered w r world true := by
  obtain ⟨o, hop, ho⟩ := x.exists_opening w r world
  show (x.opening w r world).approved = true ↔ _
  rw [hop]
  unfold Answered Opening.approved
  cases ho with
  | begun approved s h =>
    cases h with
    | unscreened _ _ hc => simp [hc]
    | unquestioned _ _ _ _ hu => simp [hu]
    | allowed s s' hf hc hu hy => simp [hc, hu, hf, hy]
  | unfilled _ _ hf => simp [hf]
  | refused s s' hf hc hu hn => simp [hc, hu, hf, hn]
  | unanswered _ s s' hf hc hu _ hn => simp [hc, hu, hf, hn]

/-- A no to the question about the workflow turns the run down before its steps. -/
theorem opening_of_refused {x : Executor σ} {w : Workflow} {r : RunRequest} {world : σ}
    (h : x.Answered w r world false) : ∃ s, x.opening w r world = .declined s := by
  obtain ⟨hc, hu, s, s', hf, hn⟩ := h
  refine ⟨s', ?_⟩
  have hf : Run.fillMissing x.world w r.interactive (startState w r world) = (.ok (), s) := hf
  unfold opening
  rw [hf]
  dsimp only
  rw [if_pos hc, approveWorkflow_apply, hu, hn]
  rfl

end Executor

/-! ## 4. Safety -/

/-- A report on a run that was turned down: it ended there, and its last entry, and no other, says
so. -/
structure RunReport.TurnedDown (report : RunReport) (what : Approvable) (path name : String) :
    Prop where
  status : report.status = .halted
  exitCode : report.exitCode = some 1
  failedStep : report.failedStep = some path
  trace : ∃ earlier, report.trace = earlier ++ [⟨path, .error (.notApproved what name)⟩] ∧
    ∀ entry ∈ earlier, entry.isDenial = false

namespace Executor

/-- **What holds of questions and answers in a run.**

* `log`: all requests of a run are those before its steps and then those of its turns, in order;
* `wholeRun`: only a yes to the question about the workflow approves its steps as a whole;
* `yes`: what a run does at a step or in its blocks after it has come to it, it does behind a yes, if
  the step has to be asked about;
* `quoted`: the question about a command shows the command that is started;
* `no`: after a no there is no further turn, the question is the last request, and the run is
  reported as turned down at the step;
* `once`, `unasked`: a screened run asks at most once, and not at all only if the screen clears the
  workflow and no step is flagged;
* `missing`, `refused`: a run without a value for a required variable, and one that is turned down as
  a whole, come to no step and request nothing more. -/
structure ApprovalSafe (x : Executor σ) (w : Workflow) (r : RunRequest) (world : σ) : Prop where
  log : (x.runWorkflow w r world).2.events.filter Event.isRequest =
    x.upFront w r world ++ (x.turns w r world).flatMap (Turn.requests (x.engineOf w r world))
  wholeRun : (x.engineOf w r world).approved = true ↔ x.Answered w r world true
  yes : ∀ past t later, x.turns w r world = past ++ t :: later →
    ∀ o, o = t.here ∧ t.deed ≠ .reach ∨ o ∈ t.around →
      (x.engineOf w r world).asks o.head = true →
        Engine.Reached o past ∧ (x.engineOf w r world).Answered o true
  quoted : ∀ t ∈ x.turns w r world, t.deed = .start → t.here.head.command ≠ "" →
    t.requests (x.engineOf w r world) = [.spawned t.here.head.command] ∧
      Engine.question t.here.step.kind t.here.head =
        "Step '" ++ t.here.step.name ++ "' requires approval: " ++ t.here.head.command
  no : ∀ past t later, x.turns w r world = past ++ t :: later → t.deed = .reach →
    (x.engineOf w r world).asks t.here.head = true →
      (x.engineOf w r world).Answered t.here false →
        later = [] ∧
        ((x.runWorkflow w r world).2.events.filter Event.isRequest).getLast? =
          some (.approval (Engine.question t.here.step.kind t.here.head)) ∧
        ∃ report, (x.runWorkflow w r world).1 = .reported report ∧
          report.TurnedDown .step t.here.path t.here.step.name
  once : x.securityCheck = true →
    ((x.runWorkflow w r world).2.events.filter Event.isApproval).length ≤ 1
  unasked : x.securityCheck = true → (x.filled w r world).1 = .ok () →
    (x.runWorkflow w r world).2.events.filter Event.isApproval = [] →
      (x.screen.workflow w).isSafe = true ∧ ∀ s ∈ w.allSteps, s.head.requireApproval = false
  missing : ∀ name, (x.runWorkflow w r world).1 = .missingVariable name →
    x.turns w r world = [] ∧ (x.runWorkflow w r world).2.events.filter Event.isRequest = []
  refused : x.Answered w r world false →
    x.turns w r world = [] ∧
    (x.runWorkflow w r world).2.events.filter Event.isRequest = [.approval (question w)] ∧
    ∃ report, (x.runWorkflow w r world).1 = .reported report ∧
      report.TurnedDown .workflow w.name w.name

theorem answered_of_later {x : Executor σ} {w : Workflow} {r : RunRequest} {world : σ}
    {past later : List (Turn σ)} {t : Turn σ} (hts : x.turns w r world = past ++ t :: later)
    {o : Occurrence σ} (ho : o = t.here ∧ t.deed ≠ .reach ∨ o ∈ t.around)
    (ha : (x.engineOf w r world).asks o.head = true) :
    Engine.Reached o past ∧ (x.engineOf w r world).Answered o true := by
  have ht : t ∈ x.turns w r world := by simp [hts]
  obtain ⟨approved, s, hop, -⟩ := x.begins_of_turn w r world ht
  obtain ⟨hchain, hfits⟩ := turns_of_begun hop
  rw [hts] at hchain hfits
  have hreached : Engine.Reached o past := by
    rcases ho with ⟨rfl, hd⟩ | ho
    · exact hfits.here.here.resolve_left hd
    · exact (hfits.here.around o ho).2
  exact ⟨hreached, hchain.answered hreached ha⟩

theorem turnedDown_of_no {x : Executor σ} {w : Workflow} {r : RunRequest} {world : σ}
    {past later : List (Turn σ)} {t : Turn σ} (hts : x.turns w r world = past ++ t :: later)
    (hd : t.deed = .reach) (ha : (x.engineOf w r world).asks t.here.head = true)
    (hn : (x.engineOf w r world).Answered t.here false) :
    later = [] ∧
    ((x.runWorkflow w r world).2.events.filter Event.isRequest).getLast? =
      some (.approval (Engine.question t.here.step.kind t.here.head)) ∧
    ∃ report, (x.runWorkflow w r world).1 = .reported report ∧
      report.TurnedDown .step t.here.path t.here.step.name := by
  have ht : t ∈ x.turns w r world := by simp [hts]
  obtain ⟨approved, s, hop, hbegins⟩ := x.begins_of_turn w r world ht
  obtain ⟨hchain, hfits⟩ := turns_of_begun hop
  have hplace := hfits.place
  rw [hts] at hchain hplace
  obtain ⟨rfl, hr, earlier, ht, hearlier⟩ := hchain.stopped_of_no hplace hbegins.trace hd ha hn
  refine ⟨rfl, ?_, ?_⟩
  · have hq : t.requests (x.engineOf w r world) =
        [.approval (Engine.question t.here.step.kind t.here.head)] := by
      unfold Turn.requests
      rw [hd]
      exact if_pos ha
    rw [log_eq, hts, List.flatMap_append, List.flatMap_cons, List.flatMap_nil, List.append_nil, hq,
      ← List.append_assoc, List.getLast?_concat]
  · rw [runWorkflow_eq, hop]
    dsimp only
    rw [runSteps_apply, hr]
    exact ⟨_, rfl, rfl, rfl, rfl, earlier, ht, hearlier⟩

theorem cleared_of_unasked {x : Executor σ} {w : Workflow} {r : RunRequest} {world : σ}
    (hc : x.securityCheck = true) (hf : (x.filled w r world).1 = .ok ())
    (hq : (x.runWorkflow w r world).2.events.filter Event.isApproval = []) :
    (x.screen.workflow w).isSafe = true ∧ ∀ s ∈ w.allSteps, s.head.requireApproval = false := by
  rw [questions_of_securityCheck hc] at hq
  unfold upFront at hq
  rw [hf, hc] at hq
  cases hu : x.unquestioned w with
  | false => rw [hu] at hq; cases hq
  | true => exact ⟨(Bool.and_eq_true_iff.mp hu).1, fun s hs => (clears_of_unquestioned hu hs).1⟩

theorem nothing_of_missing {x : Executor σ} {w : Workflow} {r : RunRequest} {world : σ}
    {name : String} (h : (x.runWorkflow w r world).1 = .missingVariable name) :
    x.turns w r world = [] ∧ (x.runWorkflow w r world).2.events.filter Event.isRequest = [] := by
  rw [runWorkflow_eq] at h ⊢
  obtain ⟨o, hop, ho⟩ := x.exists_opening w r world
  rw [hop] at h ⊢
  cases o with
  | begun approved s =>
    -- the steps of a run never end for want of a variable
    dsimp only at h
    rw [runSteps_apply] at h
    have hchain := (turns_of_begun hop).1
    rcases hr : ((x.engine approved).runBlock "" true w.steps s).1 with signal | u
    · rw [hr] at h hchain
      cases signal with
      | missingVariable name => exact hchain.ne_missing.elim
      | halted | returned | broken | undecided | raised | unfinished => cases h
    · rw [hr] at h
      cases h
  | declined s => cases h
  | stopped signal s =>
    refine ⟨turns_of_stopped hop, ?_⟩
    cases ho with
    | unfilled _ _ _ _ hb => exact hb.requests
    | unanswered _ s _ _ _ _ hs =>
      cases signal with
      | raised fault => cases h
      | halted | returned | broken | undecided | missingVariable | unfinished => cases hs

theorem turnedDown_of_refused {x : Executor σ} {w : Workflow} {r : RunRequest} {world : σ}
    (h : x.Answered w r world false) :
    x.turns w r world = [] ∧
    (x.runWorkflow w r world).2.events.filter Event.isRequest = [.approval (question w)] ∧
    ∃ report, (x.runWorkflow w r world).1 = .reported report ∧
      report.TurnedDown .workflow w.name w.name := by
  obtain ⟨s, hop⟩ := opening_of_refused h
  have hturns := turns_of_declined hop
  refine ⟨hturns, ?_, ?_⟩
  · obtain ⟨hc, hu, s, s', hf, -⟩ := h
    rw [log_eq, hturns]
    unfold upFront
    rw [hf, hc, hu]
    rfl
  · rw [runWorkflow_eq, hop]
    exact ⟨_, rfl, rfl, rfl, rfl, [], rfl, by simp⟩

/-- **Approval is safe in every run of every workflow.** -/
theorem runWorkflow_approvalSafe (x : Executor σ) (w : Workflow) (r : RunRequest) (world : σ) :
    x.ApprovalSafe w r world where
  log := x.log_eq w r world
  wholeRun := x.approved_iff w r world
  yes _ _ _ hts _ ho ha := answered_of_later hts ho ha
  quoted t _ hd hc := by
    constructor
    · unfold Turn.requests
      rw [hd]
    · unfold Engine.question Engine.summary
      rw [if_neg hc]
      rfl
  no _ _ _ hts hd ha hn := turnedDown_of_no hts hd ha hn
  once hc := by
    rw [questions_of_securityCheck hc]
    refine Nat.le_trans (List.length_filter_le ..) ?_
    unfold upFront
    split
    · split <;> simp
    · exact Nat.zero_le 1
  unasked hc hf hq := cleared_of_unasked hc hf hq
  missing _ h := nothing_of_missing h
  refused h := turnedDown_of_refused h

end Executor

end Runbook
