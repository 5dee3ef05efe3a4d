import Runbook.Proofs.Run.Turns
import Runbook.Run.Workflow

/-!
# Whole runs

Before its steps a run fills in missing variables and, if that is asked for, has its workflow
screened. What it does there is said here once, so that theorems on whole runs can go on with the
turns of its steps:

* `Run.Fills`, `fillMissing_fills`: filling in variables reads lines and binds names, and no more;
* `Executor.approveWorkflow_apply`: the screening as warnings and at most one question;
* `Opening`, `Executor.opening`: how a run gets to its steps, or why it does not; `opening_told`: the
  values of a run are those behind the filling in;
* `Executor.turns`: the turns of a whole run, `runWorkflow_eq`: the run read off its opening.
-/

namespace Runbook

variable {σ α β : Type}

/-! ## 1. Missing variables -/

namespace Run

/-- An action that reads lines and binds variables, and does no more than that. -/
def Fills (m : Run σ α) : Prop :=
  ∀ s, (m s).2.trace = s.trace ∧ (m s).2.results = s.results ∧ (m s).2.last = s.last ∧
    (∃ lines, (m s).2.events = s.events ++ lines ∧ lines.all Event.isLine = true) ∧
    ∀ signal, (m s).1 = .error signal →
      signal.isRaised = true ∨ ∃ name, signal = .missingVariable name

theorem Fills.pure (a : α) : Fills (Pure.pure a : Run σ α) :=
  fun s => ⟨rfl, rfl, rfl, ⟨[], (List.append_nil _).symm, rfl⟩, fun _ h => by cases h⟩

theorem Fills.bind {m : Run σ α} {f : α → Run σ β} (hm : Fills m) (hf : ∀ a, Fills (f a)) :
    Fills (m >>= f) := by
  intro s
  obtain ⟨ht, hr, hn, ⟨lines, he, hl⟩, hs⟩ := hm s
  rw [bind_apply]
  rcases h : m s with ⟨r, s'⟩
  rw [h] at ht hr hn he hs
  cases r with
  | error signal => exact ⟨ht, hr, hn, ⟨lines, he, hl⟩, fun g hg => hs g (by cases hg; rfl)⟩
  | ok a =>
    obtain ⟨ht', hr', hn', ⟨more, he', hl'⟩, hs'⟩ := hf a s'
    refine ⟨ht'.trans ht, hr'.trans hr, hn'.trans hn, ⟨lines ++ more, ?_, ?_⟩, hs'⟩
    · rw [he', he, List.append_assoc]
    · rw [List.all_append, hl, hl']
      rfl

theorem Fills.ite {c : Prop} [Decidable c] {a b : Run σ α} (ha : Fills a) (hb : Fills b) :
    Fills (if c then a else b) := by
  by_cases hc : c
  · rw [if_pos hc]
    exact ha
  · rw [if_neg hc]
    exact hb

theorem readLine_fills (w : World σ) (prompt : String) : Fills (readLine w prompt) := by
  intro s
  rw [readLine_apply]
  exact ⟨rfl, rfl, rfl, ⟨[.asked prompt], rfl, rfl⟩, fun _ h => Or.inl (isRaised_of_raising h)⟩

theorem setVariable_fills (name value : String) : Fills (setVariable name value : Run σ Unit) :=
  fun s => ⟨rfl, rfl, rfl, ⟨[], (List.append_nil _).symm, rfl⟩, fun _ h => by cases h⟩

theorem entered_fills (world : World σ) (w : Workflow) (name : String) (interactive : Bool) :
    Fills (entered world w name interactive) := by
  unfold entered
  exact .ite (.bind (readLine_fills _ _) fun _ => .pure _) (.pure _)

theorem standardValue_fills (w : Workflow) (name : String) (interactive : Bool) :
    Fills (standardValue w name interactive : Run σ (Option String)) := by
  have hstop : Fills (stop (.missingVariable name) : Run σ (Option String)) :=
    fun s => ⟨rfl, rfl, rfl, ⟨[], (List.append_nil _).symm, rfl⟩,
      fun _ h => by cases h; exact Or.inr ⟨name, rfl⟩⟩
  unfold standardValue
  cases w.getVariable? name with
  | none => exact .pure _
  | some v =>
    dsimp only
    cases v.defaultValue with
    | some standard => exact .pure _
    | none => exact .ite hstop (.pure _)

theorem fillName_fills (world : World σ) (w : Workflow) (interactive : Bool) (name : String) :
    Fills (fillName world w interactive name) := by
  unfold fillName
  refine .bind (entered_fills _ _ _ _) fun line => .ite (setVariable_fills _ _) ?_
  refine .bind (standardValue_fills _ _ _) fun value => ?_
  cases value with
  | none => exact .pure _
  | some value => exact setVariable_fills _ _

theorem fillNames_fills (world : World σ) (w : Workflow) (interactive : Bool)
    (names : List String) : Fills (fillNames world w interactive names) := by
  induction names with
  | nil => exact .pure _
  | cons name rest ih => exact .bind (fillName_fills _ _ _ _) fun _ => ih

/-- **Filling in the missing variables reads lines and binds names, and no more.** -/
theorem fillMissing_fills (world : World σ) (w : Workflow) (interactive : Bool) :
    Fills (fillMissing world w interactive) := by
  intro s
  exact fillNames_fills world w interactive (missingNames w s.context) s

end Run

/-! ## 2. The screening -/

namespace Executor

/-- What the screening of a workflow notes before it asks. -/
def warnings (x : Executor σ) (w : Workflow) : List Event :=
  (x.screen.workflow w).warning?.toList.map .warning ++
    (x.screen.workflow w).issues.map fun issue => .warning ("Security: " ++ issue)

/-- The question about a workflow as a whole. -/
def question (w : Workflow) : String := "Workflow '" ++ w.name ++ "' requires approval to run"

/-- Whether the screening lets a workflow run without a question. -/
def unquestioned (x : Executor σ) (w : Workflow) : Bool :=
  (x.screen.workflow w).isSafe && !(x.screen.workflow w).requiresApproval

theorem filter_isRequest_warnings (x : Executor σ) (w : Workflow) :
    (x.warnings w).filter Event.isRequest = [] := by
  rw [List.filter_eq_nil_iff]
  intro ev hev
  unfold warnings at hev
  rw [List.mem_append, List.mem_map, List.mem_map] at hev
  rcases hev with ⟨_, _, rfl⟩ | ⟨_, _, rfl⟩ <;> simp [Event.isRequest]

theorem warnIssues_apply (issues : List String) (s : RunState σ) :
    warnIssues issues s =
      (.ok (), s.told (issues.map fun issue => .warning ("Security: " ++ issue)) s.world) := by
  induction issues generalizing s with
  | nil =>
    rw [List.map_nil, RunState.told_nil]
    rfl
  | cons issue rest ih =>
    unfold warnIssues
    rw [Run.bind_apply, Run.warn_apply]
    dsimp only
    rw [ih, RunState.told_told]
    rfl

theorem warnCount_apply (r : Security.WorkflowReport) (s : RunState σ) :
    warnCount r s = (.ok (), s.told (r.warning?.toList.map .warning) s.world) := by
  unfold warnCount
  cases r.warning? with
  | none =>
    rw [Option.toList_none, List.map_nil, RunState.told_nil]
    rfl
  | some text => rfl

/-- **The screening notes its warnings, and asks unless the report is safe and calls for nothing.** -/
theorem approveWorkflow_apply (x : Executor σ) (w : Workflow) (s : RunState σ) :
    x.approveWorkflow w s =
      if x.unquestioned w then (.ok (true, false), s.told (x.warnings w) s.world)
      else match Run.approve x.world (question w) (s.told (x.warnings w) s.world) with
        | (.ok yes, s') => (.ok (yes, true), s')
        | (.error signal, s') => (.error signal, s') := by
  unfold approveWorkflow
  simp only [Run.bind_apply, warnCount_apply, warnIssues_apply, RunState.told_told,
    RunState.told_world]
  unfold unquestioned warnings
  by_cases hs : ((x.screen.workflow w).isSafe && !(x.screen.workflow w).requiresApproval) = true
  · rw [if_pos hs, if_pos hs]
    rfl
  · rw [if_neg hs, if_neg hs, Run.bind_apply, question]
    rcases Run.approve x.world ("Workflow '" ++ w.name ++ "' requires approval to run") _ with ⟨r, s'⟩
    cases r <;> rfl


end Executor

/-! ## 3. Openings -/

/-- How a run gets to its steps, approved as a whole or not; or that it was turned down before them,
or stopped by a signal. -/
inductive Opening (σ : Type) where
  | begun (approved : Bool) (s : RunState σ)
  | declined (s : RunState σ)
  | stopped (signal : Signal) (s : RunState σ)

/-- The state of a run behind its opening. -/
def Opening.state : Opening σ → RunState σ
  | .begun _ s => s
  | .declined s => s
  | .stopped _ s => s

/-- Whether the steps of a run are approved as a whole. -/
def Opening.approved : Opening σ → Bool
  | .begun approved _ => approved
  | .declined _ => false
  | .stopped .. => false

namespace Executor

/-- How a run opens. -/
def opening (x : Executor σ) (w : Workflow) (r : RunRequest) (world : σ) : Opening σ :=
  match Run.fillMissing x.world w r.interactive (startState w r world) with
  | (.error signal, s) => .stopped signal s
  | (.ok (), s) =>
    if x.securityCheck then
      match x.approveWorkflow w s with
      | (.ok (true, asked), s) => .begun asked s
      | (.ok (false, _), s) => .declined s
      | (.error signal, s) => .stopped signal s
    else .begun false s

/-- The engine of a run that is approved as a whole or not. -/
def engine (x : Executor σ) (approved : Bool) : Engine σ := ⟨x.world, x.cap, x.fuel, approved⟩

/-- **A run is what its opening makes of it.** -/
theorem runWorkflow_eq (x : Executor σ) (w : Workflow) (r : RunRequest) (world : σ) :
    x.runWorkflow w r world = match x.opening w r world with
      | .begun approved s => x.runSteps w approved s
      | .declined s => declined w s
      | .stopped signal s => (outcomeOf w s (.error signal), s) := by
  unfold runWorkflow opening screenAndRun
  rcases Run.fillMissing x.world w r.interactive (startState w r world) with ⟨f, s⟩
  cases f with
  | error signal => rfl
  | ok u =>
    cases x.securityCheck with
    | false => rfl
    | true =>
      dsimp only
      rcases x.approveWorkflow w s with ⟨a, s'⟩
      rcases a with signal | ⟨yes, asked⟩
      · rfl
      · cases yes <;> rfl

/-- The engine of a run: its steps are approved as a whole if its opening says so. -/
def engineOf (x : Executor σ) (w : Workflow) (r : RunRequest) (world : σ) : Engine σ :=
  x.engine (x.opening w r world).approved

/-- The turns of the steps of a run. -/
def turns (x : Executor σ) (w : Workflow) (r : RunRequest) (world : σ) : List (Turn σ) :=
  match x.opening w r world with
  | .begun approved s => ((x.engine approved).blockCourse [] "" true w.steps).turns s
  | .declined _ => []
  | .stopped .. => []

theorem engineOf_of_begun {x : Executor σ} {w : Workflow} {r : RunRequest} {world : σ}
    {approved : Bool} {s : RunState σ} (h : x.opening w r world = .begun approved s) :
    x.engineOf w r world = x.engine approved := by
  unfold engineOf
  rw [h]
  rfl

/-- What is behind a run before its steps: no entries and no process result, and a log without requests
of steps except for the question about the workflow as a whole, if it was put. -/
structure Before (s : RunState σ) (asked : List String) : Prop where
  trace : s.trace = []
  results : s.results = []
  last : s.last = none
  requests : s.events.filter Event.isRequest = asked.map .approval

theorem Before.of_fills (w : Workflow) (r : RunRequest) (world : σ) {m : Run σ α}
    (hm : Run.Fills m) : Before (m (startState w r world)).2 [] := by
  have hs : (startState w r world).trace = [] ∧ (startState w r world).results = [] ∧
      (startState w r world).last = none ∧
      (startState w r world).events.filter Event.isRequest = [] := by
    unfold startState
    cases r.context with
    | some context => exact ⟨rfl, rfl, rfl, rfl⟩
    | none =>
      dsimp only
      cases w.missingProfile? r.profile with
      | some profile => exact ⟨rfl, rfl, rfl, rfl⟩
      | none => exact ⟨rfl, rfl, rfl, rfl⟩
  obtain ⟨hst, hsr, hsl, hse⟩ := hs
  obtain ⟨ht, hr, hn, ⟨lines, he, hl⟩, -⟩ := hm (startState w r world)
  refine ⟨ht.trans hst, hr.trans hsr, hn.trans hsl, ?_⟩
  rw [he, List.filter_append, hse, Event.filter_isRequest_lines hl]
  rfl

theorem Before.told {s : RunState σ} {asked : List String} (h : Before s asked)
    {more : List Event} (new : List String)
    (hm : more.filter Event.isRequest = new.map .approval) (world : σ) :
    Before (s.told more world) (asked ++ new) := by
  refine ⟨h.trace, h.results, h.last, ?_⟩
  rw [RunState.told_events, List.filter_append, h.requests, hm, List.map_append]

/-- The filling in of missing variables, from the start of a run. -/
def filled (x : Executor σ) (w : Workflow) (r : RunRequest) (world : σ) :
    Except Signal Unit × RunState σ :=
  Run.fillMissing x.world w r.interactive (startState w r world)

/-- **The ways in which a run gets to its steps**, approved as a whole or not. -/
inductive Begins (x : Executor σ) (w : Workflow) (r : RunRequest) (world : σ) :
    Bool → RunState σ → Prop
  | unscreened (s : RunState σ) (hf : x.filled w r world = (.ok (), s))
      (hc : x.securityCheck = false) (hb : Before s []) : Begins x w r world false s
  | unquestioned (s s' : RunState σ) (hf : x.filled w r world = (.ok (), s))
      (hc : x.securityCheck = true) (hu : x.unquestioned w = true) (hb : Before s' []) :
      Begins x w r world false s'
  | allowed (s s' : RunState σ) (hf : x.filled w r world = (.ok (), s))
      (hc : x.securityCheck = true) (hu : x.unquestioned w = false)
      (hy : Run.approve x.world (question w) (s.told (x.warnings w) s.world) = (.ok true, s'))
      (hb : Before s' [question w]) : Begins x w r world true s'

theorem Begins.before {x : Executor σ} {w : Workflow} {r : RunRequest} {world : σ}
    {approved : Bool} {s : RunState σ} (h : x.Begins w r world approved s) :
    ∃ asked, Before s asked := by
  cases h with
  | unscreened _ _ _ hb => exact ⟨_, hb⟩
  | unquestioned _ _ _ _ _ hb => exact ⟨_, hb⟩
  | allowed _ _ _ _ _ _ hb => exact ⟨_, hb⟩

theorem Begins.trace {x : Executor σ} {w : Workflow} {r : RunRequest} {world : σ}
    {approved : Bool} {s : RunState σ} (h : x.Begins w r world approved s) : s.trace = [] := by
  obtain ⟨_, hb⟩ := h.before
  exact hb.trace

/-- **All the ways in which a run can open.** -/
inductive Opens (x : Executor σ) (w : Workflow) (r : RunRequest) (world : σ) : Opening σ → Prop
  | begun (approved : Bool) (s : RunState σ) (h : x.Begins w r world approved s) :
      Opens x w r world (.begun approved s)
  | unfilled (signal : Signal) (s : RunState σ) (hf : x.filled w r world = (.error signal, s))
      (hs : signal.isRaised = true ∨ ∃ name, signal = .missingVariable name) (hb : Before s []) :
      Opens x w r world (.stopped signal s)
  | refused (s s' : RunState σ) (hf : x.filled w r world = (.ok (), s))
      (hc : x.securityCheck = true) (hu : x.unquestioned w = false)
      (hn : Run.approve x.world (question w) (s.told (x.warnings w) s.world) = (.ok false, s'))
      (hb : Before s' [question w]) : Opens x w r world (.declined s')
  | unanswered (signal : Signal) (s s' : RunState σ) (hf : x.filled w r world = (.ok (), s))
      (hc : x.securityCheck = true) (hu : x.unquestioned w = false)
      (hs : signal.isRaised = true)
      (hn : Run.approve x.world (question w) (s.told (x.warnings w) s.world) =
        (.error signal, s'))
      (hb : Before s' [question w]) : Opens x w r world (.stopped signal s')

/-- **A run opens in one of these ways.** -/
theorem opening_opens (x : Executor σ) (w : Workflow) (r : RunRequest) (world : σ) :
    x.Opens w r world (x.opening w r world) := by
  have hb := Before.of_fills w r world
    (Run.fillMissing_fills x.world w r.interactive)
  have hs := (Run.fillMissing_fills x.world w r.interactive (startState w r world)).2.2.2.2
  unfold opening
  rcases hf : Run.fillMissing x.world w r.interactive (startState w r world) with ⟨f, s⟩
  rw [hf] at hb hs
  cases f with
  | error signal => exact .unfilled signal s hf (hs signal rfl) hb
  | ok u =>
    dsimp only
    cases hc : x.securityCheck with
    | false => exact .begun _ _ (.unscreened s hf hc hb)
    | true =>
      have hw : Before (s.told (x.warnings w) s.world) [] :=
        hb.told [] (filter_isRequest_warnings x w) _
      rw [if_pos rfl, approveWorkflow_apply]
      cases hu : x.unquestioned w with
      | true => exact .begun _ _ (.unquestioned s _ hf hc hu hw)
      | false =>
        rw [if_neg (by simp)]
        obtain ⟨a, lines, world', hq, hl, ha⟩ :=
          Run.approve_cases x.world (question w) (s.told (x.warnings w) s.world)
        have hb' : Before ((s.told (x.warnings w) s.world).told
            (.approval (question w) :: lines) world') [question w] := by
          refine hw.told [question w] ?_ _
          rw [List.filter_cons_of_pos rfl, Event.filter_isRequest_lines hl]
          rfl
        rw [hq]
        rcases a with signal | yes
        · exact .unanswered signal s _ hf hc hu (ha signal rfl) hq hb'
        · cases yes with
          | true => exact .begun _ _ (.allowed s _ hf hc hu hq hb')
          | false => exact .refused s _ hf hc hu hq hb'

theorem exists_opening (x : Executor σ) (w : Workflow) (r : RunRequest) (world : σ) :
    ∃ o, x.opening w r world = o ∧ x.Opens w r world o :=
  ⟨_, rfl, x.opening_opens w r world⟩

/-- **Once the missing variables are filled in, an opening only talks to the world.** -/
theorem opening_told (x : Executor σ) (w : Workflow) (r : RunRequest) (world : σ) :
    ∃ more world', (x.opening w r world).state = (x.filled w r world).2.told more world' := by
  have hf : x.filled w r world = Run.fillMissing x.world w r.interactive (startState w r world) :=
    rfl
  unfold opening
  rw [← hf]
  rcases x.filled w r world with ⟨f, s⟩
  have silent : ∃ more world', s = s.told more world' := ⟨[], s.world, s.told_nil.symm⟩
  cases f with
  | error signal => exact silent
  | ok u =>
    cases x.securityCheck with
    | false => exact silent
    | true =>
      dsimp only
      rw [if_pos rfl, approveWorkflow_apply]
      cases x.unquestioned w with
      | true => exact ⟨_, _, rfl⟩
      | false =>
        obtain ⟨a, lines, world', hq, -, -⟩ :=
          Run.approve_cases x.world (question w) (s.told (x.warnings w) s.world)
        rw [if_neg (by simp), hq, RunState.told_told]
        rcases a with signal | yes
        · exact ⟨_, _, rfl⟩
        · cases yes <;> exact ⟨_, _, rfl⟩

/-! ## 4. Steps -/

/-- The state at the end of the steps of a run; a step that stopped them is noted. -/
def closed (w : Workflow) (r : Except Signal Unit) (s : RunState σ) : RunState σ :=
  match r with
  | .error (.halted path _) =>
    s.told [.warning ("Workflow '" ++ w.name ++ "' halted at step '" ++ path ++ "'")] s.world
  | _ => s

theorem runSteps_apply (x : Executor σ) (w : Workflow) (approved : Bool) (s : RunState σ) :
    x.runSteps w approved s =
      (outcomeOf w ((x.engine approved).runBlock "" true w.steps s).2
          ((x.engine approved).runBlock "" true w.steps s).1,
        closed w ((x.engine approved).runBlock "" true w.steps s).1
          ((x.engine approved).runBlock "" true w.steps s).2) := by
  unfold runSteps engine
  dsimp only
  rcases Engine.runBlock ⟨x.world, x.cap, x.fuel, approved⟩ "" true w.steps s with ⟨r, s'⟩
  rcases r with signal | u
  · cases signal <;> rfl
  · rfl

/-- **The turns of a run that gets to its steps are a chain, and fit the steps of its workflow.** -/
theorem turns_of_begun {x : Executor σ} {w : Workflow} {r : RunRequest} {world : σ}
    {approved : Bool} {s : RunState σ} (h : x.opening w r world = .begun approved s) :
    (x.engineOf w r world).Chain s (x.turns w r world)
        ((x.engine approved).runBlock "" true w.steps s).1
        ((x.engine approved).runBlock "" true w.steps s).2 ∧
      EachTurn (Turn.Fits (x.engineOf w r world) w.allSteps) [] (x.turns w r world) := by
  have hs := Engine.blockCourse_sound (x.engine approved) "" true w.steps
  have hc := hs.chain s
  rw [Engine.blockCourse_run] at hc
  rw [engineOf_of_begun h]
  unfold turns
  rw [h]
  refine ⟨?_, hs.fits [] s trivial⟩
  rcases hr : (x.engine approved).runBlock "" true w.steps s with ⟨r, s'⟩
  rw [hr] at hc
  cases r <;> exact hc

theorem turns_of_declined {x : Executor σ} {w : Workflow} {r : RunRequest} {world : σ}
    {s : RunState σ} (h : x.opening w r world = .declined s) : x.turns w r world = [] := by
  unfold turns
  rw [h]

theorem turns_of_stopped {x : Executor σ} {w : Workflow} {r : RunRequest} {world : σ}
    {signal : Signal} {s : RunState σ} (h : x.opening w r world = .stopped signal s) :
    x.turns w r world = [] := by
  unfold turns
  rw [h]

/-- A run that has turns has got to its steps. -/
theorem begins_of_turn (x : Executor σ) (w : Workflow) (r : RunRequest) (world : σ) {t : Turn σ}
    (ht : t ∈ x.turns w r world) :
    ∃ approved s, x.opening w r world = .begun approved s ∧ x.Begins w r world approved s := by
  obtain ⟨o, hop, ho⟩ := x.exists_opening w r world
  cases ho with
  | begun approved s h => exact ⟨approved, s, hop, h⟩
  | unfilled =>
    rw [turns_of_stopped hop] at ht
    cases ht
  | refused =>
    rw [turns_of_declined hop] at ht
    cases ht
  | unanswered =>
    rw [turns_of_stopped hop] at ht
    cases ht

end Executor

end Runbook
