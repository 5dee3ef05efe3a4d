import Runbook.Run.Steps

/-!
# What single actions do to the state of a run

One lemma for each action that steps are made of, saying all that it can do:

* `RunState.told`, `recorded`, `executed`, `captured`: the states that the actions lead to;
* `approve_cases`, `confirm_cases`: what is noted when a question is put;
* `Event.isRequest`: what a step asks of the world;
* `gate_of_asks`, `execute_cases`, `runLeaf_cases`, `evaluate_cases`: the ways in which the actions
  of a step can come out.
-/

namespace Runbook

variable {σ α β : Type}

/-! ## 1. Talking to the world -/

/-- The state after some talk with the world: events are noted, and the world has moved on. -/
def RunState.told (s : RunState σ) (more : List Event) (world : σ) : RunState σ :=
  { s with events := s.events ++ more, world := world }

/-- The state with an entry added to the trace, and to the results if it is one of the top level. -/
def RunState.recorded (s : RunState σ) (top : Bool) (entry : StepResult) : RunState σ :=
  { s with trace := s.trace ++ [entry],
           results := if top then s.results ++ [entry] else s.results }

/-- The state after a command: a process result becomes the last one. -/
def RunState.concluded (s : RunState σ) (entry : StepResult) : RunState σ :=
  match entry.result? with
  | some result => { s with last := some result }
  | none => s

/-- The state after a command was started and ended in the given entry. -/
def RunState.executed (s : RunState σ) (command : String) (top : Bool) (entry : StepResult)
    (world : σ) : RunState σ :=
  ((s.told [.spawned command] world).concluded entry).recorded top entry

/-- The state with the outcome of a condition captured. -/
def RunState.captured (s : RunState σ) (c : Condition) (holds : Bool) : RunState σ :=
  match c.capture with
  | some name =>
    if name = "" then s
    else { s with context := s.context.put name (if holds then "true" else "false") }
  | none => s

namespace RunState

@[simp] theorem told_trace (s : RunState σ) (more : List Event) (world : σ) :
    (s.told more world).trace = s.trace := rfl

@[simp] theorem told_events (s : RunState σ) (more : List Event) (world : σ) :
    (s.told more world).events = s.events ++ more := rfl

@[simp] theorem told_context (s : RunState σ) (more : List Event) (world : σ) :
    (s.told more world).context = s.context := rfl

@[simp] theorem told_world (s : RunState σ) (more : List Event) (world : σ) :
    (s.told more world).world = world := rfl

theorem told_nil (s : RunState σ) : s.told [] s.world = s := by
  unfold told
  rw [List.append_nil]

theorem told_told (s : RunState σ) (a b : List Event) (v w : σ) :
    (s.told a v).told b w = s.told (a ++ b) w := by
  unfold told
  rw [List.append_assoc]

@[simp] theorem recorded_trace (s : RunState σ) (top : Bool) (entry : StepResult) :
    (s.recorded top entry).trace = s.trace ++ [entry] := rfl

@[simp] theorem recorded_events (s : RunState σ) (top : Bool) (entry : StepResult) :
    (s.recorded top entry).events = s.events := rfl

@[simp] theorem recorded_context (s : RunState σ) (top : Bool) (entry : StepResult) :
    (s.recorded top entry).context = s.context := rfl

@[simp] theorem concluded_trace (s : RunState σ) (entry : StepResult) :
    (s.concluded entry).trace = s.trace := by
  unfold concluded
  split <;> rfl

@[simp] theorem concluded_results (s : RunState σ) (entry : StepResult) :
    (s.concluded entry).results = s.results := by
  unfold concluded
  split <;> rfl

@[simp] theorem concluded_events (s : RunState σ) (entry : StepResult) :
    (s.concluded entry).events = s.events := by
  unfold concluded
  split <;> rfl

@[simp] theorem concluded_context (s : RunState σ) (entry : StepResult) :
    (s.concluded entry).context = s.context := by
  unfold concluded
  split <;> rfl

@[simp] theorem executed_trace (s : RunState σ) (command : String) (top : Bool)
    (entry : StepResult) (world : σ) :
    (s.executed command top entry world).trace = s.trace ++ [entry] := by
  simp [executed]

@[simp] theorem executed_events (s : RunState σ) (command : String) (top : Bool)
    (entry : StepResult) (world : σ) :
    (s.executed command top entry world).events = s.events ++ [.spawned command] := by
  simp [executed]

@[simp] theorem executed_context (s : RunState σ) (command : String) (top : Bool)
    (entry : StepResult) (world : σ) :
    (s.executed command top entry world).context = s.context := by
  simp [executed]

@[simp] theorem captured_trace (s : RunState σ) (c : Condition) (holds : Bool) :
    (s.captured c holds).trace = s.trace := by
  unfold captured
  split <;> (try split) <;> rfl

@[simp] theorem captured_results (s : RunState σ) (c : Condition) (holds : Bool) :
    (s.captured c holds).results = s.results := by
  unfold captured
  split <;> (try split) <;> rfl

@[simp] theorem captured_events (s : RunState σ) (c : Condition) (holds : Bool) :
    (s.captured c holds).events = s.events := by
  unfold captured
  split <;> (try split) <;> rfl

end RunState

/-- Whether an event asks for a line. -/
def Event.isLine : Event → Bool
  | .asked _ => true
  | _ => false

/-- Whether a signal hands on a fault. -/
def Signal.isRaised : Signal → Bool
  | .raised _ => true
  | _ => false

namespace Run

theorem state_apply (s : RunState σ) : (state : Run σ _) s = (.ok s, s) := rfl

theorem state_bind (f : RunState σ → Run σ α) (s : RunState σ) : (state >>= f) s = f s s := rfl

theorem bind_congr {m : Run σ α} {f g : α → Run σ β} (h : ∀ a, f a = g a) :
    m >>= f = m >>= g := by
  rw [funext h]

/-- An answer as the result of an action: a fault ends the run. -/
def raising (r : Except Fault α) : Except Signal α := r.mapError .raised

theorem isRaised_of_raising {r : Except Fault α} {signal : Signal}
    (h : raising r = .error signal) : signal.isRaised = true := by
  cases r with
  | ok a => cases h
  | error f => cases h; rfl

theorem log_apply (e : Event) (s : RunState σ) : log e s = (.ok (), s.told [e] s.world) := rfl

theorem turnTo_apply (question : σ → α × σ) (s : RunState σ) :
    turnTo question s = (.ok (question s.world).1, { s with world := (question s.world).2 }) := rfl

theorem orRaise_apply (r : Except Fault α) (s : RunState σ) : orRaise r s = (raising r, s) := by
  cases r <;> rfl

theorem warn_apply (text : String) (s : RunState σ) :
    warn text s = (.ok (), s.told [.warning text] s.world) := rfl

theorem spawn_apply (w : World σ) (command : String) (s : RunState σ) :
    spawn w command s = (.ok (w.spawn command s.world).1,
      s.told [.spawned command] (w.spawn command s.world).2) := rfl

theorem readLine_apply (w : World σ) (prompt : String) (s : RunState σ) :
    readLine w prompt s = (raising (w.readLine prompt s.world).1,
      s.told [.asked prompt] (w.readLine prompt s.world).2) := by
  unfold readLine
  simp only [bind_apply, log_apply, turnTo_apply, orRaise_apply]
  rfl

/-- The result of a test. -/
def tested : TestReply → Except Signal Bool
  | .decided holds => .ok holds
  | .undecided reason => .error (.undecided (.undecided reason))
  | .raised fault => .error (.raised fault)

theorem test_apply (w : World σ) (expression : String) (s : RunState σ) :
    test w expression s = (tested (w.test expression s.world).1,
      s.told [.tested expression] (w.test expression s.world).2) := by
  unfold test
  simp only [bind_apply, log_apply, turnTo_apply]
  show (match (w.test expression s.world).1 with
    | .decided holds => (Pure.pure holds : Run σ Bool)
    | .undecided reason => stop (.undecided (.undecided reason))
    | .raised fault => stop (.raised fault)) (s.told [.tested expression] _) = _
  cases (w.test expression s.world).1 <;> rfl

/-- A question that a channel answers is noted. -/
theorem answered_apply (e : Event) (ask : σ → Except Fault α × σ) (s : RunState σ) :
    (log e >>= fun _ => turnTo ask >>= orRaise) s =
      (raising (ask s.world).1, s.told [e] (ask s.world).2) := by
  simp only [bind_apply, log_apply, turnTo_apply, orRaise_apply]
  rfl

/-- A question that a line answers is noted, and so is the line. -/
theorem answeredByLine_apply (w : World σ) (e : Event) (prompt : String) (f : String → α)
    (s : RunState σ) :
    (log e >>= fun _ => readLine w prompt >>= fun line => Pure.pure (f line)) s =
      ((raising (w.readLine prompt s.world).1).map f,
        s.told [e, .asked prompt] (w.readLine prompt s.world).2) := by
  simp only [bind_apply, log_apply, readLine_apply, RunState.told_told, RunState.told_world]
  cases raising (w.readLine prompt s.world).1 <;> rfl

theorem isRaised_of_map_raising {r : Except Fault α} {f : α → β} {signal : Signal}
    (h : (raising r).map f = .error signal) : signal.isRaised = true := by
  cases r with
  | ok a => cases h
  | error fault =>
    cases h
    rfl

/-- Asking for approval notes the question, and after it at most the line by which it is put. -/
theorem approve_cases (w : World σ) (message : String) (s : RunState σ) :
    ∃ r lines world, approve w message s = (r, s.told (.approval message :: lines) world) ∧
      lines.all Event.isLine = true ∧ ∀ signal, r = .error signal → signal.isRaised = true := by
  unfold approve
  cases w.approve with
  | some ask =>
    exact ⟨_, [], _, answered_apply _ (ask message) s, rfl, fun _ => isRaised_of_raising⟩
  | none =>
    exact ⟨_, [.asked _], _, answeredByLine_apply w _ _ isYes s, rfl,
      fun _ => isRaised_of_map_raising⟩

/-- Waiting for a confirmation notes it, and after it at most the line by which it is given. -/
theorem confirm_cases (w : World σ) (step command : String) (s : RunState σ) :
    ∃ r lines world, confirm w step command s =
        (r, s.told (.confirmation step command :: lines) world) ∧
      lines.all Event.isLine = true ∧ ∀ signal, r = .error signal → signal.isRaised = true := by
  unfold confirm
  cases w.confirm with
  | some wait =>
    exact ⟨_, [], _, answered_apply _ (wait step command) s, rfl, fun _ => isRaised_of_raising⟩
  | none =>
    exact ⟨_, [.asked _], _, answeredByLine_apply w _ _ (fun _ => ()) s, rfl,
      fun _ => isRaised_of_map_raising⟩

end Run

/-! ## 2. Requests -/

/-- Whether an event is a request of a step: for a command, a test, or an approval. -/
def Event.isRequest : Event → Bool
  | .spawned _ => true
  | .tested _ => true
  | .approval _ => true
  | _ => false

theorem Event.filter_isRequest_lines {lines : List Event} (h : lines.all Event.isLine = true) :
    lines.filter Event.isRequest = [] := by
  rw [List.filter_eq_nil_iff]
  intro ev hev
  have hl := List.all_eq_true.mp h ev hev
  cases ev <;> simp_all [Event.isLine, Event.isRequest]

namespace Engine

/-! ## 3. Approval -/

/-- Whether a step has to be asked about. -/
def asks (e : Engine σ) (h : StepHead) : Bool := h.requireApproval && !e.approved

/-- The question about a step. -/
def question (kind : StepKind) (h : StepHead) : String :=
  "Step '" ++ h.name ++ "' requires approval: " ++ summary kind h

theorem gate_of_not_asks {e : Engine σ} {h : StepHead} (ha : e.asks h = false) (kind : StepKind)
    (path : String) (top : Bool) (s : RunState σ) : e.gate kind h path top s = (.ok (), s) := by
  unfold asks at ha
  unfold gate
  rw [ha]
  rfl

theorem gate_of_asks {e : Engine σ} {h : StepHead} (ha : e.asks h = true) (kind : StepKind)
    (path : String) (top : Bool) (s : RunState σ) :
    e.gate kind h path top s = match Run.approve e.world (question kind h) s with
      | (.ok true, s') => (.ok (), s')
      | (.ok false, s') =>
        (.error (.halted path 1), s'.recorded top ⟨path, .error (.notApproved .step h.name)⟩)
      | (.error signal, s') => (.error signal, s') := by
  unfold asks at ha
  unfold gate
  rw [ha]
  simp only [if_true, Run.bind_apply]
  rw [question]
  rcases Run.approve e.world ("Step '" ++ h.name ++ "' requires approval: " ++ summary kind h) s
    with ⟨r, s'⟩
  rcases r with signal | yes
  · rfl
  · cases yes <;> rfl

/-! ## 4. Commands and authentications -/

/-- **Starting a command ends in a fault, or in an entry under the step's path.** -/
theorem execute_cases (e : Engine σ) (h : StepHead) (path : String) (top : Bool)
    (s : RunState σ) :
    (∃ fault world, e.execute h path top s =
      (.error (.raised fault), s.told [.spawned h.command] world)) ∨
    ∃ entry world, entry.name = path ∧ e.execute h path top s =
      (.ok entry, s.executed h.command top entry world) := by
  unfold execute
  rw [Run.bind_apply, Run.spawn_apply]
  dsimp only
  cases (e.world.spawn h.command s.world).1 with
  | finished result => exact Or.inr ⟨⟨path, .ok result⟩, _, rfl, rfl⟩
  | refused reason => exact Or.inr ⟨⟨path, .error (.notStarted reason)⟩, _, rfl, rfl⟩
  | raised fault => exact Or.inl ⟨fault, _, rfl⟩

/-- How a step ends once its command has left an entry: well or with a fault if the entry is well,
well or by stopping the run if it is not, as the step lets the run go on or not. -/
inductive Ends (isAuth : Bool) (h : StepHead) (entry : StepResult) : Except Signal Unit → Prop
  | well (r : Except Signal Unit) (hok : entry.ok = true)
      (hr : ∀ signal, r = .error signal → signal.isRaised = true) : Ends isAuth h entry r
  | onward (hok : entry.ok = false) (ha : isAuth = false) (hc : h.continueOnError = true) :
      Ends isAuth h entry (.ok ())
  | halted (hok : entry.ok = false) (hc : isAuth = true ∨ h.continueOnError = false) :
      Ends isAuth h entry (.error (.halted entry.name (failureCode entry)))

/-- **A leaf step starts its command; what it does after that requests nothing.** -/
theorem runLeaf_cases (e : Engine σ) (isAuth : Bool) (h : StepHead) (path : String) (top : Bool)
    (s : RunState σ) :
    (∃ fault world, e.runLeaf isAuth h path top s =
      (.error (.raised fault), s.told [.spawned h.command] world)) ∨
    ∃ entry r world more world', entry.name = path ∧
      e.execute h path top s = (.ok entry, s.executed h.command top entry world) ∧
      e.runLeaf isAuth h path top s =
        (r, (s.executed h.command top entry world).told more world') ∧
      more.filter Event.isRequest = [] ∧ Ends isAuth h entry r := by
  unfold runLeaf
  rw [Run.bind_apply]
  rcases execute_cases e h path top s with ⟨fault, world, hx⟩ | ⟨entry, world, hn, hx⟩
  · rw [hx]
    exact Or.inl ⟨fault, world, rfl⟩
  · rw [hx]
    right
    dsimp only
    let s' := s.executed h.command top entry world
    cases hok : entry.ok with
    | true =>
      cases isAuth with
      | false =>
        exact ⟨entry, .ok (), world, [], s'.world, hn, rfl, by rw [RunState.told_nil]; rfl, rfl,
          .well _ hok (by simp)⟩
      | true =>
        obtain ⟨r, lines, world', hc, hl, hr⟩ := Run.confirm_cases e.world h.name h.command s'
        refine ⟨entry, r, world, _, world', hn, rfl, hc, ?_, .well r hok hr⟩
        rw [List.filter_cons_of_neg (by simp [Event.isRequest])]
        exact Event.filter_isRequest_lines hl
    | false =>
      by_cases hc : (!isAuth && h.continueOnError) = true
      · have hc' : isAuth = false ∧ h.continueOnError = true := by simpa using hc
        refine ⟨entry, .ok (), world, [.warning ("Step " ++ path ++ " failed (" ++
          failureReason entry ++ ")" ++ ", continuing")], s'.world, hn, rfl, ?_, rfl,
          .onward hok hc'.1 hc'.2⟩
        simp only [Bool.false_eq_true, if_false, hc, if_true]
        rfl
      · have hc' : isAuth = true ∨ h.continueOnError = false := by
          cases isAuth <;> simp_all
        refine ⟨entry, _, world, [.warning ("Step " ++ path ++ " failed (" ++
          failureReason entry ++ ")")], s'.world, hn, rfl, ?_, rfl, .halted hok hc'⟩
        simp only [Bool.false_eq_true, if_false, hc, hn]
        rfl

/-! ## 5. Conditions -/

/-- What judging a substituted text requests: a test, unless it compares the last exit code. -/
def testsFor (text : String) : List Event :=
  match Expression.exitCodeCheck? text with
  | some _ => []
  | none => [.tested text]

/-- The text that a condition is judged by: its placeholders and then its variables replaced. -/
def judgedText (c : Condition) (context : Context) : String :=
  Expression.substituteVariables context (Template.resolve context c.expression)

theorem decide_cases (e : Engine σ) (text : String) (s : RunState σ) :
    ∃ r world, e.decide text s = (r, s.told (testsFor text) world) ∧
      ∀ signal, r = .error signal → signal.isRaised = true ∨ ∃ error, signal = .undecided error := by
  unfold decide testsFor
  cases Expression.exitCodeCheck? text with
  | none =>
    refine ⟨_, _, Run.test_apply e.world text s, ?_⟩
    intro signal hs
    cases hr : (e.world.test text s.world).1 <;> rw [hr] at hs <;> cases hs
    · exact Or.inr ⟨_, rfl⟩
    · exact Or.inl rfl
  | some check =>
    obtain ⟨comparison, expected⟩ := check
    dsimp only
    rw [Run.state_bind]
    cases hl : s.last with
    | none =>
      refine ⟨.error (.undecided .missingResult), s.world, ?_, ?_⟩
      · rw [RunState.told_nil]
        rfl
      · intro signal hs
        cases hs
        exact Or.inr ⟨_, rfl⟩
    | some result =>
      dsimp only
      cases Expression.isOversized text with
      | true =>
        refine ⟨.error (.raised .oversizedNumber), s.world, ?_, ?_⟩
        · rw [RunState.told_nil]
          rfl
        · intro signal hs
          cases hs
          exact Or.inl rfl
      | false =>
        refine ⟨.ok (comparison.holds result.returnCode expected), s.world, ?_, by simp⟩
        rw [RunState.told_nil]
        rfl

theorem capture_apply (c : Condition) (holds : Bool) (s : RunState σ) :
    capture c holds s = (.ok (), s.captured c holds) := by
  unfold capture RunState.captured
  cases c.capture with
  | none => rfl
  | some name =>
    by_cases hn : name = ""
    · simp only [hn, if_true]
      rfl
    · simp only [hn, if_false]
      rfl

theorem evaluate_apply (e : Engine σ) (c : Condition) (s : RunState σ) :
    e.evaluate c s = match e.decide (judgedText c s.context) s with
      | (.ok holds, s') => (.ok holds, s'.captured c holds)
      | (.error signal, s') => (.error signal, s') := by
  unfold evaluate judgedText
  simp only [Run.bind_apply, Run.state_apply]
  rcases e.decide (Expression.substituteVariables s.context
    (Template.resolve s.context c.expression)) s with ⟨r, s'⟩
  cases r with
  | error signal => rfl
  | ok holds =>
    simp only [capture_apply]
    rfl

/-- **A condition is judged by its text; an outcome is captured, and without one the run ends.** -/
theorem evaluate_cases (e : Engine σ) (c : Condition) (s : RunState σ) :
    ∃ world, (∃ holds, e.evaluate c s =
        (.ok holds, (s.told (testsFor (judgedText c s.context)) world).captured c holds)) ∨
      ∃ signal, e.evaluate c s =
          (.error signal, s.told (testsFor (judgedText c s.context)) world) ∧
        (signal.isRaised = true ∨ ∃ error, signal = .undecided error) := by
  obtain ⟨r, world, hd, hr⟩ := decide_cases e (judgedText c s.context) s
  refine ⟨world, ?_⟩
  rw [evaluate_apply, hd]
  cases r with
  | ok holds => exact Or.inl ⟨holds, rfl⟩
  | error signal => exact Or.inr ⟨signal, rfl, hr signal rfl⟩

end Engine

end Runbook
