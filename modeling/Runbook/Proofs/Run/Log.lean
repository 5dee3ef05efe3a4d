import Runbook.Proofs.Run.Opening

/-!
# The log of a run

The events of a run are a log of what it did. Of these the requests -- commands, tests and questions
for approval -- can be told from its turns alone:

* `Turn.requests`: what a turn requests;
* `Chain.requests`: the requests of a chain are those of its turns;
* `Executor.upFront`: what a run requests before its steps;
* **`log_eq`**: the requests of a run are those before its steps and then those of its turns.
-/

namespace Runbook

variable {σ : Type}

/-! ## 1. The requests of turns -/

/-- What a turn requests: an answer about its step, its command, or the test of its condition. -/
def Turn.requests (e : Engine σ) (t : Turn σ) : List Event :=
  match t.deed with
  | .reach =>
    if e.asks t.here.head then [.approval (Engine.question t.here.step.kind t.here.head)] else []
  | .start => [.spawned t.here.head.command]
  | .judge c => Engine.testsFor (Engine.judgedText c t.before.context)
  | .act _ => []
  | .limit _ => []
  | .tire => []

namespace Engine

theorem filter_isRequest_testsFor (text : String) :
    (testsFor text).filter Event.isRequest = testsFor text := by
  unfold testsFor
  cases Expression.exitCodeCheck? text <;> rfl

/-- **A turn adds its requests to the log, and no others.** -/
theorem Does.requests {e : Engine σ} {t : Turn σ} {s' : RunState σ} {r : Except Signal Unit}
    (h : e.Does t.here t.before t.deed r s') :
    s'.events.filter Event.isRequest =
      t.before.events.filter Event.isRequest ++ t.requests e := by
  obtain ⟨o, around, d, s⟩ := t
  dsimp only at h
  have asked : ∀ {lines : List Event}, e.asks o.head = true → lines.all Event.isLine = true →
      (s.events ++ .approval (question o.step.kind o.head) :: lines).filter Event.isRequest =
        s.events.filter Event.isRequest ++ Turn.requests e ⟨o, around, .reach, s⟩ := by
    intro lines ha hl
    rw [List.filter_append, List.filter_cons_of_pos rfl, Event.filter_isRequest_lines hl]
    simp [Turn.requests, ha]
  cases h with
  | free ha => simp [Turn.requests, ha]
  | approved lines world ha hl => exact asked ha hl
  | declined lines world ha hl => exact asked ha hl
  | unanswered signal lines world ha hl => exact asked ha hl
  | broke => exact List.filter_append ..
  | started entry r world more world' hn hx hm =>
    rw [RunState.told_events, RunState.executed_events, List.filter_append, List.filter_append,
      hm, List.append_nil]
    rfl
  | judged c holds world =>
    rw [RunState.captured_events, RunState.told_events, List.filter_append,
      filter_isRequest_testsFor]
    rfl
  | unjudged c signal world =>
    rw [RunState.told_events, List.filter_append, filter_isRequest_testsFor]
    rfl
  | stays | leavesLoop | leavesRun | limited | tired => exact (List.append_nil _).symm

/-- **The log of a chain is that of its turns, in their order.** -/
theorem Chain.requests {e : Engine σ} {s s' : RunState σ} {ts : List (Turn σ)}
    {r : Except Signal Unit} (h : e.Chain s ts r s') :
    s'.events.filter Event.isRequest =
      s.events.filter Event.isRequest ++ ts.flatMap (Turn.requests e) := by
  have one : ∀ {o : Occurrence σ} {d : Deed} {s s₁ : RunState σ} {r : Except Signal Unit}
      (around : List (Occurrence σ)), e.perform o d s = (r, s₁) →
      s₁.events.filter Event.isRequest =
        s.events.filter Event.isRequest ++ Turn.requests e ⟨o, around, d, s⟩ :=
    fun around hp => Does.requests (t := ⟨_, around, _, _⟩) (does_of_perform hp)
  induction h with
  | done s => exact (List.append_nil _).symm
  | next hp _ _ ih => rw [ih, one _ hp, List.flatMap_cons, List.append_assoc]
  | last hp => rw [one _ hp, List.flatMap_cons, List.flatMap_nil, List.append_nil]

end Engine

/-! ## 2. Whole runs -/

namespace Executor

/-- What a run requests before its steps: the answer about the workflow as a whole, if it gets so far
and the screening calls for it. -/
def upFront (x : Executor σ) (w : Workflow) (r : RunRequest) (world : σ) : List Event :=
  match (x.filled w r world).1 with
  | .ok () =>
    if x.securityCheck && !x.unquestioned w then [.approval (question w)] else []
  | .error _ => []

theorem filter_isRequest_closed (w : Workflow) (r : Except Signal Unit) (s : RunState σ) :
    (closed w r s).events.filter Event.isRequest = s.events.filter Event.isRequest := by
  unfold closed
  split
  · rw [RunState.told_events, List.filter_append]
    exact List.append_nil _
  · rfl

theorem log_of_begun {x : Executor σ} {w : Workflow} {r : RunRequest} {world : σ}
    {approved : Bool} {s : RunState σ} {asked : List String}
    (h : x.opening w r world = .begun approved s) (hb : Before s asked) :
    (x.runSteps w approved s).2.events.filter Event.isRequest =
      asked.map .approval ++ (x.turns w r world).flatMap (Turn.requests (x.engineOf w r world)) := by
  rw [runSteps_apply, filter_isRequest_closed, (turns_of_begun h).1.requests, hb.requests]

/-- **The log of a run**: what it requests before its steps, and then what its turns request. -/
theorem log_eq (x : Executor σ) (w : Workflow) (r : RunRequest) (world : σ) :
    (x.runWorkflow w r world).2.events.filter Event.isRequest =
      x.upFront w r world ++ (x.turns w r world).flatMap (Turn.requests (x.engineOf w r world)) := by
  rw [runWorkflow_eq]
  unfold upFront
  obtain ⟨o, hop, ho⟩ := x.exists_opening w r world
  rw [hop]
  cases ho with
  | unfilled signal s hf _ hb =>
    rw [turns_of_stopped hop, hf]
    exact hb.requests
  | begun approved s h =>
    cases h with
    | unscreened s hf hc hb =>
      rw [hf, hc]
      exact log_of_begun hop hb
    | unquestioned s s' hf hc hu hb =>
      rw [hf, hc, hu]
      exact log_of_begun hop hb
    | allowed s s' hf hc hu _ hb =>
      rw [hf, hc, hu]
      exact log_of_begun hop hb
  | refused s s' hf hc hu _ hb =>
    rw [turns_of_declined hop, hf, hc, hu]
    exact hb.requests
  | unanswered signal s s' hf hc hu _ _ hb =>
    rw [turns_of_stopped hop, hf, hc, hu]
    exact hb.requests

end Executor

end Runbook
