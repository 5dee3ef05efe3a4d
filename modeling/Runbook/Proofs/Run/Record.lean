import Runbook.Proofs.Run.Approval
import Runbook.Proofs.Run.Execution

/-!
# What turns leave behind

A turn leaves at most one entry, and puts at most one request to the world. This file reads trace,
results and requests of a run off its turns:

* `Turn.entry?`, `entry_cases`: the entry that a turn leaves; `Turn.isResult`: whether it is one of the
  results;
* `Chain.trace_eq`: the entries and the results of a chain are those of its turns, in order;
* `Chain.turn_of_request`: a request in the log was put by a turn, at the very state of the log;
* `RunOutcome.report?`: the report of a run, whole or as far as the run came;
* **`trace_cases`**, **`limit_mem_trace_iff`**, **`results_eq`**, **`turn_of_request`**: what this says
  of whole runs.
-/

namespace Runbook

variable {σ : Type}

/-! ## 1. Entries -/

/-- What a list yields last is what a member yields behind which none yields anything. -/
theorem getLast?_filterMap_of_split {α β : Type} {f : α → Option β} {before after : List α} {a : α}
    {b : β} (ha : f a = some b) (hl : ∀ x ∈ after, f x = none) :
    ((before ++ a :: after).filterMap f).getLast? = some b := by
  rw [List.filterMap_append, List.filterMap_cons_some ha, List.filterMap_eq_nil_iff.mpr hl]
  exact List.getLast?_concat

/-- The entry that a turn leaves: that its step was turned down, what became of its command, or that
its loop went past the cap. -/
def Turn.entry? (e : Engine σ) (t : Turn σ) : Option StepResult :=
  match t.deed with
  | .reach =>
    if e.asks t.here.head then
      match (Run.approve e.world (Engine.question t.here.step.kind t.here.head) t.before).1 with
      | .ok false => some ⟨t.here.path, .error (.notApproved .step t.here.step.name)⟩
      | _ => none
    else none
  | .start => (e.execute t.here.head t.here.path t.here.top t.before).1.toOption
  | .judge _ => none
  | .act _ => none
  | .limit cap => some ⟨t.here.path, .error (.loopLimit t.here.step.name cap)⟩
  | .tire => none

/-- Whether a deed stops a loop at its cap. -/
def Deed.isLimit : Deed → Bool
  | .limit _ => true
  | _ => false

/-- Whether an entry says that a loop went past its cap. -/
def StepResult.isLimit (entry : StepResult) : Bool :=
  match entry.outcome with
  | .error (.loopLimit ..) => true
  | _ => false

/-- Whether the entry of a turn is one of the results: a turn of the top level, and not one that stops
a loop at its cap. -/
def Turn.isResult (t : Turn σ) : Bool := t.here.top && !t.deed.isLimit

theorem Turn.isLimit_of_isResult {t : Turn σ} (h : t.isResult = true) :
    t.deed.isLimit = false := by
  simpa using (Bool.and_eq_true_iff.mp h).2

/-- The results that turns leave. -/
def resultsOf (e : Engine σ) (ts : List (Turn σ)) : List StepResult :=
  (ts.filter Turn.isResult).filterMap (Turn.entry? e)

namespace Engine

variable {e : Engine σ} {s s' : RunState σ} {ts : List (Turn σ)} {r : Except Signal Unit}

/-- **The ways in which a turn leaves an entry.** -/
theorem entry_cases {t : Turn σ} {entry : StepResult} (h : t.entry? e = some entry) :
    (t.deed = .reach ∧ entry = ⟨t.here.path, .error (.notApproved .step t.here.step.name)⟩) ∨
      (t.deed = .start ∧
        (e.execute t.here.head t.here.path t.here.top t.before).1 = .ok entry) ∨
      ∃ cap, t.deed = .limit cap ∧
        entry = ⟨t.here.path, .error (.loopLimit t.here.step.name cap)⟩ := by
  unfold Turn.entry? at h
  cases hd : t.deed with
  | reach =>
    rw [hd] at h
    dsimp only at h
    split at h
    · split at h
      · exact Or.inl ⟨rfl, (Option.some.inj h).symm⟩
      · cases h
    · cases h
  | start =>
    rw [hd] at h
    dsimp only at h
    refine Or.inr (Or.inl ⟨rfl, ?_⟩)
    cases hx : (e.execute t.here.head t.here.path t.here.top t.before).1 with
    | ok entry' =>
      rw [hx] at h
      exact congrArg Except.ok (Option.some.inj h)
    | error signal =>
      rw [hx] at h
      cases h
  | limit cap =>
    rw [hd] at h
    exact Or.inr (Or.inr ⟨cap, rfl, (Option.some.inj h).symm⟩)
  | judge | act | tire =>
    rw [hd] at h
    cases h

/-- **Entries stand under the path of their step.** -/
theorem name_of_entry {t : Turn σ} {entry : StepResult} (h : t.entry? e = some entry) :
    entry.name = t.here.path := by
  rcases entry_cases h with ⟨-, rfl⟩ | ⟨-, hx⟩ | ⟨cap, -, rfl⟩
  · rfl
  · rcases execute_cases e t.here.head t.here.path t.here.top t.before with
      ⟨fault, world, hr⟩ | ⟨entry', world, hn, hr⟩ <;> rw [hr] at hx <;> cases hx
    exact hn
  · rfl

/-- A command leaves an entry that says nothing of a cap. -/
theorem isLimit_of_execute {h : StepHead} {path : String} {top : Bool} {s : RunState σ}
    {entry : StepResult} (hx : (e.execute h path top s).1 = .ok entry) : entry.isLimit = false := by
  unfold execute at hx
  rw [Run.bind_apply, Run.spawn_apply] at hx
  dsimp only at hx
  cases hr : (e.world.spawn h.command s.world).1 with
  | finished result => rw [hr] at hx; cases hx; rfl
  | refused reason => rw [hr] at hx; cases hx; rfl
  | raised fault => rw [hr] at hx; cases hx

/-- **Only a turn that stops a loop at its cap leaves an entry that says so.** -/
theorem limit_of_entry {t : Turn σ} {entry : StepResult} (h : t.entry? e = some entry)
    (hl : entry.isLimit = true) : ∃ cap, t.deed = .limit cap ∧
      entry = ⟨t.here.path, .error (.loopLimit t.here.step.name cap)⟩ := by
  rcases entry_cases h with ⟨-, rfl⟩ | ⟨-, hx⟩ | hlimit
  · cases hl
  · rw [isLimit_of_execute hx] at hl
    cases hl
  · exact hlimit

theorem resultsOf_append (ts us : List (Turn σ)) :
    resultsOf e (ts ++ us) = resultsOf e ts ++ resultsOf e us := by
  unfold resultsOf
  rw [List.filter_append, List.filterMap_append]

theorem resultsOf_singleton (t : Turn σ) :
    resultsOf e [t] = if t.isResult then (t.entry? e).toList else [] := by
  unfold resultsOf
  cases ht : t.isResult with
  | true =>
    rw [List.filter_cons_of_pos ht, if_pos rfl]
    cases h : t.entry? e <;> simp [h]
  | false =>
    rw [List.filter_cons_of_neg (by simp [ht]), if_neg (by simp)]
    rfl

theorem recorded_results (s : RunState σ) (top : Bool) (entry : StepResult) :
    (s.recorded top entry).results = s.results ++ if top then [entry] else [] := by
  unfold RunState.recorded
  cases top with
  | true => rfl
  | false => exact (List.append_nil _).symm

/-- What a leaf step adds is the entry that its command leaves, if it leaves one. -/
theorem runLeaf_entry (e : Engine σ) (isAuth : Bool) (h : StepHead) (path : String) (top : Bool)
    (s : RunState σ) :
    (e.runLeaf isAuth h path top s).2.trace =
        s.trace ++ (e.execute h path top s).1.toOption.toList ∧
      (e.runLeaf isAuth h path top s).2.results =
        s.results ++ if top then (e.execute h path top s).1.toOption.toList else [] := by
  unfold runLeaf
  rw [Run.bind_apply]
  rcases execute_cases e h path top s with ⟨fault, world, hx⟩ | ⟨entry, world, -, hx⟩
  · rw [hx]
    exact ⟨(List.append_nil _).symm, by cases top <;> exact (List.append_nil _).symm⟩
  · rw [hx]
    let s₁ := s.executed h.command top entry world
    have hadd : s₁.trace = s.trace ++ [entry] ∧
        s₁.results = s.results ++ if top then [entry] else [] :=
      ⟨by simp [s₁], by simp [s₁, RunState.executed, recorded_results]; rfl⟩
    -- what comes behind the entry adds no other one
    dsimp only
    cases entry.ok with
    | true =>
      cases isAuth with
      | false => exact hadd
      | true =>
        obtain ⟨r, lines, world', hc, -, -⟩ := Run.confirm_cases e.world h.name h.command s₁
        rw [if_pos rfl, if_pos rfl, hc]
        exact hadd
    | false =>
      rw [if_neg (by simp)]
      cases !isAuth && h.continueOnError <;> exact hadd

/-- **A turn leaves its entry, and no other.** -/
theorem entry_of_perform {t : Turn σ} (h : e.perform t.here t.deed t.before = (r, s')) :
    s'.trace = t.before.trace ++ (t.entry? e).toList ∧
      s'.results = t.before.results ++ resultsOf e [t] := by
  rw [resultsOf_singleton]
  have nothing : t.entry? e = none → s'.trace = t.before.trace →
      s'.results = t.before.results → s'.trace = t.before.trace ++ (t.entry? e).toList ∧
        s'.results = t.before.results ++ if t.isResult then (t.entry? e).toList else [] := by
    intro he ht hr
    rw [he, ht, hr]
    exact ⟨(List.append_nil _).symm, by cases t.isResult <;> exact (List.append_nil _).symm⟩
  obtain ⟨o, around, d, s⟩ := t
  dsimp only at h nothing ⊢
  have hd := does_of_perform h
  cases hd with
  | free ha => exact nothing (by simp [Turn.entry?, ha]) rfl rfl
  | approved lines world ha hl hy => exact nothing (by simp [Turn.entry?, ha, hy]) rfl rfl
  | declined lines world ha hl hn =>
    simp [Turn.entry?, ha, hn, recorded_results, Turn.isResult, Deed.isLimit]
    rfl
  | unanswered signal lines world ha hl hs hu =>
    exact nothing (by simp [Turn.entry?, ha, hu]) rfl rfl
  | broke | started =>
    have hs := runLeaf_entry e (o.step.kind == .auth) o.head o.path o.top s
    rw [← perform_start, h] at hs
    have ht : Turn.isResult ⟨o, around, .start, s⟩ = o.top := Bool.and_true _
    rw [ht]
    exact hs
  | judged c holds world => exact nothing rfl (by simp) (RunState.captured_results _ _ _)
  | unjudged => exact nothing rfl rfl rfl
  | limited cap =>
    simp [Turn.entry?, recorded_results, Turn.isResult, Deed.isLimit]
  | stays | leavesLoop | leavesRun | tired => exact nothing rfl rfl rfl

/-- **The entries of a chain are those of its turns**, and so are its results. -/
theorem Chain.trace_eq (h : e.Chain s ts r s') :
    s'.trace = s.trace ++ ts.filterMap (Turn.entry? e) ∧
      s'.results = s.results ++ resultsOf e ts := by
  have one : ∀ {o : Occurrence σ} {d : Deed} {s s₁ : RunState σ} {r : Except Signal Unit}
      (around : List (Occurrence σ)), e.perform o d s = (r, s₁) →
      s₁.trace = s.trace ++ (Turn.entry? e ⟨o, around, d, s⟩).toList ∧
        s₁.results = s.results ++ resultsOf e [⟨o, around, d, s⟩] :=
    fun around hp => entry_of_perform (t := ⟨_, around, _, _⟩) hp
  rw [List.filterMap_eq_flatMap_toList]
  induction h with
  | done s => exact ⟨(List.append_nil _).symm, (List.append_nil _).symm⟩
  | @next s s₁ s' o around d ts r₁ r hp _ _ ih =>
    obtain ⟨ht, hr⟩ := one around hp
    constructor
    · rw [ih.1, ht, List.append_assoc, List.flatMap_cons]
    · rw [ih.2, hr, List.append_assoc, ← resultsOf_append, List.singleton_append]
  | @last s s' o around d signal hp =>
    obtain ⟨ht, hr⟩ := one around hp
    constructor
    · rw [ht, List.flatMap_cons, List.flatMap_nil, List.append_nil]
    · exact hr

/-! ## 2. Requests -/

/-- A turn makes no request, or a single one. -/
theorem requests_cases (e : Engine σ) (t : Turn σ) :
    t.requests e = [] ∨ ∃ ev, t.requests e = [ev] := by
  unfold Turn.requests
  cases t.deed with
  | reach =>
    cases e.asks t.here.head with
    | true => exact Or.inr ⟨_, rfl⟩
    | false => exact Or.inl rfl
  | start => exact Or.inr ⟨_, rfl⟩
  | judge c =>
    dsimp only
    unfold testsFor
    cases Expression.exitCodeCheck? (judgedText c t.before.context) with
    | none => exact Or.inr ⟨_, rfl⟩
    | some check => exact Or.inl rfl
  | act | limit | tire => exact Or.inl rfl

/-- **A turn makes its request before anything else.** -/
theorem events_of_perform {t : Turn σ} (h : e.perform t.here t.deed t.before = (r, s')) :
    ∃ rest, s'.events = t.before.events ++ (t.requests e ++ rest) ∧
      rest.filter Event.isRequest = [] := by
  obtain ⟨o, around, d, s⟩ := t
  have asked : ∀ lines : List Event, e.asks o.head = true →
      Turn.requests e ⟨o, around, .reach, s⟩ ++ lines =
        .approval (question o.step.kind o.head) :: lines := by
    intro lines ha
    simp [Turn.requests, ha]
  have alone : ∀ more : List Event, more = more ++ [] := fun more => (List.append_nil more).symm
  cases does_of_perform h with
  | free ha => exact ⟨[], by simp [Turn.requests, ha], rfl⟩
  | approved lines world ha hl =>
    exact ⟨lines, by rw [asked lines ha]; rfl, Event.filter_isRequest_lines hl⟩
  | declined lines world ha hl =>
    exact ⟨lines, by rw [asked lines ha]; rfl, Event.filter_isRequest_lines hl⟩
  | unanswered signal lines world ha hl =>
    exact ⟨lines, by rw [asked lines ha]; rfl, Event.filter_isRequest_lines hl⟩
  | broke => exact ⟨[], rfl, rfl⟩
  | started entry r world more world' hn hx hm =>
    refine ⟨more, ?_, hm⟩
    rw [RunState.told_events, RunState.executed_events, List.append_assoc]
    rfl
  | judged c holds world =>
    refine ⟨[], ?_, rfl⟩
    rw [RunState.captured_events, RunState.told_events, List.append_nil]
    rfl
  | unjudged c signal world => exact ⟨[], by rw [← alone]; rfl, rfl⟩
  | stays | leavesLoop | leavesRun | limited | tired => exact ⟨[], (List.append_nil _).symm, rfl⟩

/-- Where a turn adds its request and then no other one, a request stands before the turn, or it is
that of the turn and all that stands before it was there before the turn. -/
theorem request_cases {old requests rest before after : List Event} {ev : Event}
    (heq : old ++ (requests ++ rest) = before ++ ev :: after)
    (hone : requests = [] ∨ ∃ ev, requests = [ev]) (hrest : rest.filter Event.isRequest = [])
    (hr : ev.isRequest = true) :
    (∃ later, old = before ++ ev :: later) ∨ old = before ∧ requests = [ev] := by
  have hnot : ∀ mid, rest ≠ mid ++ ev :: after := by
    intro mid hmid
    have hev := List.filter_eq_nil_iff.mp hrest ev (by simp [hmid])
    exact hev hr
  have hnew : ∀ mid, requests ++ rest = mid ++ ev :: after → mid = [] ∧ requests = [ev] := by
    intro mid hmid
    rcases hone with rfl | ⟨ev', rfl⟩
    · exact absurd hmid (hnot mid)
    · cases mid with
      | nil => exact ⟨rfl, by rw [(List.cons.inj hmid).1]⟩
      | cons x mid => exact absurd (List.cons.inj hmid).2 (hnot mid)
  rcases List.append_eq_append_iff.mp heq with ⟨mid, rfl, hmid⟩ | ⟨mid, rfl, hmid⟩
  · obtain ⟨rfl, hreq⟩ := hnew mid hmid
    exact Or.inr ⟨(List.append_nil _).symm, hreq⟩
  · cases mid with
    | nil => exact Or.inr ⟨List.append_nil _, (hnew [] hmid.symm).2⟩
    | cons x mid =>
      obtain ⟨rfl, -⟩ := List.cons.inj hmid
      exact Or.inl ⟨mid, rfl⟩

/-- **A request in the log that does not stand before a chain was put by one of its turns**, and what
stands before it in the log was there before that turn. -/
theorem Chain.turn_of_request (h : e.Chain s ts r s') {before after : List Event} {ev : Event}
    (he : s'.events = before ++ ev :: after) (hr : ev.isRequest = true) :
    (∃ later, s.events = before ++ ev :: later) ∨
      ∃ t ∈ ts, t.before.events = before ∧ t.requests e = [ev] := by
  have one : ∀ {o : Occurrence σ} {d : Deed} {s s₁ : RunState σ} {r : Except Signal Unit}
      {later : List Event} (around : List (Occurrence σ)), e.perform o d s = (r, s₁) →
      s₁.events = before ++ ev :: later → (∃ later, s.events = before ++ ev :: later) ∨
        s.events = before ∧ Turn.requests e ⟨o, around, d, s⟩ = [ev] := by
    intro o d s s₁ r later around hp he
    obtain ⟨rest, hs, hrest⟩ := events_of_perform (t := ⟨o, around, d, s⟩) hp
    rw [hs] at he
    exact request_cases he (requests_cases e _) hrest hr
  induction h generalizing after with
  | done s => exact Or.inl ⟨after, he⟩
  | @next s s₁ s' o around d ts r₁ r hp _ _ ih =>
    rcases ih he with ⟨later, hl⟩ | ⟨t, ht, hb, hq⟩
    · rcases one around hp hl with hold | ⟨hb, hq⟩
      · exact Or.inl hold
      · exact Or.inr ⟨_, List.mem_cons_self, hb, hq⟩
    · exact Or.inr ⟨t, List.mem_cons_of_mem _ ht, hb, hq⟩
  | @last s s' o around d signal hp =>
    rcases one around hp he with hold | ⟨hb, hq⟩
    · exact Or.inl hold
    · exact Or.inr ⟨_, List.mem_cons_self, hb, hq⟩

end Engine

/-! ## 3. Whole runs -/

/-- The report on a run, whole, or as far as the run came before a condition had no outcome. -/
def RunOutcome.report? : RunOutcome → Option RunReport
  | .reported report => some report
  | .undecided _ report => some report
  | .missingVariable _ => none
  | .raised _ => none
  | .unfinished => none

namespace Executor

/-- **How a run goes on from its opening**, with nothing recorded so far. -/
inductive Goes (x : Executor σ) (w : Workflow) (r : RunRequest) (world : σ) :
    RunOutcome × RunState σ → Prop
  | begun {approved : Bool} {s : RunState σ} {asked : List String}
      (hop : x.opening w r world = .begun approved s) (hb : Before s asked) :
      Goes x w r world (x.runSteps w approved s)
  | declined {s : RunState σ} {asked : List String} (hop : x.opening w r world = .declined s)
      (hb : Before s asked) (hno : x.Answered w r world false) : Goes x w r world (declined w s)
  | stopped {signal : Signal} {s : RunState σ} {asked : List String}
      (hop : x.opening w r world = .stopped signal s) (hb : Before s asked)
      (hs : signal.isRaised = true ∨ ∃ name, signal = .missingVariable name) :
      Goes x w r world (outcomeOf w s (.error signal), s)

/-- **Every run goes on in one of these ways.** -/
theorem runWorkflow_goes (x : Executor σ) (w : Workflow) (r : RunRequest) (world : σ) :
    x.Goes w r world (x.runWorkflow w r world) := by
  rw [runWorkflow_eq]
  obtain ⟨o, hop, ho⟩ := x.exists_opening w r world
  rw [hop]
  cases ho with
  | begun approved s h =>
    obtain ⟨asked, hb⟩ := h.before
    exact .begun hop hb
  | unfilled signal s hf hs hb => exact .stopped hop hb hs
  | refused s s' hf hc hu hn hb => exact .declined hop hb ⟨hc, hu, s, s', hf, hn⟩
  | unanswered signal s s' hf hc hu hs hn hb => exact .stopped hop hb (Or.inl hs)

/-- A run that stops before its steps has no report. -/
theorem outcomeOf_stopped (w : Workflow) (s : RunState σ) {signal : Signal}
    (hs : signal.isRaised = true ∨ ∃ name, signal = .missingVariable name) :
    (∃ fault, outcomeOf w s (.error signal) = .raised fault) ∨
      ∃ name, outcomeOf w s (.error signal) = .missingVariable name := by
  rcases hs with hs | ⟨name, rfl⟩
  · cases signal with
    | raised fault => exact Or.inl ⟨fault, rfl⟩
    | halted | returned | broken | undecided | missingVariable | unfinished => cases hs
  · exact Or.inr ⟨name, rfl⟩

/-- Closing a run adds nothing to its trace and its results. -/
theorem closed_kept (w : Workflow) (result : Except Signal Unit) (s : RunState σ) :
    (closed w result s).trace = s.trace ∧ (closed w result s).results = s.results := by
  unfold closed
  split <;> exact ⟨rfl, rfl⟩

/-- **A report shows trace and results of the run as they are at its end.** -/
theorem report_eq {x : Executor σ} {w : Workflow} {r : RunRequest} {world : σ}
    {report : RunReport} (h : report ∈ (x.runWorkflow w r world).1.report?) :
    report.trace = (x.runWorkflow w r world).2.trace ∧
      report.results = (x.runWorkflow w r world).2.results := by
  have hg := x.runWorkflow_goes w r world
  generalize x.runWorkflow w r world = p at h hg ⊢
  cases hg with
  | @begun approved s =>
    rw [runSteps_apply] at h ⊢
    dsimp only at h ⊢
    generalize ((x.engine approved).runBlock "" true w.steps s).1 = result at h ⊢
    rw [(closed_kept w result _).1, (closed_kept w result _).2]
    rcases result with signal | u
    · cases signal <;> cases h <;> exact ⟨rfl, rfl⟩
    · cases h
      exact ⟨rfl, rfl⟩
  | declined =>
    cases h
    exact ⟨rfl, rfl⟩
  | @stopped signal s _ _ _ hs =>
    rcases outcomeOf_stopped w s hs with ⟨fault, ho⟩ | ⟨name, ho⟩ <;> rw [ho] at h <;> cases h

/-- **The trace of a run is what its turns left behind**, unless the workflow was turned down as a
whole: then that is the only entry. -/
theorem trace_cases (x : Executor σ) (w : Workflow) (r : RunRequest) (world : σ) :
    (x.runWorkflow w r world).2.trace =
        (x.turns w r world).filterMap (Turn.entry? (x.engineOf w r world)) ∨
      x.Answered w r world false ∧ (x.runWorkflow w r world).2.trace =
        [⟨w.name, .error (.notApproved .workflow w.name)⟩] := by
  have hg := x.runWorkflow_goes w r world
  generalize x.runWorkflow w r world = p at hg ⊢
  cases hg with
  | begun hop hb =>
    have hc := (turns_of_begun hop).1.trace_eq.1
    rw [hb.trace, List.nil_append] at hc
    rw [runSteps_apply, ← hc]
    exact Or.inl (closed_kept w _ _).1
  | declined hop hb hno => exact Or.inr ⟨hno, rfl⟩
  | stopped hop hb =>
    rw [turns_of_stopped hop]
    exact Or.inl hb.trace

/-- **The trace says that a loop went past its cap exactly for the turns that stop one there.** -/
theorem limit_mem_trace_iff {x : Executor σ} {w : Workflow} {r : RunRequest} {world : σ}
    {path name : String} {cap : Int} :
    ⟨path, .error (.loopLimit name cap)⟩ ∈ (x.runWorkflow w r world).2.trace ↔
      ∃ t ∈ x.turns w r world, t.deed = .limit cap ∧ t.here.path = path ∧
        t.here.step.name = name := by
  rcases x.trace_cases w r world with htr | ⟨hno, htr⟩
  · rw [htr, List.mem_filterMap]
    constructor
    · rintro ⟨t, ht, he⟩
      obtain ⟨cap', hd, heq⟩ := Engine.limit_of_entry he rfl
      cases heq
      exact ⟨t, ht, hd, rfl, rfl⟩
    · rintro ⟨t, ht, hd, rfl, rfl⟩
      refine ⟨t, ht, ?_⟩
      unfold Turn.entry?
      rw [hd]
  · obtain ⟨s, hop⟩ := opening_of_refused hno
    rw [htr, turns_of_declined hop, List.mem_singleton]
    constructor
    · intro he
      cases he
    · rintro ⟨t, ht, -⟩
      exact absurd ht List.not_mem_nil

/-- **The results of a run are what its turns on the top level left behind.** -/
theorem results_eq (x : Executor σ) (w : Workflow) (r : RunRequest) (world : σ) :
    (x.runWorkflow w r world).2.results =
      resultsOf (x.engineOf w r world) (x.turns w r world) := by
  have hg := x.runWorkflow_goes w r world
  generalize x.runWorkflow w r world = p at hg ⊢
  cases hg with
  | begun hop hb =>
    have hc := (turns_of_begun hop).1.trace_eq.2
    rw [hb.results, List.nil_append] at hc
    rw [runSteps_apply, ← hc]
    exact (closed_kept w _ _).2
  | declined hop hb =>
    rw [turns_of_declined hop]
    exact hb.results
  | stopped hop hb =>
    rw [turns_of_stopped hop]
    exact hb.results

/-- Before the steps of a run nothing but approval is requested. -/
theorem Before.approval {s : RunState σ} {asked : List String} (h : Before s asked)
    {before after : List Event} {ev : Event} (he : s.events = before ++ ev :: after)
    (hr : ev.isRequest = true) : ∃ message, ev = .approval message := by
  have hmem : ev ∈ s.events.filter Event.isRequest :=
    List.mem_filter.mpr ⟨by simp [he], hr⟩
  rw [h.requests, List.mem_map] at hmem
  obtain ⟨message, -, rfl⟩ := hmem
  exact ⟨message, rfl⟩

/-- **A request in the log of a run, other than one for approval, was put by a turn**, and what stands
before it in the log was there before that turn. -/
theorem turn_of_request {x : Executor σ} {w : Workflow} {r : RunRequest} {world : σ}
    {before after : List Event} {ev : Event}
    (he : (x.runWorkflow w r world).2.events = before ++ ev :: after) (hr : ev.isRequest = true)
    (hne : ∀ message, ev ≠ .approval message) :
    ∃ t ∈ x.turns w r world, t.before.events = before ∧
      t.requests (x.engineOf w r world) = [ev] := by
  have nothing : ∀ {s : RunState σ} {asked : List String} {later : List Event}, Before s asked →
      s.events ≠ before ++ ev :: later := by
    intro s asked later hb he
    obtain ⟨message, hm⟩ := hb.approval he hr
    exact hne message hm
  have hg := x.runWorkflow_goes w r world
  generalize x.runWorkflow w r world = p at he hg
  cases hg with
  | @begun approved s _ hop hb =>
    rw [runSteps_apply] at he
    -- the note that a step stopped the run is no request
    have hsteps : ∃ later, ((x.engine approved).runBlock "" true w.steps s).2.events =
        before ++ ev :: later := by
      dsimp only at he
      unfold closed at he
      split at he
      · rcases @Engine.request_cases _ [] _ _ _ _ he (Or.inl rfl) rfl hr with hl | ⟨-, hl⟩
        · exact hl
        · cases hl
      · exact ⟨after, he⟩
    obtain ⟨later, hl⟩ := hsteps
    rcases (turns_of_begun hop).1.turn_of_request hl hr with ⟨later, hs⟩ | ht
    · exact absurd hs (nothing hb)
    · exact ht
  | @declined s _ _ hb =>
    have he' : s.events = before ++ ev :: after := he
    exact absurd he' (nothing hb)
  | stopped _ hb => exact absurd he (nothing hb)

end Executor

end Runbook
