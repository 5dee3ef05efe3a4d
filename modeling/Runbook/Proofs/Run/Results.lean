import Mathlib.Data.List.Forall2
import Runbook.Proofs.Run.Coverage

/-!
# The results of a run

The results of a run are the entries of its top level: one for each command and authentication that
the run got to, in the order of the workflow, and at most one more.

* `Step.leaves`: the commands and authentications of a block itself;
* `Runs.quiet`: what is done inside a step with blocks leaves no results;
* `StepLeft`, `Runs.stepLeft`: what a single step of the top level leaves;
* `Attempts`, `Runs.attempts`: what the steps of the top level leave;
* `startedOnTop`, `Runs.started`: which of them are started;
* `RunReport.Accounted`, **`runWorkflow_accounted`**: what this says of reports.
-/

namespace Runbook

variable {σ : Type}

/-- The commands and authentications of a block itself. -/
def Step.leaves (steps : List Step) : List Step := steps.filter fun s => !s.kind.isControlFlow

theorem Step.leaves_cons_of_leaf {s : Step} (hk : s.kind.isControlFlow = false)
    (rest : List Step) : Step.leaves (s :: rest) = s :: Step.leaves rest :=
  List.filter_cons_of_pos (by simp [hk])

theorem Step.leaves_cons_of_control {s : Step} (hk : s.kind.isControlFlow = true)
    (rest : List Step) : Step.leaves (s :: rest) = Step.leaves rest :=
  List.filter_cons_of_neg (by simp [hk])

/-- The steps of the top level whose commands are started, in order. -/
def startedOnTop (ts : List (Turn σ)) : List Step :=
  (ts.filter fun t => t.deed = .start && t.here.top).map (·.here.step)

theorem startedOnTop_append (ts us : List (Turn σ)) :
    startedOnTop (ts ++ us) = startedOnTop ts ++ startedOnTop us := by
  unfold startedOnTop
  rw [List.filter_append, List.map_append]

namespace Engine

variable {e : Engine σ} {around : List (Occurrence σ)} {act : Activity σ} {s s' : RunState σ}
  {ts : List (Turn σ)} {r : Except Signal Unit}

/-! ## 1. Below the top level -/

/-- An activity that has to do with the top level at most by the approval of a step with blocks. -/
def BelowTop : Activity σ → Prop
  | .step _ top _ => top = false
  | .block _ top _ => top = false
  | .inside o => o.top = false ∨ o.step.kind.isControlFlow = true
  | .rounds .. => True

/-- A run does not come back to the top level from below it. -/
theorem BelowTop.leads {around' : List (Occurrence σ)} {act' : Activity σ} (h : BelowTop act)
    (hl : e.Leads around act around' act') : BelowTop act' := by
  cases hl with
  | first | later => exact h
  | reached => exact Or.inl h
  | taken | chosen | body => rfl
  | looped | again => trivial

/-- A turn that leaves no result, and starts nothing on the top level. -/
structure Quiet (e : Engine σ) (t : Turn σ) : Prop where
  entry : t.isResult = true → t.entry? e = none
  start : t.deed = .start → t.here.top = false

/-- The turns of what is done below the top level are quiet. -/
theorem BelowTop.own {t : Turn σ} (h : BelowTop act) (ho : e.Own around act t) : Quiet e t := by
  cases ho with
  | @reach above top x s =>
    have ht : top = false := h
    subst ht
    exact ⟨nofun, nofun⟩
  | @start o s hk =>
    have ht : o.top = false := by
      rcases h with ht | hc
      · exact ht
      · rw [hk] at hc
        cases hc
    refine ⟨fun hr => ?_, fun _ => ht⟩
    unfold Turn.isResult at hr
    rw [ht] at hr
    cases hr
  | decide | act | judge | tire => exact ⟨fun _ => rfl, nofun⟩
  | limit =>
    refine ⟨fun hr => ?_, nofun⟩
    cases Turn.isLimit_of_isResult hr

/-- **What is done below the top level leaves no results**, and starts nothing on the top level. -/
theorem Runs.quiet (h : e.Runs around act s ts r s') (ha : BelowTop act) :
    resultsOf e ts = [] ∧ startedOnTop ts = [] := by
  have each : ∀ t ∈ ts, Quiet e t :=
    h.each (P := fun _ act => BelowTop act) BelowTop.leads BelowTop.own ha
  constructor
  · unfold resultsOf
    refine List.filterMap_eq_nil_iff.mpr fun t ht => ?_
    obtain ⟨hmem, hres⟩ := List.mem_filter.mp ht
    exact (each t hmem).entry hres
  · unfold startedOnTop
    rw [List.map_eq_nil_iff, List.filter_eq_nil_iff]
    intro t ht hstart
    obtain ⟨hd, htop⟩ := Bool.and_eq_true_iff.mp hstart
    rw [(each t ht).start (of_decide_eq_true hd)] at htop
    cases htop

/-! ## 2. A step of the top level -/

/-- A turn on the top level, at the step, left the entry, under the step's name. -/
def LeftAt (e : Engine σ) (ts : List (Turn σ)) (entry : StepResult) (x : Step) : Prop :=
  entry.name = x.name ∧ ∃ t ∈ ts, t.around = [] ∧ t.here.step = x ∧ t.entry? e = some entry

theorem LeftAt.mono {us : List (Turn σ)} {entry : StepResult} {x : Step}
    (h : LeftAt e ts entry x) (hs : ts ⊆ us) : LeftAt e us entry x := by
  obtain ⟨hn, t, ht, hr⟩ := h
  exact ⟨hn, t, hs ht, hr⟩

/-- The entry that says that a step of the top level was turned down. -/
def refusal (t : Turn σ) : StepResult :=
  ⟨t.here.step.name, .error (.notApproved .step t.here.step.name)⟩

/-- A turn that comes to a step with blocks on the top level, and asks about it in vain. -/
structure Refuses (e : Engine σ) (x : Step) (t : Turn σ) : Prop where
  deed : t.deed = .reach
  around : t.around = []
  step : t.here.step = x
  control : x.kind.isControlFlow = true
  asked : e.asks t.here.head = true
  no : e.Answered t.here false
  entry : t.entry? e = some (refusal t)

/-- **What a step of the top level leaves**: a command or an authentication its own entry; or nothing,
if the step has blocks or the run ends at it; or, a step with blocks, that it was turned down. -/
inductive StepLeft (e : Engine σ) (x : Step) (ts : List (Turn σ)) (r : Except Signal Unit) : Prop
  | entry (hk : x.kind.isControlFlow = false) (entry : StepResult) (hl : LeftAt e ts entry x)
      (hr : resultsOf e ts = [entry])
  | nothing (h : x.kind.isControlFlow = true ∨ r ≠ .ok ()) (hr : resultsOf e ts = [])
  | refused (t : Turn σ) (ht : ts = [t]) (h : Refuses e x t)
      (hs : r = .error (.halted t.here.path 1)) (hr : resultsOf e ts = [refusal t])

/-- Coming to a step leaves no entry if the run goes on inside the step. -/
theorem entry_of_reached {o : Occurrence σ} {s₁ : RunState σ}
    (h : e.perform o .reach s = (.ok (), s₁)) :
    Turn.entry? e ⟨o, around, .reach, s⟩ = none := by
  cases does_of_perform h with
  | free ha => simp [Turn.entry?, ha]
  | approved lines world ha hl hy => simp [Turn.entry?, ha, hy]

/-- The results of a single turn of the top level are its entry. -/
theorem resultsOf_reach {x : Step} :
    resultsOf e [⟨⟨"", true, x, s⟩, [], .reach, s⟩] =
      (Turn.entry? e ⟨⟨"", true, x, s⟩, [], .reach, s⟩).toList :=
  (resultsOf_singleton _).trans (if_pos rfl)

/-- A step that the run does not get into leaves at most that it was turned down. -/
theorem stepLeft_of_barred {x : Step} {signal : Signal}
    (h : e.perform ⟨"", true, x, s⟩ .reach s = (.error signal, s')) :
    StepLeft e x [⟨⟨"", true, x, s⟩, [], .reach, s⟩] (.error signal) := by
  let t : Turn σ := ⟨⟨"", true, x, s⟩, [], .reach, s⟩
  cases does_of_perform h with
  | declined lines world ha hl hn =>
    have he : t.entry? e = some (refusal t) := by
      simp only [t, Turn.entry?, ha, hn, if_true]
      rfl
    have hr : resultsOf e [t] = [refusal t] := by
      rw [resultsOf_reach, he]
      rfl
    cases hk : x.kind.isControlFlow with
    | true => exact .refused t rfl ⟨rfl, rfl, rfl, hk, ha, ⟨_, hn⟩, he⟩ rfl hr
    | false => exact .entry hk (refusal t) ⟨rfl, t, List.mem_singleton_self t, rfl, rfl, he⟩ hr
  | unanswered _ lines world ha hl hs hu =>
    have hr : resultsOf e [t] = [] := by
      rw [resultsOf_reach]
      simp [Turn.entry?, ha, hu]
    refine .nothing (Or.inr fun hok => ?_) hr
    cases hok

/-- A command or an authentication that is started leaves its entry, unless the run ends with it. -/
theorem stepLeft_of_start {x : Step} {s₀ : RunState σ} (hk : x.kind.isControlFlow = false)
    (h : e.perform ⟨"", true, x, s₀⟩ .start s = (r, s')) (ts : List (Turn σ))
    (hts : resultsOf e ts = []) :
    StepLeft e x (ts ++ [⟨⟨"", true, x, s₀⟩, [], .start, s⟩]) r := by
  let t : Turn σ := ⟨⟨"", true, x, s₀⟩, [], .start, s⟩
  have hr : resultsOf e (ts ++ [t]) = (t.entry? e).toList := by
    rw [resultsOf_append, hts, List.nil_append, resultsOf_singleton]
    rfl
  cases he : t.entry? e with
  | some entry =>
    rw [he] at hr
    exact .entry hk entry ⟨name_of_entry he, t, List.mem_append_right _ (List.mem_singleton_self t),
      rfl, rfl, he⟩ hr
  | none =>
    rw [he] at hr
    refine .nothing (Or.inr ?_) hr
    cases does_of_perform h with
    | broke => nofun
    | started entry _ _ _ _ _ hx =>
      have hsome : t.entry? e = some entry := congrArg (fun p => p.1.toOption) hx
      rw [he] at hsome
      cases hsome

/-- Inside a command or an authentication nothing is done but its start. -/
theorem Runs.of_leaf {o : Occurrence σ} (h : e.Runs around (.inside o) s ts r s')
    (hk : o.step.kind.isControlFlow = false) :
    ts = [⟨o, around, .start, s⟩] ∧ e.perform o .start s = (r, s') := by
  cases h with
  | leaf _ h => exact ⟨rfl, h⟩
  | unjudged hs | stopped hs | acted hs | chosen hs | looped hs =>
    rw [hs] at hk
    cases hk

/-- **A step of the top level leaves no more than `StepLeft` says.** -/
theorem Runs.stepLeft {x : Step} (h : e.Runs [] (.step "" true x) s ts r s') :
    StepLeft e x ts r := by
  cases h with
  | barred h => exact stepLeft_of_barred h
  | reached h inner =>
    have hreach : Turn.entry? e ⟨_, [], .reach, s⟩ = none := entry_of_reached h
    have hr : resultsOf e [⟨⟨"", true, x, s⟩, [], .reach, s⟩] = [] := by
      rw [resultsOf_reach, hreach]
      rfl
    cases hk : x.kind.isControlFlow with
    | true =>
      refine .nothing (Or.inl hk) ?_
      rw [← List.singleton_append, resultsOf_append, hr, (inner.quiet (Or.inr hk)).1]
      rfl
    | false =>
      obtain ⟨rfl, hp⟩ := inner.of_leaf hk
      exact stepLeft_of_start hk hp _ hr

/-! ## 3. The top level -/

/-- **What the steps of the top level leave**: entries for the first commands and authentications, in
order, and behind them at most one that a step with blocks was turned down, with which the run ends. -/
structure Attempts (e : Engine σ) (steps : List Step) (ts : List (Turn σ))
    (r : Except Signal Unit) (kept : List StepResult) (tried untried : List Step)
    (refused : Option (Turn σ)) : Prop where
  split : Step.leaves steps = tried ++ untried
  left : List.Forall₂ (LeftAt e ts) kept tried
  results : resultsOf e ts = kept ++ (refused.map refusal).toList
  last : ∀ t ∈ refused, (∃ x ∈ steps, Refuses e x t) ∧ ts.getLast? = some t ∧
    r = .error (.halted t.here.path 1)
  completed : r = .ok () → untried = [] ∧ refused = none

/-- Where the run ends at the first step, its result is all there is. -/
theorem StepLeft.attempts {x : Step} {signal : Signal} (h : StepLeft e x ts (.error signal))
    (rest : List Step) : ∃ kept tried untried refused,
      Attempts e (x :: rest) ts (.error signal) kept tried untried refused := by
  cases h with
  | entry hk entry hl hr =>
    refine ⟨[entry], [x], Step.leaves rest, none, Step.leaves_cons_of_leaf hk rest,
      .cons hl .nil, hr, fun t ht => ?_, nofun⟩
    exact absurd ht (Option.not_mem_none t)
  | nothing h hr =>
    refine ⟨[], [], Step.leaves (x :: rest), none, rfl, .nil, hr, fun t ht => ?_, nofun⟩
    exact absurd ht (Option.not_mem_none t)
  | refused t ht h hs hr =>
    refine ⟨[], [], Step.leaves (x :: rest), some t, rfl, .nil, hr, ?_, nofun⟩
    rintro _ ⟨⟩
    exact ⟨⟨x, List.mem_cons_self, h⟩, by rw [ht]; rfl, hs⟩

/-- Where the run goes on behind the first step, its entry stands before what the others leave. -/
theorem Attempts.cons {x : Step} {rest : List Step} {us : List (Turn σ)}
    {kept : List StepResult} {tried untried : List Step} {refused : Option (Turn σ)}
    (ha : Attempts e rest us r kept tried untried refused) (first : StepLeft e x ts (.ok ())) :
    ∃ kept tried, Attempts e (x :: rest) (ts ++ us) r kept tried untried refused := by
  have hkept := ha.left.imp fun _ _ (hl : LeftAt e us _ _) =>
    hl.mono (List.subset_append_right ts us)
  have hrefused : ∀ t ∈ refused, (∃ y ∈ x :: rest, Refuses e y t) ∧
      (ts ++ us).getLast? = some t ∧ r = .error (.halted t.here.path 1) := by
    intro t ht
    obtain ⟨⟨y, hy, h⟩, hlast, hs⟩ := ha.last t ht
    refine ⟨⟨y, List.mem_cons_of_mem _ hy, h⟩, ?_, hs⟩
    rw [List.getLast?_append, hlast]
    rfl
  cases first with
  | entry hk entry hl hr =>
    refine ⟨entry :: kept, x :: tried, ?_, ?_, ?_, hrefused, ha.completed⟩
    · rw [Step.leaves_cons_of_leaf hk, ha.split, List.cons_append]
    · exact .cons (hl.mono (List.subset_append_left ts us)) hkept
    · rw [resultsOf_append, hr, ha.results, List.singleton_append, List.cons_append]
  | nothing h hr =>
    have hk : x.kind.isControlFlow = true := h.resolve_right (absurd rfl)
    refine ⟨kept, tried, ?_, hkept, ?_, hrefused, ha.completed⟩
    · rw [Step.leaves_cons_of_control hk, ha.split]
    · rw [resultsOf_append, hr, ha.results, List.nil_append]
  | refused t ht h hs => cases hs

/-- **What the top level leaves**: by induction on its steps. -/
theorem Runs.attempts {steps : List Step} (h : e.Runs [] (.block "" true steps) s ts r s') :
    ∃ kept tried untried refused, Attempts e steps ts r kept tried untried refused := by
  induction steps generalizing s ts with
  | nil =>
    cases h with
    | nil =>
      refine ⟨[], [], [], none, rfl, .nil, rfl, fun t ht => ?_, fun _ => ⟨rfl, rfl⟩⟩
      exact absurd ht (Option.not_mem_none t)
  | cons x rest ih =>
    cases h with
    | cut first => exact first.stepLeft.attempts rest
    | cons first later =>
      obtain ⟨_, _, untried, refused, ha⟩ := ih later
      obtain ⟨kept, tried, hx⟩ := ha.cons first.stepLeft
      exact ⟨kept, tried, untried, refused, hx⟩

/-- **The results are what the turns inside no other step leave**, but for one that stops a loop at its
cap. -/
theorem Runs.resultsOf_eq {steps : List Step} (h : e.Runs [] (.block "" true steps) s ts r s') :
    resultsOf e ts =
      (ts.filter fun t => t.around.isEmpty && !t.deed.isLimit).filterMap (Turn.entry? e) := by
  unfold resultsOf
  refine congrArg _ (List.filter_congr fun t hmem => ?_)
  obtain ⟨parts, hl⟩ := h.located (fun x hx s => ⟨[x.name], .top hx rfl rfl⟩) t hmem
  have htop : t.here.top = t.around.isEmpty := by
    rw [Bool.eq_iff_iff, hl.top_iff, List.isEmpty_iff]
  unfold Turn.isResult
  rw [htop]

/-- A step of the top level is started if it is a command or an authentication, and nothing else is
started at it on the top level. -/
theorem Runs.startedAt {x : Step} (h : e.Runs [] (.step "" true x) s ts r s') :
    (x.kind.isControlFlow = true ∧ startedOnTop ts = []) ∨
      x.kind.isControlFlow = false ∧
        (startedOnTop ts = [x] ∨ startedOnTop ts = [] ∧ r ≠ .ok ()) := by
  cases h with
  | barred h =>
    cases hk : x.kind.isControlFlow with
    | true => exact Or.inl ⟨rfl, rfl⟩
    | false => exact Or.inr ⟨rfl, Or.inr ⟨rfl, nofun⟩⟩
  | reached h inner =>
    cases hk : x.kind.isControlFlow with
    | true => exact Or.inl ⟨rfl, (inner.quiet (Or.inr hk)).2⟩
    | false =>
      obtain ⟨rfl, -⟩ := inner.of_leaf hk
      exact Or.inr ⟨rfl, Or.inl rfl⟩

/-- **Commands and authentications of the top level are started in order**, and all of them if the run
comes to its end. -/
theorem Runs.started {steps : List Step} (h : e.Runs [] (.block "" true steps) s ts r s') :
    startedOnTop ts <+: Step.leaves steps ∧
      (r = .ok () → startedOnTop ts = Step.leaves steps) := by
  induction steps generalizing s ts with
  | nil =>
    cases h with
    | nil => exact ⟨List.prefix_rfl, fun _ => rfl⟩
  | cons x rest ih =>
    cases h with
    | cut first =>
      refine ⟨?_, nofun⟩
      rcases first.startedAt with ⟨hk, hs⟩ | ⟨hk, hs | ⟨hs, -⟩⟩
      · rw [hs]
        exact List.nil_prefix
      · rw [hs, Step.leaves_cons_of_leaf hk]
        exact ⟨Step.leaves rest, rfl⟩
      · rw [hs]
        exact List.nil_prefix
    | cons first later =>
      obtain ⟨hle, heq⟩ := ih later
      rw [startedOnTop_append]
      rcases first.startedAt with ⟨hk, hs⟩ | ⟨hk, hs | ⟨-, hr⟩⟩
      · rw [hs, Step.leaves_cons_of_control hk]
        exact ⟨hle, heq⟩
      · rw [hs, Step.leaves_cons_of_leaf hk, List.singleton_append]
        exact ⟨(List.prefix_cons_inj x).mpr hle, fun hr => congrArg (x :: ·) (heq hr)⟩
      · exact absurd rfl hr

end Engine

/-! ## 4. Whole runs -/

/-- **What the results of a report are.**

* `sublist`: they are among the entries of the trace, in the same order;
* `attempts`: they stand, one by one and under the same names, for the first commands and
  authentications of the top level; behind these there is at most one more, that a step with blocks was
  turned down, and then it is the last entry of both lists, and the run was halted by it; a completed
  run has tried all, and has no entry more;
* `topLevel`, `limitless`: they are what the turns inside no other step left behind, and none of them
  says that a loop went past its cap;
* `started`: the commands and authentications of the top level are started in order, each at most once,
  and in a completed run each of them is. -/
structure RunReport.Accounted (e : Engine σ) (turns : List (Turn σ)) (steps : List Step)
    (report : RunReport) : Prop where
  sublist : report.results.Sublist report.trace
  attempts : ∃ kept tried untried refused,
    Step.leaves steps = tried ++ untried ∧ List.Forall₂ (e.LeftAt turns) kept tried ∧
    kept.map (·.name) = tried.map Step.name ∧
    report.results = kept ++ (refused.map Engine.refusal).toList ∧
    (∀ t ∈ refused, (∃ x ∈ steps, e.Refuses x t) ∧ turns.getLast? = some t ∧
      report.results.getLast? = some (Engine.refusal t) ∧
      report.trace.getLast? = some (Engine.refusal t) ∧ report.status = .halted) ∧
    (report.status = .completed → untried = [] ∧ refused = none)
  topLevel : report.results =
    (turns.filter fun t => t.around.isEmpty && !t.deed.isLimit).filterMap (Turn.entry? e)
  limitless : ∀ entry ∈ report.results, entry.isLimit = false
  started : startedOnTop turns <+: Step.leaves steps ∧
    (report.status = .completed → startedOnTop turns = Step.leaves steps)

/-- What the report on a run says, whole, or as far as the run came before a condition had no
outcome. -/
def RunOutcome.Accounted (e : Engine σ) (turns : List (Turn σ)) (steps : List Step) :
    RunOutcome → Prop
  | .reported report => report.Accounted e turns steps
  | .undecided _ report => report.Accounted e turns steps
  | .missingVariable _ => True
  | .raised _ => True
  | .unfinished => True

namespace Executor

theorem names_of_left {e : Engine σ} {ts : List (Turn σ)} {kept : List StepResult}
    {tried : List Step} (h : List.Forall₂ (e.LeftAt ts) kept tried) :
    kept.map (·.name) = tried.map Step.name := by
  induction h with
  | nil => rfl
  | cons hl _ ih => rw [List.map_cons, List.map_cons, hl.1, ih]

/-- No result says that a loop went past its cap. -/
theorem isLimit_of_result {e : Engine σ} {ts : List (Turn σ)} {entry : StepResult}
    (h : entry ∈ resultsOf e ts) : entry.isLimit = false := by
  unfold resultsOf at h
  obtain ⟨t, ht, he⟩ := List.mem_filterMap.mp h
  have hres : t.isResult = true := (List.mem_filter.mp ht).2
  cases hl : entry.isLimit with
  | false => rfl
  | true =>
    obtain ⟨cap, hd, -⟩ := Engine.limit_of_entry he hl
    have hno := Turn.isLimit_of_isResult hres
    rw [hd] at hno
    cases hno

/-- **The report on the steps of a run accounts for its top level.** -/
theorem reportOf_accounted {e : Engine σ} {w : Workflow} {s s' : RunState σ}
    {ts : List (Turn σ)} {r : Except Signal Unit}
    (h : e.Runs [] (.block "" true w.steps) s ts r s') (hc : e.Chain s ts r s')
    (ht : s.trace = []) (hs : s.results = []) {status : RunStatus} {exitCode : Option Int}
    {failedStep : Option String} (hok : status = .completed → r = .ok ())
    (hhalt : ∀ path code, r = .error (.halted path code) → status = .halted) :
    (reportOf w s' status exitCode failedStep).Accounted e ts w.steps := by
  obtain ⟨htrace, hresults⟩ := hc.trace_eq
  rw [ht, List.nil_append] at htrace
  rw [hs, List.nil_append] at hresults
  obtain ⟨kept, tried, untried, refused, ha⟩ := h.attempts
  constructor
  · show s'.results.Sublist s'.trace
    rw [htrace, hresults]
    exact List.filter_sublist.filterMap _
  · refine ⟨kept, tried, untried, refused, ha.split, ha.left, names_of_left ha.left,
      hresults.trans ha.results, fun t hmem => ?_, fun hst => ha.completed (hok hst)⟩
    obtain ⟨hx, hlast, hr⟩ := ha.last t hmem
    obtain ⟨past, rfl⟩ : ∃ past, ts = past ++ [t] := List.getLast?_eq_some_iff.mp hlast
    obtain ⟨x, hxs, href⟩ := hx
    refine ⟨⟨x, hxs, href⟩, hlast, ?_, ?_, hhalt _ _ hr⟩
    · show s'.results.getLast? = _
      rw [hresults, ha.results, Option.mem_def.mp hmem]
      exact List.getLast?_concat
    · show s'.trace.getLast? = _
      rw [htrace, List.filterMap_append, List.filterMap_cons_some href.entry]
      exact List.getLast?_concat
  · show s'.results = _
    rw [hresults]
    exact h.resultsOf_eq
  · intro entry he
    have he' : entry ∈ s'.results := he
    rw [hresults] at he'
    exact isLimit_of_result he'
  · exact ⟨h.started.1, fun hst => h.started.2 (hok hst)⟩

/-- **What is reported after the steps of a run accounts for its top level.** -/
theorem outcomeOf_accounted {e : Engine σ} {w : Workflow} {s s' : RunState σ}
    {ts : List (Turn σ)} {r : Except Signal Unit}
    (h : e.Runs [] (.block "" true w.steps) s ts r s') (hc : e.Chain s ts r s')
    (ht : s.trace = []) (hs : s.results = []) :
    (outcomeOf w s' r).Accounted e ts w.steps := by
  rcases r with signal | u
  · cases signal <;> dsimp only [outcomeOf, RunOutcome.Accounted]
    case halted path code => exact reportOf_accounted h hc ht hs nofun fun _ _ _ => rfl
    case returned | broken | undecided => exact reportOf_accounted h hc ht hs nofun nofun
  · exact reportOf_accounted h hc ht hs (fun _ => rfl) nofun

/-- What is reported on a run that was turned down as a whole has no results. -/
theorem declined_accounted (e : Engine σ) (w : Workflow) {s : RunState σ} (hs : s.results = []) :
    (declined w s).1.Accounted e [] w.steps := by
  refine ⟨?_, ⟨[], [], Step.leaves w.steps, none, rfl, .nil, rfl, hs, fun t ht => ?_, nofun⟩, hs, ?_,
    List.nil_prefix, nofun⟩
  · show s.results.Sublist _
    rw [hs]
    exact List.nil_sublist _
  · exact absurd ht (Option.not_mem_none t)
  · intro entry he
    have he' : entry ∈ s.results := he
    rw [hs] at he'
    cases he'

/-- **Every report accounts for the top level of its workflow.** -/
theorem runWorkflow_accounted (x : Executor σ) (w : Workflow) (r : RunRequest) (world : σ) :
    (x.runWorkflow w r world).1.Accounted (x.engineOf w r world) (x.turns w r world) w.steps := by
  have hg := x.runWorkflow_goes w r world
  generalize x.runWorkflow w r world = p at hg ⊢
  cases hg with
  | begun hop hb =>
    rw [runSteps_apply]
    exact outcomeOf_accounted (runs_of_begun hop) (turns_of_begun hop).1 hb.trace hb.results
  | declined hop hb =>
    rw [turns_of_declined hop]
    exact declined_accounted _ w hb.results
  | @stopped signal s _ _ _ hs =>
    rcases outcomeOf_stopped w s hs with ⟨fault, ho⟩ | ⟨name, ho⟩ <;> rw [ho] <;> trivial

end Executor

end Runbook
