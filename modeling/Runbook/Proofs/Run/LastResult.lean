import Runbook.Proofs.Run.Ending

/-!
# Exit codes are those of the latest result

A comparison of the last exit code looks at a part of the state of its own. That part never gets out
of step with the trace:

* `latestResult?`: the process result of the last entry that has one;
* `RunState.Current`: the last result of a state is the latest one of its trace;
* `Does.current`, `Chain.current`: turns keep a state current, and so do runs;
* `Turn.Checks`: a turn that compares the last exit code; `evaluate_of_check`: what comes of it;
* `Executor.ChecksLatest`, **`runWorkflow_checksLatest`**: what this says of whole runs.
-/

namespace Runbook

variable {σ : Type}

/-! ## 1. The latest result -/

/-- The process result of the last entry that has one. -/
def latestResult? (trace : List StepResult) : Option ProcessResult :=
  (trace.filterMap StepResult.result?).getLast?

theorem latestResult?_concat (trace : List StepResult) (entry : StepResult) :
    latestResult? (trace ++ [entry]) = entry.result?.or (latestResult? trace) := by
  unfold latestResult?
  rw [List.filterMap_append]
  cases h : entry.result? with
  | none => simp [h]
  | some result => simp [h]

theorem latestResult?_eq_none_iff {trace : List StepResult} :
    latestResult? trace = none ↔ ∀ entry ∈ trace, entry.result? = none := by
  unfold latestResult?
  rw [List.getLast?_eq_none_iff, List.filterMap_eq_nil_iff]

/-- The last result of a state is the latest one of its trace. -/
def RunState.Current (s : RunState σ) : Prop := s.last = latestResult? s.trace

namespace RunState.Current

theorem told {s : RunState σ} (h : s.Current) (more : List Event) (world : σ) :
    (s.told more world).Current := h

/-- An entry without a result changes nothing. -/
theorem recorded {s : RunState σ} (h : s.Current) (top : Bool) {entry : StepResult}
    (he : entry.result? = none) : (s.recorded top entry).Current := by
  unfold RunState.Current at h ⊢
  rw [recorded_trace, latestResult?_concat, he, Option.none_or]
  exact h

/-- A command leaves a result as the last one and in its entry, or in neither place. -/
theorem executed {s : RunState σ} (h : s.Current) (command : String) (top : Bool)
    (entry : StepResult) (world : σ) : (s.executed command top entry world).Current := by
  unfold RunState.Current at h ⊢
  rw [executed_trace, latestResult?_concat]
  unfold RunState.executed RunState.concluded
  cases he : entry.result? with
  | none => exact h
  | some result => rfl

theorem captured {s : RunState σ} (h : s.Current) (c : Condition) (holds : Bool) :
    (s.captured c holds).Current := by
  unfold RunState.Current at h ⊢
  rw [captured_trace, ← h]
  unfold RunState.captured
  split <;> (try split) <;> rfl

end RunState.Current

namespace Engine

variable {e : Engine σ} {s s' : RunState σ} {r : Except Signal Unit}

/-- **A turn keeps the last result the latest one.** -/
theorem Does.current {o : Occurrence σ} {d : Deed} (h : e.Does o s d r s') (hs : s.Current) :
    s'.Current := by
  cases h with
  | free | stays | leavesLoop | leavesRun | tired => exact hs
  | approved | unanswered | broke | unjudged => exact hs.told _ _
  | declined => exact (hs.told _ _).recorded _ rfl
  | started entry => exact (hs.executed _ _ entry _).told _ _
  | judged => exact (hs.told _ _).captured _ _
  | limited => exact hs.recorded _ rfl

/-- **So does a chain of turns**, at each of its turns and at its end. -/
theorem Chain.current {ts : List (Turn σ)} (h : e.Chain s ts r s') (hs : s.Current) :
    s'.Current ∧ ∀ t ∈ ts, t.before.Current := by
  induction h with
  | done s => exact ⟨hs, List.forall_mem_nil _⟩
  | next hp _ _ ih =>
    obtain ⟨hend, hturns⟩ := ih ((does_of_perform hp).current hs)
    exact ⟨hend, List.forall_mem_cons.mpr ⟨hs, hturns⟩⟩
  | last hp =>
    exact ⟨(does_of_perform hp).current hs, List.forall_mem_singleton.mpr hs⟩

/-! ## 2. Comparisons of the last exit code -/

/-- What comes of comparing an exit code: a number with too many digits is not read. -/
def compared (text : String) (comparison : Comparison) (result : ProcessResult) (expected : Nat) :
    Except Signal Bool :=
  if Expression.isOversized text then .error (.raised .oversizedNumber)
  else .ok (comparison.holds result.returnCode expected)

/-- A comparison of the last exit code fails without a last result, and goes by it otherwise. -/
theorem decide_of_check {text : String} {comparison : Comparison} {expected : Nat}
    (h : Expression.exitCodeCheck? text = some (comparison, expected)) (s : RunState σ) :
    e.decide text s = match s.last with
      | none => (.error (.undecided .missingResult), s)
      | some result => (compared text comparison result expected, s) := by
  unfold decide compared
  rw [h]
  dsimp only
  rw [Run.state_bind]
  cases s.last with
  | none => rfl
  | some result => cases Expression.isOversized text <;> rfl

/-- No test by the world misses a last result. -/
theorem decide_ne_missing {text : String} (h : Expression.exitCodeCheck? text = none)
    (s : RunState σ) : (e.decide text s).1 ≠ .error (.undecided .missingResult) := by
  unfold decide
  rw [h]
  dsimp only
  rw [Run.test_apply]
  cases (e.world.test text s.world).1 <;> nofun

end Engine

/-- A turn that judges a condition by comparing the last exit code with a number. -/
structure Turn.Checks (t : Turn σ) (c : Condition) (comparison : Comparison) (expected : Nat) :
    Prop where
  deed : t.deed = .judge c
  check : Expression.exitCodeCheck? (Engine.judgedText c t.before.context) =
    some (comparison, expected)

namespace Engine

variable {e : Engine σ} {t : Turn σ} {c : Condition} {comparison : Comparison} {expected : Nat}

/-- **What comes of a comparison**: where the trace so far has a result, the outcome goes by the exit
code of the latest one. -/
theorem evaluate_of_check (h : t.Checks c comparison expected) (hs : t.before.Current)
    {result : ProcessResult} (hl : latestResult? t.before.trace = some result) :
    (e.evaluate c t.before).1 =
      compared (judgedText c t.before.context) comparison result expected := by
  have hlast : t.before.last = some result := hs.trans hl
  rw [evaluate_apply, decide_of_check h.check, hlast]
  dsimp only
  cases compared (judgedText c t.before.context) comparison result expected with
  | ok holds => rfl
  | error signal => rfl

theorem compared_ne_missing (text : String) (comparison : Comparison) (result : ProcessResult)
    (expected : Nat) :
    compared text comparison result expected ≠ .error (.undecided .missingResult) := by
  unfold compared
  intro h
  split at h <;> cases h

/-- Where the trace so far has no result, a comparison fails and changes nothing. -/
theorem evaluate_of_missing (h : t.Checks c comparison expected) (hs : t.before.Current)
    (hl : latestResult? t.before.trace = none) :
    e.evaluate c t.before = (.error (.undecided .missingResult), t.before) := by
  have hlast : t.before.last = none := hs.trans hl
  rw [evaluate_apply, decide_of_check h.check, hlast]

/-- **A comparison fails exactly if no entry of the trace so far has a result.** -/
theorem missing_iff (h : t.Checks c comparison expected) (hs : t.before.Current) :
    (e.evaluate c t.before).1 = .error (.undecided .missingResult) ↔
      ∀ entry ∈ t.before.trace, entry.result? = none := by
  rw [← latestResult?_eq_none_iff]
  constructor
  · intro hm
    cases hl : latestResult? t.before.trace with
    | none => rfl
    | some result =>
      rw [evaluate_of_check h hs hl] at hm
      exact absurd hm (compared_ne_missing _ _ _ _)
  · intro hl
    rw [evaluate_of_missing h hs hl]

/-- A judging that ends in a signal does so because its condition has no outcome. -/
theorem evaluate_of_perform {o : Occurrence σ} {s s' : RunState σ} {signal : Signal}
    (h : e.perform o (.judge c) s = (.error signal, s')) : e.evaluate c s = (.error signal, s') := by
  rw [perform_judge, Run.bind_apply] at h
  rcases hv : e.evaluate c s with ⟨result, s₁⟩
  rw [hv] at h
  cases result with
  | ok holds => cases h
  | error signal' => cases h; rfl

/-- No test by the world fails for want of a result. -/
theorem check_of_missing {s : RunState σ}
    (h : (e.evaluate c s).1 = .error (.undecided .missingResult)) :
    ∃ check, Expression.exitCodeCheck? (judgedText c s.context) = some check := by
  rw [evaluate_apply] at h
  cases hc : Expression.exitCodeCheck? (judgedText c s.context) with
  | some check => exact ⟨check, rfl⟩
  | none =>
    have hne := decide_ne_missing (e := e) hc s
    rcases hx : e.decide (judgedText c s.context) s with ⟨result, s₁⟩
    rw [hx] at h hne
    cases result with
    | ok holds => cases h
    | error signal => exact absurd h hne

/-- **Nothing but a comparison of the last exit code fails for want of a result.** -/
theorem checks_of_missing {s₁ : RunState σ}
    (h : e.perform t.here t.deed t.before = (.error (.undecided .missingResult), s₁)) :
    ∃ c comparison expected, t.Checks c comparison expected ∧
      e.evaluate c t.before = (.error (.undecided .missingResult), s₁) := by
  have hd : ∃ c, t.deed = .judge c := by
    obtain ⟨o, around, d, s⟩ := t
    cases does_of_perform h with
    | unanswered _ _ _ _ _ hs => cases hs
    | started _ _ _ _ _ _ _ _ hr =>
      cases hr with
      | well _ _ hr => cases hr _ rfl
    | unjudged c => exact ⟨c, rfl⟩
  obtain ⟨c, hd⟩ := hd
  rw [hd] at h
  have hj := evaluate_of_perform h
  obtain ⟨⟨comparison, expected⟩, hc⟩ := check_of_missing (congrArg Prod.fst hj)
  exact ⟨c, comparison, expected, ⟨hd, hc⟩, hj⟩

end Engine

/-! ## 3. Whole runs -/

namespace Executor

variable {x : Executor σ} {w : Workflow} {r : RunRequest} {world : σ}

/-- **Comparisons of the last exit code see the latest result of the trace.**

* `current`, `final`: before every turn and at the end of a run the last result is the latest one of the
  trace so far;
* `soFar`: the trace so far has the entries of the turns so far;
* `compared`: a comparison goes by the exit code of the last entry so far that has a result, unless its
  number has too many digits to be read;
* `missing`: it fails for want of a result exactly if no entry so far has one;
* `surfaced`: then it ends the run, which says so, with the report so far;
* `only`: and nothing else makes a run say so. -/
structure ChecksLatest (x : Executor σ) (w : Workflow) (r : RunRequest) (world : σ) : Prop where
  current : ∀ t ∈ x.turns w r world, t.before.last = latestResult? t.before.trace
  final : (x.runWorkflow w r world).2.last = latestResult? (x.runWorkflow w r world).2.trace
  soFar : ∀ past t later, x.turns w r world = past ++ t :: later →
    t.before.trace = past.filterMap (Turn.entry? (x.engineOf w r world))
  compared : ∀ t ∈ x.turns w r world, ∀ c comparison expected, t.Checks c comparison expected →
    ∀ before entry after result, t.before.trace = before ++ entry :: after →
      entry.result? = some result → (∀ later ∈ after, later.result? = none) →
      ((x.engineOf w r world).evaluate c t.before).1 =
        if Expression.isOversized (Engine.judgedText c t.before.context) then
          .error (.raised .oversizedNumber)
        else .ok (comparison.holds result.returnCode expected)
  missing : ∀ t ∈ x.turns w r world, ∀ c comparison expected, t.Checks c comparison expected →
    (((x.engineOf w r world).evaluate c t.before).1 = .error (.undecided .missingResult) ↔
      ∀ entry ∈ t.before.trace, entry.result? = none)
  surfaced : ∀ past t later, x.turns w r world = past ++ t :: later →
    ∀ c comparison expected, t.Checks c comparison expected →
      (∀ entry ∈ t.before.trace, entry.result? = none) → later = [] ∧
        x.runWorkflow w r world =
          (.undecided .missingResult (reportOf w t.before .halted (some 1) none), t.before)
  only : ∀ report, (x.runWorkflow w r world).1 = .undecided .missingResult report →
    ∃ past t c comparison expected, x.turns w r world = past ++ [t] ∧
      t.Checks c comparison expected ∧ (∀ entry ∈ t.before.trace, entry.result? = none) ∧
      report = reportOf w t.before .halted (some 1) none

/-- A run gets to its steps in a state that is current. -/
theorem Before.current {s : RunState σ} {asked : List String} (h : Before s asked) :
    s.Current := by
  unfold RunState.Current
  rw [h.trace, h.last]
  rfl

/-- Before every turn the last result is the latest one. -/
theorem current_of_turn {t : Turn σ} (ht : t ∈ x.turns w r world) : t.before.Current := by
  obtain ⟨approved, s, hop, hbegins⟩ := x.begins_of_turn w r world ht
  obtain ⟨asked, hb⟩ := hbegins.before
  exact ((turns_of_begun hop).1.current hb.current).2 t ht

theorem closed_last (w : Workflow) (result : Except Signal Unit) (s : RunState σ) :
    (closed w result s).last = s.last := by
  unfold closed
  split <;> rfl

/-- At the end of a run the last result is the latest one. -/
theorem runWorkflow_current (x : Executor σ) (w : Workflow) (r : RunRequest) (world : σ) :
    (x.runWorkflow w r world).2.Current := by
  have hg := x.runWorkflow_goes w r world
  generalize x.runWorkflow w r world = p at hg ⊢
  cases hg with
  | begun hop hb =>
    have hend := ((turns_of_begun hop).1.current hb.current).1
    rw [runSteps_apply]
    unfold RunState.Current
    dsimp only
    rw [closed_last, (closed_kept w _ _).1]
    exact hend
  | declined hop hb =>
    -- its only entry has no result
    exact hb.last
  | stopped hop hb => exact hb.current

/-- A turn that compares the last exit code where no entry has a result fails. -/
theorem perform_of_missing {e : Engine σ} {t : Turn σ} {c : Condition} {comparison : Comparison}
    {expected : Nat} (h : t.Checks c comparison expected) (hs : t.before.Current)
    (hl : ∀ entry ∈ t.before.trace, entry.result? = none) :
    e.perform t.here t.deed t.before = (.error (.undecided .missingResult), t.before) := by
  rw [h.deed, Engine.perform_judge, Run.bind_apply,
    Engine.evaluate_of_missing h hs (latestResult?_eq_none_iff.mpr hl)]

/-- **Exit codes that runs compare are those of the latest results.** -/
theorem runWorkflow_checksLatest (x : Executor σ) (w : Workflow) (r : RunRequest) (world : σ) :
    x.ChecksLatest w r world where
  current t ht := current_of_turn ht
  final := x.runWorkflow_current w r world
  soFar past t later hts := by
    obtain ⟨approved, s, hop, hb⟩ := x.begins_of_turn w r world (t := t) (by simp [hts])
    have hchain := (turns_of_begun hop).1
    rw [hts] at hchain
    have htrace := hchain.cut.1.trace_eq.1
    rw [hb.trace, List.nil_append] at htrace
    exact htrace
  compared t ht c comparison expected hc before entry after result htr he ha := by
    refine Engine.evaluate_of_check hc (current_of_turn ht) ?_
    rw [htr]
    exact getLast?_filterMap_of_split he ha
  missing t ht c comparison expected hc := Engine.missing_iff hc (current_of_turn ht)
  surfaced past t later hts c comparison expected hc hnone := by
    have ht : t ∈ x.turns w r world := by simp [hts]
    have hp := perform_of_missing (e := x.engineOf w r world) hc (current_of_turn ht) hnone
    obtain ⟨hlater, hends⟩ := endsIn_of_turn hts hp nofun
    exact ⟨hlater, hends.run_eq⟩
  only report h := by
    obtain ⟨s', hends, rfl⟩ := endsIn_of_undecided h
    obtain ⟨past, t, hts, hp⟩ := hends.last_turn
    obtain ⟨c, comparison, expected, hc, hj⟩ := Engine.checks_of_missing hp
    have ht : t ∈ x.turns w r world := by simp [hts]
    have hcurrent := current_of_turn ht
    have hnone := (Engine.missing_iff hc hcurrent).mp (congrArg Prod.fst hj)
    rw [perform_of_missing hc hcurrent hnone] at hp
    cases hp
    exact ⟨past, t, c, comparison, expected, hts, hc, hnone, rfl⟩

end Executor

end Runbook
