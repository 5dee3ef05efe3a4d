import Runbook.Proofs.Run.Record

/-!
# How runs end

A run that does not come to the end of its steps is ended by a turn, and what is reported says by which
kind of turn:

* `Executor.EndsIn`: the steps of a run end in a signal;
* `EndsIn.last_turn`, `EndsIn.run_eq`: the turn that gave the signal is the last one, and the run comes
  out as the signal says;
* `endsIn_of_turn`: a turn that gives a signal ends the run, unless it only leaves a loop;
* `endsIn_of_undecided`, `endsIn_of_returned`, `endsIn_of_broken`: the signal read off what is reported.
-/

namespace Runbook

variable {σ : Type}

namespace Executor

variable {x : Executor σ} {w : Workflow} {r : RunRequest} {world : σ} {signal : Signal}
  {s' : RunState σ}

/-- The steps of a run end in a signal, in the given state. -/
def EndsIn (x : Executor σ) (w : Workflow) (r : RunRequest) (world : σ) (signal : Signal)
    (s' : RunState σ) : Prop :=
  ∃ approved s, x.opening w r world = .begun approved s ∧
    (x.engine approved).runBlock "" true w.steps s = (.error signal, s')

/-- A run that gets to its steps comes out as they end. -/
theorem runWorkflow_of_begun {approved : Bool} {s : RunState σ} {result : Except Signal Unit}
    (hop : x.opening w r world = .begun approved s)
    (hr : (x.engine approved).runBlock "" true w.steps s = (result, s')) :
    x.runWorkflow w r world = (outcomeOf w s' result, closed w result s') := by
  rw [runWorkflow_eq, hop]
  dsimp only
  rw [runSteps_apply, hr]

/-- A run that ends in a signal comes out as the signal says. -/
theorem EndsIn.run_eq (h : x.EndsIn w r world signal s') :
    x.runWorkflow w r world = (outcomeOf w s' (.error signal), closed w (.error signal) s') := by
  obtain ⟨approved, s, hop, hr⟩ := h
  exact runWorkflow_of_begun hop hr

/-- **The turn that gave the signal is the last one.** -/
theorem EndsIn.last_turn (h : x.EndsIn w r world signal s') :
    ∃ past t, x.turns w r world = past ++ [t] ∧
      (x.engineOf w r world).perform t.here t.deed t.before = (.error signal, s') := by
  obtain ⟨approved, s, hop, hr⟩ := h
  have hchain := (turns_of_begun hop).1
  rw [hr] at hchain
  obtain ⟨t, ht, hp⟩ := hchain.last_of_error
  obtain ⟨past, hts⟩ := List.getLast?_eq_some_iff.mp ht
  exact ⟨past, t, hts, hp⟩

/-- **A turn that gives a signal ends the run**, unless it only leaves a loop. -/
theorem endsIn_of_turn {past later : List (Turn σ)} {t : Turn σ}
    (hts : x.turns w r world = past ++ t :: later)
    (hp : (x.engineOf w r world).perform t.here t.deed t.before = (.error signal, s'))
    (hne : signal ≠ .broken) : later = [] ∧ x.EndsIn w r world signal s' := by
  obtain ⟨approved, s, hop, -⟩ := x.begins_of_turn w r world (t := t) (by simp [hts])
  have hchain := (turns_of_begun hop).1
  rw [hts] at hchain
  obtain ⟨hlater, hresult, hstate⟩ := hchain.cut.2.eq_nil_of_stops hp hne
  exact ⟨hlater, approved, s, hop, Prod.ext hresult hstate⟩

/-- A run that says of a condition that it had no outcome ended in that. -/
theorem endsIn_of_undecided {error : ExpressionError} {report : RunReport}
    (h : (x.runWorkflow w r world).1 = .undecided error report) :
    ∃ s', x.EndsIn w r world (.undecided error) s' ∧
      report = reportOf w s' .halted (some 1) none := by
  have hg := x.runWorkflow_goes w r world
  generalize x.runWorkflow w r world = p at h hg
  cases hg with
  | @begun approved s _ hop hb =>
    rw [runSteps_apply] at h
    rcases hr : (x.engine approved).runBlock "" true w.steps s with ⟨result, s'⟩
    rw [hr] at h
    rcases result with signal | u
    · cases signal with
      | undecided error' =>
        cases h
        exact ⟨s', ⟨approved, s, hop, hr⟩, rfl⟩
      | halted | returned | broken | missingVariable | raised | unfinished => cases h
    · cases h
  | declined => cases h
  | @stopped signal s _ _ _ hs =>
    rcases outcomeOf_stopped w s hs with ⟨fault, ho⟩ | ⟨name, ho⟩ <;> rw [ho] at h <;> cases h

/-- How a run ended whose report shows that it was not halted. -/
theorem ends_of_report {report : RunReport} (h : report ∈ (x.runWorkflow w r world).1.report?) :
    report.status = .halted ∨ report.status = .completed ∨
      (report.status = .returned ∧ ∃ s', x.EndsIn w r world (.returned report.exitCode) s') ∨
      (report.status = .broken ∧ ∃ s', x.EndsIn w r world .broken s') := by
  have hg := x.runWorkflow_goes w r world
  generalize x.runWorkflow w r world = p at h hg
  cases hg with
  | @begun approved s _ hop hb =>
    rw [runSteps_apply] at h
    rcases hr : (x.engine approved).runBlock "" true w.steps s with ⟨result, s'⟩
    rw [hr] at h
    rcases result with signal | u
    · cases signal with
      | halted | undecided =>
        cases h
        exact Or.inl rfl
      | returned code =>
        cases h
        exact Or.inr (Or.inr (Or.inl ⟨rfl, s', approved, s, hop, hr⟩))
      | broken =>
        cases h
        exact Or.inr (Or.inr (Or.inr ⟨rfl, s', approved, s, hop, hr⟩))
      | missingVariable | raised | unfinished => cases h
    · cases h
      exact Or.inr (Or.inl rfl)
  | declined =>
    cases h
    exact Or.inl rfl
  | @stopped signal s _ _ _ hs =>
    rcases outcomeOf_stopped w s hs with ⟨fault, ho⟩ | ⟨name, ho⟩ <;> rw [ho] at h <;> cases h

/-- A run that is reported to have returned ended by leaving the run with the reported exit code. -/
theorem endsIn_of_returned {report : RunReport}
    (h : report ∈ (x.runWorkflow w r world).1.report?) (hs : report.status = .returned) :
    ∃ s', x.EndsIn w r world (.returned report.exitCode) s' := by
  rcases ends_of_report h with hh | hh | ⟨-, hends⟩ | ⟨hh, -⟩
  · rw [hs] at hh
    cases hh
  · rw [hs] at hh
    cases hh
  · exact hends
  · rw [hs] at hh
    cases hh

/-- A run that is reported to have been broken off ended by leaving a loop where there was none. -/
theorem endsIn_of_broken {report : RunReport}
    (h : report ∈ (x.runWorkflow w r world).1.report?) (hs : report.status = .broken) :
    ∃ s', x.EndsIn w r world .broken s' := by
  rcases ends_of_report h with hh | hh | ⟨hh, -⟩ | ⟨-, hends⟩
  · rw [hs] at hh
    cases hh
  · rw [hs] at hh
    cases hh
  · rw [hs] at hh
    cases hh
  · exact hends

end Executor

end Runbook
