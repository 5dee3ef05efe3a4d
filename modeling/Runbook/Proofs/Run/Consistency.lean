import Runbook.Proofs.Run.Opening

/-!
# Reports are consistent

Status, exit code, failed step and trace of a report are written at many places and from any depth.
They agree all the same:

* `Engine.Settled`: an entry after which the run could go on;
* `RunReport.Consistent`, `RunOutcome.Consistent`: what status, exit code, failed step and trace say
  together;
* `Engine.Adds`: the entries that a turn or a chain of turns leaves, by how it ends;
* **`runWorkflow_consistent`**: every run of every workflow ends in a consistent outcome.
-/

namespace Runbook

variable {σ : Type}

/-! ## 1. What a report says -/

/-- An entry that the run could go on after: its process succeeded, or it is what became of the
command of a step that lets the run go on. -/
def Engine.Settled (e : Engine σ) (turns : List (Turn σ)) (entry : StepResult) : Prop :=
  entry.ok = true ∨ ∃ t ∈ turns, t.deed = .start ∧
    (∃ h, t.here.step = .command h ∧ h.continueOnError = true) ∧
    (e.execute t.here.head t.here.path t.here.top t.before).1 = .ok entry

/-- The last turn of a run is an action of a conditional that leaves the run with the exit code. -/
def Fired (turns : List (Turn σ)) (exitCode : Option Int) : Prop :=
  ∃ t ∈ turns.getLast?, t.deed = .act (some ⟨.leaveRun, exitCode⟩) ∧
    ∃ h c thenBlock elseBlock,
      t.here.step = .conditional h c thenBlock elseBlock (some ⟨.leaveRun, exitCode⟩)

/-- What status, exit code, failed step and trace of a report say together. -/
def RunReport.Consistent (e : Engine σ) (turns : List (Turn σ)) (report : RunReport) : Prop :=
  match report.status with
  | .completed => report.failedStep = none ∧ report.exitCode = some 0 ∧
      ∀ entry ∈ report.trace, e.Settled turns entry
  | .broken => report.failedStep = none ∧ report.exitCode = some 0 ∧
      ∀ entry ∈ report.trace, e.Settled turns entry
  | .returned => report.failedStep = none ∧ Fired turns report.exitCode ∧
      ∀ entry ∈ report.trace, e.Settled turns entry
  | .halted => ∃ earlier last, report.trace = earlier ++ [last] ∧
      report.failedStep = some last.name ∧ last.ok = false ∧
      report.exitCode = some (last.returnCode?.getD 1) ∧ report.exitCode ≠ some 0 ∧
      ∀ entry ∈ earlier, e.Settled turns entry

/-- What the report on a run says, whole, or as far as the run came before a condition had no
outcome. -/
def RunOutcome.Consistent (e : Engine σ) (turns : List (Turn σ)) : RunOutcome → Prop
  | .reported report => report.Consistent e turns
  | .undecided _ report => report.status = .halted ∧ report.exitCode = some 1 ∧
      report.failedStep = none ∧ ∀ entry ∈ report.trace, e.Settled turns entry
  | .missingVariable _ => True
  | .raised _ => True
  | .unfinished => True

/-! ## 2. The entries of a turn -/

namespace Engine

/-- The entries that are left on the way to a result: a run that is stopped leaves the entry that
stopped it as the last one, and all other entries are settled. -/
inductive Adds (settled : StepResult → Prop) : Except Signal Unit → List StepResult → Prop
  | onward {r : Except Signal Unit} {new : List StepResult}
      (hr : ∀ path code, r ≠ .error (.halted path code)) (h : ∀ entry ∈ new, settled entry) :
      Adds settled r new
  | halted (earlier : List StepResult) (last : StepResult) {code : Int} (hok : last.ok = false)
      (hc : code = last.returnCode?.getD 1) (h0 : code ≠ 0)
      (h : ∀ entry ∈ earlier, settled entry) :
      Adds settled (.error (.halted last.name code)) (earlier ++ [last])

theorem Adds.mono {p q : StepResult → Prop} (hpq : ∀ entry, p entry → q entry)
    {r : Except Signal Unit} {new : List StepResult} (h : Adds p r new) : Adds q r new := by
  cases h with
  | onward hr h => exact .onward hr fun entry he => hpq entry (h entry he)
  | halted earlier last hok hc h0 h =>
    exact .halted earlier last hok hc h0 fun entry he => hpq entry (h entry he)

theorem Adds.after {p : StepResult → Prop} {r : Except Signal Unit} {old new : List StepResult}
    (hold : ∀ entry ∈ old, p entry) (h : Adds p r new) : Adds p r (old ++ new) := by
  have both : ∀ {more : List StepResult}, (∀ entry ∈ more, p entry) →
      ∀ entry ∈ old ++ more, p entry := by
    intro more hmore entry he
    rcases List.mem_append.mp he with he | he
    · exact hold entry he
    · exact hmore entry he
  cases h with
  | onward hr h => exact .onward hr (both h)
  | halted earlier last hok hc h0 h =>
    rw [← List.append_assoc]
    exact .halted (old ++ earlier) last hok hc h0 (both h)

/-- Where a run is not stopped, all entries are settled. -/
theorem Adds.settled {p : StepResult → Prop} {r : Except Signal Unit} {new : List StepResult}
    (h : Adds p r new) (hr : ∀ path code, r ≠ .error (.halted path code)) :
    ∀ entry ∈ new, p entry := by
  cases h with
  | onward _ h => exact h
  | halted => exact absurd rfl (hr _ _)

/-- The exit code for a failure is that of the process, which is not zero, and 1 without a process. -/
theorem failureCode_eq {entry : StepResult} (h : entry.ok = false) :
    failureCode entry = entry.returnCode?.getD 1 ∧ failureCode entry ≠ 0 := by
  obtain ⟨name, outcome⟩ := entry
  cases outcome with
  | error err => exact ⟨rfl, Int.one_ne_zero⟩
  | ok result =>
    have h0 : result.returnCode ≠ 0 := by
      intro h0
      simp [StepResult.ok, ProcessResult.success, h0] at h
    have hc : failureCode ⟨name, .ok result⟩ = result.returnCode := by
      show (if result.returnCode = 0 then 1 else result.returnCode) = _
      rw [if_neg h0]
    rw [hc]
    exact ⟨rfl, h0⟩

theorem not_halted_of_isRaised {signal : Signal} (h : signal.isRaised = true) (path : String)
    (code : Int) : (.error signal : Except Signal Unit) ≠ .error (.halted path code) := by
  rintro ⟨⟩
  cases h

/-- A leaf step that is no authentication is a command. -/
theorem eq_command_of_leaf {s : Step} (hk : s.kind.isControlFlow = false)
    (ha : (s.kind == .auth) = false) : ∃ h, s = .command h := by
  cases s with
  | command h => exact ⟨h, rfl⟩
  | auth h => cases ha
  | conditional | branch | loop => cases hk

/-- **The entries of a turn.** -/
theorem Place.adds {e : Engine σ} {t : Turn σ} {s' : RunState σ} {r : Except Signal Unit}
    (hf : e.Place t.here t.before t.deed) (h : e.Does t.here t.before t.deed r s') :
    ∃ new, s'.trace = t.before.trace ++ new ∧ Adds (e.Settled [t]) r new := by
  have none_new : ∀ {r : Except Signal Unit}, (∀ path code, r ≠ .error (.halted path code)) →
      s'.trace = t.before.trace →
      ∃ new, s'.trace = t.before.trace ++ new ∧ Adds (e.Settled [t]) r new := by
    intro r hr ht
    exact ⟨[], by rw [ht, List.append_nil], .onward hr (by simp)⟩
  obtain ⟨o, around, d, s⟩ := t
  dsimp only at hf h none_new ⊢
  cases h with
  | free => exact none_new (by simp) rfl
  | approved => exact none_new (by simp) rfl
  | declined =>
    exact ⟨_, rfl, .halted [] ⟨o.path, .error (.notApproved .step o.step.name)⟩
      rfl rfl Int.one_ne_zero (by simp)⟩
  | unanswered signal lines world ha hl hs => exact none_new (not_halted_of_isRaised hs) rfl
  | broke => exact none_new (by simp) rfl
  | started entry r world more world' hn hx hm hr =>
    refine ⟨[entry], by simp, ?_⟩
    cases hr with
    | well _ hok hr =>
      refine .onward ?_ fun entry' he => ?_
      · rintro path code rfl
        cases hr _ rfl
      · obtain rfl := List.mem_singleton.mp he
        exact Or.inl hok
    | onward hok ha hc =>
      cases hf with
      | start hk =>
        obtain ⟨h, hs⟩ := eq_command_of_leaf hk ha
        refine .onward (by simp) fun entry' he => ?_
        obtain rfl := List.mem_singleton.mp he
        refine Or.inr ⟨_, List.mem_singleton_self _, rfl, ⟨h, hs, ?_⟩, by rw [hx]⟩
        unfold Occurrence.head at hc
        rw [hs] at hc
        exact hc
    | halted hok =>
      obtain ⟨hc, h0⟩ := failureCode_eq hok
      exact .halted [] entry hok hc h0 (by simp)
  | judged => exact none_new (by simp) (by simp)
  | unjudged c signal world hs =>
    refine none_new ?_ rfl
    rintro path code ⟨⟩
    rcases hs with hs | ⟨error, hs⟩ <;> cases hs
  | stays => exact none_new (by simp) rfl
  | leavesLoop => exact none_new (by simp) rfl
  | leavesRun => exact none_new (by simp) rfl
  | limited cap =>
    exact ⟨_, rfl, .halted [] ⟨o.path, .error (.loopLimit o.step.name cap)⟩
      rfl rfl Int.one_ne_zero (by simp)⟩
  | tired => exact none_new (by simp) rfl

/-! ## 3. The entries of a run -/

theorem Settled.mono {e : Engine σ} {ts us : List (Turn σ)} (h : ∀ t ∈ ts, t ∈ us)
    {entry : StepResult} (hs : e.Settled ts entry) : e.Settled us entry := by
  rcases hs with hs | ⟨t, ht, hs⟩
  · exact Or.inl hs
  · exact Or.inr ⟨t, h t ht, hs⟩

/-- **The entries of a chain of turns**: by induction along the chain, each turn adding its own. -/
theorem Chain.adds {e : Engine σ} {s s' : RunState σ} {ts : List (Turn σ)}
    {r : Except Signal Unit} (h : e.Chain s ts r s')
    (hf : ∀ t ∈ ts, e.Place t.here t.before t.deed) :
    ∃ new, s'.trace = s.trace ++ new ∧ Adds (e.Settled ts) r new := by
  induction h with
  | done s => exact ⟨[], (List.append_nil _).symm, .onward (by simp) (by simp)⟩
  | next hp hon _ ih =>
    obtain ⟨a, hta, ha⟩ := (hf _ List.mem_cons_self).adds (does_of_perform hp)
    obtain ⟨b, htb, hb⟩ := ih fun t ht => hf t (List.mem_cons_of_mem _ ht)
    refine ⟨a ++ b, by rw [htb, hta, List.append_assoc], .after ?_ (hb.mono fun _ =>
      Settled.mono fun t ht => List.mem_cons_of_mem _ ht)⟩
    exact fun entry he => Settled.mono (by simp) (ha.settled (by rcases hon with rfl | rfl <;> simp) entry he)
  | last hp => exact (hf _ List.mem_cons_self).adds (does_of_perform hp)

/-- Only the action of a conditional leaves a run, with the exit code of that action. -/
theorem Chain.fired {e : Engine σ} {s s' : RunState σ} {ts : List (Turn σ)}
    {code : Option Int} (h : e.Chain s ts (.error (.returned code)) s')
    (hf : ∀ t ∈ ts, e.Place t.here t.before t.deed) : Fired ts code := by
  obtain ⟨⟨o, around, d, before⟩, ht, hp⟩ := h.last_of_error
  have hplace := hf _ (List.mem_of_getLast? ht)
  refine ⟨_, ht, ?_⟩
  -- of all deeds that end in this signal only the action is left
  cases does_of_perform hp with
  | leavesRun =>
    cases hplace with
    | act hd c block other a hs => exact ⟨rfl, hd, c, block, other, hs⟩
  | unanswered _ _ _ _ _ hs => cases hs
  | started entry _ _ _ _ _ _ _ hr =>
    cases hr with
    | well _ _ hr => cases hr _ rfl
  | unjudged _ _ _ hs => rcases hs with hs | ⟨error, hs⟩ <;> cases hs

end Engine

/-! ## 4. Whole runs -/

namespace Executor

/-- **What is reported after the steps of a run is consistent.** -/
theorem outcomeOf_consistent {e : Engine σ} {s s' : RunState σ} {ts : List (Turn σ)}
    {r : Except Signal Unit} (w : Workflow) (hs : s.trace = []) (h : e.Chain s ts r s')
    (hf : ∀ t ∈ ts, e.Place t.here t.before t.deed) :
    (outcomeOf w s' r).Consistent e ts := by
  obtain ⟨new, ht, ha⟩ := h.adds hf
  rw [hs, List.nil_append] at ht
  have hall : (∀ path code, r ≠ .error (.halted path code)) →
      ∀ entry ∈ s'.trace, e.Settled ts entry := by
    rw [ht]
    exact ha.settled
  rcases r with signal | u
  · cases signal with
    | halted path code =>
      cases ha with
      | onward hr _ => exact absurd rfl (hr _ _)
      | halted earlier last hok hc h0 hset =>
        exact ⟨earlier, last, ht, rfl, hok, congrArg some hc, fun h => h0 (Option.some.inj h),
          hset⟩
    | returned code => exact ⟨rfl, h.fired hf, hall (by simp)⟩
    | broken => exact ⟨rfl, rfl, hall (by simp)⟩
    | undecided error => exact ⟨rfl, rfl, rfl, hall (by simp)⟩
    | missingVariable | raised | unfinished => trivial
  · exact ⟨rfl, rfl, hall (by simp)⟩

/-- What is reported on a run that was turned down as a whole is consistent. -/
theorem declined_consistent (e : Engine σ) (w : Workflow) (s : RunState σ) :
    (declined w s).1.Consistent e [] :=
  ⟨[], ⟨w.name, .error (.notApproved .workflow w.name)⟩, rfl, rfl, rfl, rfl, by simp [reportOf],
    by simp⟩

/-- **Every run of every workflow ends in a consistent outcome.** -/
theorem runWorkflow_consistent (x : Executor σ) (w : Workflow) (r : RunRequest) (world : σ) :
    (x.runWorkflow w r world).1.Consistent (x.engineOf w r world) (x.turns w r world) := by
  rw [runWorkflow_eq]
  obtain ⟨o, hop, ho⟩ := x.exists_opening w r world
  rw [hop]
  cases o with
  | begun approved s =>
    obtain ⟨hc, hf⟩ := turns_of_begun hop
    have hs : s.trace = [] := by
      cases ho with
      | begun _ _ h => exact h.trace
    dsimp only
    rw [runSteps_apply]
    exact outcomeOf_consistent w hs hc hf.place
  | declined s =>
    rw [turns_of_declined hop]
    exact declined_consistent _ w s
  | stopped signal s =>
    have hsig : signal.isRaised = true ∨ ∃ name, signal = .missingVariable name := by
      cases ho with
      | unfilled _ _ _ hs _ => exact hs
      | unanswered _ _ _ _ _ _ hs => exact Or.inl hs
    rcases hsig with hr | ⟨name, rfl⟩
    · cases signal with
      | raised fault => trivial
      | halted | returned | broken | undecided | missingVariable | unfinished => cases hr
    · trivial

end Executor

end Runbook
