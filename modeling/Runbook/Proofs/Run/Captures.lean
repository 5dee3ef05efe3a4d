import Runbook.Proofs.Run.Coverage
import Runbook.Proofs.Run.Ending

/-!
# Only captures change the values of a run

The values of variables are one context, which all steps of a run share. Behind the filling in of
missing variables it is bound to new values in one place only, and its values can be told from the
turns of a run:

* `Turn.capture?`: the outcome that a turn captures into a name;
* `get?_of_perform`, `Chain.get?_eq`: a turn changes the name it captures into and no other, and so the
  values behind a chain are the latest outcomes, over the values before it;
* `mem_capturedNames_of_capture`: what is captured into is among the captured names of the workflow;
* `Executor.CapturesOnly`, **`runWorkflow_capturesOnly`**: what this says of whole runs.
-/

namespace Runbook

variable {σ : Type}

/-! ## 1. Captures -/

/-- The value that stands for the outcome of a condition. -/
def outcomeWord (holds : Bool) : String := if holds then "true" else "false"

/-- The outcome that a turn captures into a name: the turn judges a condition that captures into the
name, and the condition has an outcome. -/
def Turn.capture? (e : Engine σ) (name : String) (t : Turn σ) : Option Bool :=
  match t.deed with
  | .judge c =>
    if c.capture = some name ∧ name ≠ "" then (e.evaluate c t.before).1.toOption else none
  | _ => none

/-- The outcome that the latest of the given turns to capture into a name has captured. -/
def latestCapture? (e : Engine σ) (name : String) (ts : List (Turn σ)) : Option Bool :=
  (ts.filterMap (Turn.capture? e name)).getLast?

theorem latestCapture?_cons (e : Engine σ) (name : String) (t : Turn σ) (ts : List (Turn σ)) :
    latestCapture? e name (t :: ts) = (latestCapture? e name ts).or (t.capture? e name) := by
  unfold latestCapture?
  cases h : t.capture? e name with
  | none => rw [List.filterMap_cons_none h, Option.or_none]
  | some holds =>
    rw [List.filterMap_cons_some h, List.getLast?_cons]
    cases (ts.filterMap (Turn.capture? e name)).getLast? <;> rfl

theorem latestCapture?_eq_none {e : Engine σ} {name : String} {ts : List (Turn σ)}
    (h : ∀ t ∈ ts, t.capture? e name = none) : latestCapture? e name ts = none := by
  unfold latestCapture?
  rw [List.filterMap_eq_nil_iff.mpr h]
  rfl

theorem latestCapture?_of_split {e : Engine σ} {name : String} {past later : List (Turn σ)}
    {t : Turn σ} {holds : Bool} (ht : t.capture? e name = some holds)
    (hl : ∀ u ∈ later, u.capture? e name = none) :
    latestCapture? e name (past ++ t :: later) = some holds :=
  getLast?_filterMap_of_split ht hl

/-- Capturing binds the name of a condition, unless it is empty, and no other name. -/
theorem RunState.get?_captured (s : RunState σ) (c : Condition) (holds : Bool) (name : String) :
    (s.captured c holds).context.get? name =
      if c.capture = some name ∧ name ≠ "" then some (outcomeWord holds)
      else s.context.get? name := by
  unfold RunState.captured
  cases hc : c.capture with
  | none => simp
  | some bound =>
    dsimp only
    by_cases hb : bound = ""
    · subst hb
      rw [if_pos rfl, if_neg]
      rintro ⟨hn, hne⟩
      exact hne (Option.some.inj hn).symm
    · rw [if_neg hb, Assoc.get?_put]
      by_cases hn : bound = name
      · subst hn
        simp [hb, outcomeWord]
      · rw [if_neg hn, if_neg]
        exact fun h => hn (Option.some.inj h.1)

namespace Engine

variable {e : Engine σ} {s s' : RunState σ} {r : Except Signal Unit}

/-- **A turn binds the name that it captures into, and no other.** -/
theorem get?_of_perform {t : Turn σ} (h : e.perform t.here t.deed t.before = (r, s'))
    (name : String) : s'.context.get? name =
      ((t.capture? e name).map outcomeWord).or (t.before.context.get? name) := by
  obtain ⟨o, around, d, s⟩ := t
  have same : s'.context = s.context → Turn.capture? e name ⟨o, around, d, s⟩ = none →
      s'.context.get? name = ((Turn.capture? e name ⟨o, around, d, s⟩).map outcomeWord).or
        (s.context.get? name) := by
    intro hs hc
    rw [hs, hc]
    rfl
  dsimp only at h ⊢
  cases d with
  | judge c =>
    rw [perform_judge, Run.bind_apply] at h
    unfold Turn.capture?
    dsimp only
    obtain ⟨world, ⟨holds, hv⟩ | ⟨signal, hv, -⟩⟩ := evaluate_cases e c s
    · rw [hv] at h ⊢
      cases h
      rw [RunState.get?_captured]
      split <;> rfl
    · rw [hv] at h ⊢
      cases h
      split <;> rfl
  | reach =>
    refine same ?_ rfl
    cases does_of_perform h <;> rfl
  | start =>
    refine same ?_ rfl
    cases does_of_perform h <;> simp
  | act a =>
    refine same ?_ rfl
    cases does_of_perform h <;> rfl
  | limit cap =>
    refine same ?_ rfl
    cases does_of_perform h
    rfl
  | tire =>
    refine same ?_ rfl
    cases does_of_perform h
    rfl

/-- **The values behind a chain are the latest outcomes that its turns captured**, over the values
before it. -/
theorem Chain.get?_eq {ts : List (Turn σ)} (h : e.Chain s ts r s') (name : String) :
    s'.context.get? name =
      ((latestCapture? e name ts).map outcomeWord).or (s.context.get? name) := by
  have join : ∀ (a b : Option Bool) (c : Option String),
      (a.map outcomeWord).or ((b.map outcomeWord).or c) = ((a.or b).map outcomeWord).or c := by
    intro a b c
    cases a <;> rfl
  induction h with
  | done s => rfl
  | @next s s₁ s' o around d ts r₁ r hp _ _ ih =>
    rw [ih, get?_of_perform (t := ⟨o, around, d, s⟩) hp, latestCapture?_cons, join]
  | @last s s' o around d signal hp =>
    rw [get?_of_perform (t := ⟨o, around, d, s⟩) hp, latestCapture?_cons]
    rfl

end Engine

/-! ## 2. Whole runs -/

namespace Executor

variable {x : Executor σ} {w : Workflow} {r : RunRequest} {world : σ}

/-- The values that the steps of a run start with: those behind the filling in of missing variables. -/
def startValues (x : Executor σ) (w : Workflow) (r : RunRequest) (world : σ) : Context :=
  (x.filled w r world).2.context

theorem opening_context (x : Executor σ) (w : Workflow) (r : RunRequest) (world : σ) :
    (x.opening w r world).state.context = x.startValues w r world := by
  obtain ⟨more, world', h⟩ := x.opening_told w r world
  rw [h]
  rfl

/-- **A run captures into captured names of its workflow only.** -/
theorem mem_capturedNames_of_capture {t : Turn σ} (ht : t ∈ x.turns w r world) {name : String}
    {holds : Bool} (h : t.capture? (x.engineOf w r world) name = some holds) :
    name ∈ capturedNames w.steps := by
  unfold Turn.capture? at h
  cases hd : t.deed with
  | judge c =>
    rw [hd] at h
    dsimp only at h
    split at h
    · rename_i hname
      exact mem_capturedNames.mpr ⟨t.here.step, (place_of_turn ht).1, c, condition_of_judge ht hd,
        hname⟩
    · cases h
  | reach | start | act | limit | tire =>
    rw [hd] at h
    cases h

theorem capture?_eq_none_of_not_mem {name : String} (hn : name ∉ capturedNames w.steps) :
    ∀ t ∈ x.turns w r world, t.capture? (x.engineOf w r world) name = none := by
  intro t ht
  cases h : t.capture? (x.engineOf w r world) name with
  | none => rfl
  | some holds => exact absurd (mem_capturedNames_of_capture ht h) hn

/-- **The values of a run between its turns** are the latest outcomes so far, over those at the start. -/
theorem get?_before {past later : List (Turn σ)} {t : Turn σ}
    (hts : x.turns w r world = past ++ t :: later) (name : String) :
    t.before.context.get? name =
      ((latestCapture? (x.engineOf w r world) name past).map outcomeWord).or
        ((x.startValues w r world).get? name) := by
  obtain ⟨approved, s, hop, -⟩ := x.begins_of_turn w r world (t := t) (by simp [hts])
  have hstart := x.opening_context w r world
  have hchain := (turns_of_begun hop).1
  rw [hts] at hchain
  rw [hop] at hstart
  rw [hchain.cut.1.get?_eq name, ← hstart]
  rfl

/-- **The values at the end of a run** are the latest outcomes, over those at the start. -/
theorem get?_end (x : Executor σ) (w : Workflow) (r : RunRequest) (world : σ) (name : String) :
    (x.runWorkflow w r world).2.context.get? name =
      ((latestCapture? (x.engineOf w r world) name (x.turns w r world)).map outcomeWord).or
        ((x.startValues w r world).get? name) := by
  have hstart := x.opening_context w r world
  have hg := x.runWorkflow_goes w r world
  generalize x.runWorkflow w r world = p at hg ⊢
  cases hg with
  | begun hop =>
    rw [hop] at hstart
    have hend := (turns_of_begun hop).1.get?_eq name
    rw [← hstart, runSteps_apply]
    unfold closed
    split <;> exact hend
  | declined hop =>
    rw [hop] at hstart
    rw [turns_of_declined hop, ← hstart]
    rfl
  | stopped hop =>
    rw [hop] at hstart
    rw [turns_of_stopped hop, ← hstart]
    rfl

/-- **Only captures change the values of a run**, whichever way it ends.

* `captured`: a run captures into captured names of its workflow only;
* `before`, `others`: before each turn and at the end all other names are as at the start of the steps;
* `untouched`, `untouchedBefore`: so are names into which nothing was captured so far;
* `latest`, `latestBefore`: all others have the latest outcome that was captured into them;
* `unjudged`: a judging without outcome ends the run and leaves its state as it was, apart from what it
  asked of the world. -/
structure CapturesOnly (x : Executor σ) (w : Workflow) (r : RunRequest) (world : σ) : Prop where
  captured : ∀ t ∈ x.turns w r world, ∀ name holds,
    t.capture? (x.engineOf w r world) name = some holds → name ∈ capturedNames w.steps
  before : ∀ t ∈ x.turns w r world, ∀ name, name ∉ capturedNames w.steps →
    t.before.context.get? name = (x.startValues w r world).get? name
  others : ∀ name, name ∉ capturedNames w.steps →
    (x.runWorkflow w r world).2.context.get? name = (x.startValues w r world).get? name
  untouched : ∀ name,
    (∀ t ∈ x.turns w r world, t.capture? (x.engineOf w r world) name = none) →
      (x.runWorkflow w r world).2.context.get? name = (x.startValues w r world).get? name
  untouchedBefore : ∀ name past t later, x.turns w r world = past ++ t :: later →
    (∀ u ∈ past, u.capture? (x.engineOf w r world) name = none) →
      t.before.context.get? name = (x.startValues w r world).get? name
  latest : ∀ name past t later holds, x.turns w r world = past ++ t :: later →
    t.capture? (x.engineOf w r world) name = some holds →
    (∀ u ∈ later, u.capture? (x.engineOf w r world) name = none) →
      (x.runWorkflow w r world).2.context.get? name = some (if holds then "true" else "false")
  latestBefore : ∀ name past t between u later holds,
    x.turns w r world = past ++ t :: (between ++ u :: later) →
    t.capture? (x.engineOf w r world) name = some holds →
    (∀ v ∈ between, v.capture? (x.engineOf w r world) name = none) →
      u.before.context.get? name = some (if holds then "true" else "false")
  unjudged : ∀ past t later, x.turns w r world = past ++ t :: later → ∀ c signal,
    t.deed = .judge c → ((x.engineOf w r world).evaluate c t.before).1 = .error signal →
      later = [] ∧ ∃ more world', (x.runWorkflow w r world).2 = t.before.told more world'

/-- A judging without outcome ends a run, and leaves its state as it was but for what it asked of the
world. -/
theorem told_of_unjudged {past later : List (Turn σ)} {t : Turn σ} {c : Condition}
    {signal : Signal} (hts : x.turns w r world = past ++ t :: later) (hd : t.deed = .judge c)
    (hj : ((x.engineOf w r world).evaluate c t.before).1 = .error signal) :
    later = [] ∧ ∃ more world', (x.runWorkflow w r world).2 = t.before.told more world' := by
  obtain ⟨world', ⟨holds, hv⟩ | ⟨signal', hv, hs⟩⟩ :=
    Engine.evaluate_cases (x.engineOf w r world) c t.before
  · rw [hv] at hj
    cases hj
  · have hp : (x.engineOf w r world).perform t.here t.deed t.before =
        (.error signal', t.before.told (Engine.testsFor (Engine.judgedText c t.before.context))
          world') := by
      rw [hd, Engine.perform_judge, Run.bind_apply, hv]
    have hne : signal' ≠ .broken := by
      rintro rfl
      rcases hs with hs | ⟨error, hs⟩ <;> cases hs
    obtain ⟨hlater, hends⟩ := endsIn_of_turn hts hp hne
    refine ⟨hlater, Engine.testsFor (Engine.judgedText c t.before.context), world', ?_⟩
    rw [hends.run_eq]
    -- a judging does not halt a run, so that nothing is noted at its end
    rcases hs with hs | ⟨error, rfl⟩
    · cases signal' with
      | raised fault => rfl
      | halted | returned | broken | undecided | missingVariable | unfinished => cases hs
    · rfl

/-- **The values of a run change by captures, and not otherwise.** -/
theorem runWorkflow_capturesOnly (x : Executor σ) (w : Workflow) (r : RunRequest) (world : σ) :
    x.CapturesOnly w r world where
  captured _ ht _ _ h := mem_capturedNames_of_capture ht h
  before t ht name hn := by
    obtain ⟨past, later, hts⟩ := List.append_of_mem ht
    have hnone : ∀ u ∈ past, u.capture? (x.engineOf w r world) name = none :=
      fun u hu => capture?_eq_none_of_not_mem hn u (hts ▸ List.mem_append_left _ hu)
    rw [get?_before hts, latestCapture?_eq_none hnone]
    rfl
  others name hn := by
    rw [get?_end, latestCapture?_eq_none (capture?_eq_none_of_not_mem hn)]
    rfl
  untouched name hnone := by
    rw [get?_end, latestCapture?_eq_none hnone]
    rfl
  untouchedBefore name past t later hts hnone := by
    rw [get?_before hts, latestCapture?_eq_none hnone]
    rfl
  latest name past t later holds hts ht hl := by
    rw [get?_end, hts, latestCapture?_of_split ht hl]
    rfl
  latestBefore name past t between u later holds hts ht hb := by
    have hsplit : x.turns w r world = (past ++ t :: between) ++ u :: later := by
      rw [hts, List.append_assoc, List.cons_append]
    rw [get?_before hsplit, latestCapture?_of_split ht hb]
    rfl
  unjudged _ _ _ hts _ _ hd hj := told_of_unjudged hts hd hj

end Executor

end Runbook
