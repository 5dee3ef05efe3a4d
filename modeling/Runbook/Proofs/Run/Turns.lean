import Runbook.Proofs.Run.Course

/-!
# Runs are chains of turns

What holds of a run is read off its turns. This file says once what a turn can do and how the turns
of a run hang together; the theorems on whole runs are inductions over such chains.

* `Engine.Does`, `perform_does`: all that a deed can do to the state of a run;
* `RunState.Grows`: trace, results and events are kept and at most added to;
* `Engine.Chain`: turns that lead from a state to a result and a state;
* `Turn.Fits`: a deed stands where it belongs -- at a step of its kind, and after that step and all
  steps around it have passed their approval;
* **`blockCourse_sound`**: the turns of a block are a chain, and every turn fits.
-/

namespace Runbook

variable {σ α β : Type}

/-! ## 1. What a deed can do -/

namespace Engine

/-- **All that a deed at an occurrence can do**: from a state to a result and a state. -/
inductive Does (e : Engine σ) (o : Occurrence σ) (s : RunState σ) :
    Deed → Except Signal Unit → RunState σ → Prop
  | free (ha : e.asks o.head = false) : Does e o s .reach (.ok ()) s
  | approved (lines : List Event) (world : σ) (ha : e.asks o.head = true)
      (hl : lines.all Event.isLine = true)
      (hy : Run.approve e.world (question o.step.kind o.head) s =
        (.ok true, s.told (.approval (question o.step.kind o.head) :: lines) world)) :
      Does e o s .reach (.ok ()) (s.told (.approval (question o.step.kind o.head) :: lines) world)
  | declined (lines : List Event) (world : σ) (ha : e.asks o.head = true)
      (hl : lines.all Event.isLine = true)
      (hn : Run.approve e.world (question o.step.kind o.head) s =
        (.ok false, s.told (.approval (question o.step.kind o.head) :: lines) world)) :
      Does e o s .reach (.error (.halted o.path 1))
        ((s.told (.approval (question o.step.kind o.head) :: lines) world).recorded o.top
          ⟨o.path, .error (.notApproved .step o.step.name)⟩)
  | unanswered (signal : Signal) (lines : List Event) (world : σ) (ha : e.asks o.head = true)
      (hl : lines.all Event.isLine = true) (hs : signal.isRaised = true)
      (hu : Run.approve e.world (question o.step.kind o.head) s =
        (.error signal, s.told (.approval (question o.step.kind o.head) :: lines) world)) :
      Does e o s .reach (.error signal)
        (s.told (.approval (question o.step.kind o.head) :: lines) world)
  | broke (fault : Fault) (world : σ) :
      Does e o s .start (.error (.raised fault)) (s.told [.spawned o.head.command] world)
  | started (entry : StepResult) (r : Except Signal Unit) (world : σ) (more : List Event)
      (world' : σ) (hn : entry.name = o.path)
      (hx : e.execute o.head o.path o.top s =
        (.ok entry, s.executed o.head.command o.top entry world))
      (hm : more.filter Event.isRequest = [])
      (hr : Ends (o.step.kind == .auth) o.head entry r) :
      Does e o s .start r ((s.executed o.head.command o.top entry world).told more world')
  | judged (c : Condition) (holds : Bool) (world : σ) :
      Does e o s (.judge c) (.ok ())
        ((s.told (testsFor (judgedText c s.context)) world).captured c holds)
  | unjudged (c : Condition) (signal : Signal) (world : σ)
      (hs : signal.isRaised = true ∨ ∃ error, signal = .undecided error) :
      Does e o s (.judge c) (.error signal) (s.told (testsFor (judgedText c s.context)) world)
  | stays (a : Option Action)
      (ha : ∀ action ∈ a, action.kind ≠ .leaveLoop ∧ action.kind ≠ .leaveRun) :
      Does e o s (.act a) (.ok ()) s
  | leavesLoop (code : Option Int) :
      Does e o s (.act (some ⟨.leaveLoop, code⟩)) (.error .broken) s
  | leavesRun (code : Option Int) :
      Does e o s (.act (some ⟨.leaveRun, code⟩)) (.error (.returned code)) s
  | limited (cap : Int) :
      Does e o s (.limit cap) (.error (.halted o.path 1))
        (s.recorded false ⟨o.path, .error (.loopLimit o.step.name cap)⟩)
  | tired : Does e o s .tire (.error .unfinished) s

/-- **A deed does no more than `Does` says.** -/
theorem perform_does (e : Engine σ) (o : Occurrence σ) (d : Deed) (s : RunState σ) :
    e.Does o s d (e.perform o d s).1 (e.perform o d s).2 := by
  cases d with
  | reach =>
    rw [perform_reach]
    cases ha : e.asks o.head with
    | false =>
      rw [gate_of_not_asks ha]
      exact .free ha
    | true =>
      rw [gate_of_asks ha]
      obtain ⟨r, lines, world, hq, hl, hr⟩ :=
        Run.approve_cases e.world (question o.step.kind o.head) s
      rw [hq]
      cases r with
      | error signal => exact .unanswered signal lines world ha hl (hr signal rfl) hq
      | ok yes =>
        cases yes with
        | true => exact .approved lines world ha hl hq
        | false => exact .declined lines world ha hl hq
  | start =>
    rw [perform_start]
    rcases runLeaf_cases e (o.step.kind == .auth) o.head o.path o.top s with
      ⟨fault, world, hx⟩ | ⟨entry, r, world, more, world', hn, hx, hl, hm, hr⟩
    · rw [hx]
      exact .broke fault world
    · rw [hl]
      exact .started entry r world more world' hn hx hm hr
  | judge c =>
    rw [perform_judge, Run.bind_apply]
    obtain ⟨world, ⟨holds, hv⟩ | ⟨signal, hv, hs⟩⟩ := evaluate_cases e c s
    · rw [hv]
      exact .judged c holds world
    · rw [hv]
      exact .unjudged c signal world hs
  | act a =>
    rcases a with _ | ⟨kind, code⟩
    · exact .stays none (by simp)
    · cases kind with
      | runThen => exact .stays _ (by simp)
      | runElse => exact .stays _ (by simp)
      | proceed => exact .stays _ (by simp)
      | leaveLoop => exact .leavesLoop code
      | leaveRun => exact .leavesRun code
  | limit cap => exact .limited cap
  | tire => exact .tired

end Engine

/-! ## 2. Growth -/

/-- What a run has behind it is kept and at most added to. -/
structure RunState.Grows (s s' : RunState σ) : Prop where
  trace : s.trace <+: s'.trace
  results : s.results <+: s'.results
  events : s.events <+: s'.events

namespace RunState.Grows

theorem refl (s : RunState σ) : Grows s s := ⟨List.prefix_rfl, List.prefix_rfl, List.prefix_rfl⟩

theorem trans {s₁ s₂ s₃ : RunState σ} (h : Grows s₁ s₂) (h' : Grows s₂ s₃) : Grows s₁ s₃ :=
  ⟨h.trace.trans h'.trace, h.results.trans h'.results, h.events.trans h'.events⟩

theorem told (s : RunState σ) (more : List Event) (world : σ) : Grows s (s.told more world) :=
  ⟨List.prefix_rfl, List.prefix_rfl, List.prefix_append _ _⟩

theorem recorded (s : RunState σ) (top : Bool) (entry : StepResult) :
    Grows s (s.recorded top entry) := by
  refine ⟨List.prefix_append _ _, ?_, List.prefix_rfl⟩
  unfold RunState.recorded
  cases top with
  | false => exact List.prefix_rfl
  | true => exact List.prefix_append _ _

theorem concluded (s : RunState σ) (entry : StepResult) : Grows s (s.concluded entry) := by
  constructor <;> simp

theorem executed (s : RunState σ) (command : String) (top : Bool) (entry : StepResult)
    (world : σ) : Grows s (s.executed command top entry world) :=
  ((told s _ _).trans (concluded _ _)).trans (recorded _ _ _)

theorem captured (s : RunState σ) (c : Condition) (holds : Bool) :
    Grows s (s.captured c holds) := by
  constructor <;> simp

end RunState.Grows

/-- A deed keeps what a run has behind it. -/
theorem Engine.Does.grows {e : Engine σ} {o : Occurrence σ} {s s' : RunState σ} {d : Deed}
    {r : Except Signal Unit} (h : e.Does o s d r s') : s.Grows s' := by
  cases h with
  | free | stays | leavesLoop | leavesRun | tired => exact .refl s
  | approved | unanswered | broke | unjudged => exact .told s _ _
  | declined => exact (RunState.Grows.told s _ _).trans (.recorded _ _ _)
  | started => exact (RunState.Grows.executed s _ _ _ _).trans (.told _ _ _)
  | judged c holds => exact (RunState.Grows.told s _ _).trans (.captured _ _ _)
  | limited => exact .recorded s _ _

/-! ## 3. Chains -/

namespace Engine

/-- **Turns that lead from a state to a result and a state.** Each turn starts where the one before it
ended. A signal ends the chain, unless it is the leaving of a loop that is inside the chain. -/
inductive Chain (e : Engine σ) :
    RunState σ → List (Turn σ) → Except Signal Unit → RunState σ → Prop
  | done (s : RunState σ) : Chain e s [] (.ok ()) s
  | next {s s₁ s' : RunState σ} {o : Occurrence σ} {around : List (Occurrence σ)} {d : Deed}
      {ts : List (Turn σ)} {r₁ r : Except Signal Unit} (h : e.perform o d s = (r₁, s₁))
      (hon : r₁ = .ok () ∨ r₁ = .error .broken) (rest : Chain e s₁ ts r s') :
      Chain e s (⟨o, around, d, s⟩ :: ts) r s'
  | last {s s' : RunState σ} {o : Occurrence σ} {around : List (Occurrence σ)} {d : Deed}
      {signal : Signal} (h : e.perform o d s = (.error signal, s')) :
      Chain e s [⟨o, around, d, s⟩] (.error signal) s'

variable {e : Engine σ}

theorem does_of_perform {o : Occurrence σ} {d : Deed} {s s' : RunState σ}
    {r : Except Signal Unit} (h : e.perform o d s = (r, s')) : e.Does o s d r s' := by
  have hd := perform_does e o d s
  rw [h] at hd
  exact hd

namespace Chain

theorem append {s s₁ s' : RunState σ} {ts us : List (Turn σ)} {r : Except Signal Unit}
    (h : e.Chain s ts (.ok ()) s₁) (h' : e.Chain s₁ us r s') : e.Chain s (ts ++ us) r s' := by
  generalize hr : (Except.ok () : Except Signal Unit) = r₁ at h
  induction h with
  | done s => exact h'
  | next hp hon _ ih => exact .next hp hon (ih h' hr)
  | last hp => cases hr

/-- A chain that ends by leaving a loop goes on behind the loop. -/
theorem caught {s s' : RunState σ} {ts : List (Turn σ)} (h : e.Chain s ts (.error .broken) s') :
    e.Chain s ts (.ok ()) s' := by
  generalize hr : (Except.error .broken : Except Signal Unit) = r at h
  induction h with
  | done s => cases hr
  | next hp hon _ ih => exact .next hp hon (ih hr)
  | last hp =>
    cases hr
    exact .next hp (Or.inr rfl) (.done _)

/-- The states before the turns of a chain and the state at its end keep what is behind its start. -/
theorem grows {s s' : RunState σ} {ts : List (Turn σ)} {r : Except Signal Unit}
    (h : e.Chain s ts r s') : s.Grows s' ∧ ∀ t ∈ ts, s.Grows t.before := by
  induction h with
  | done s => exact ⟨.refl s, by simp⟩
  | next hp _ _ ih =>
    have hg := (does_of_perform hp).grows
    refine ⟨hg.trans ih.1, ?_⟩
    intro t ht
    rcases List.mem_cons.mp ht with rfl | ht
    · exact .refl _
    · exact hg.trans (ih.2 t ht)
  | last hp =>
    refine ⟨(does_of_perform hp).grows, ?_⟩
    intro t ht
    rw [List.mem_singleton] at ht
    subst ht
    exact .refl _

/-- A chain can be cut before any of its turns. -/
theorem cut {s s' : RunState σ} {ts us : List (Turn σ)} {t : Turn σ} {r : Except Signal Unit}
    (h : e.Chain s (ts ++ t :: us) r s') :
    e.Chain s ts (.ok ()) t.before ∧ e.Chain t.before (t :: us) r s' := by
  induction ts generalizing s with
  | nil =>
    cases h with
    | next hp hon rest => exact ⟨.done s, .next hp hon rest⟩
    | last hp => exact ⟨.done s, .last hp⟩
  | cons u ts ih =>
    rw [List.cons_append] at h
    generalize hl : ts ++ t :: us = more at h
    cases h with
    | next hp hon rest =>
      rw [← hl] at rest
      obtain ⟨before, after⟩ := ih rest
      exact ⟨.next hp hon before, after⟩
    | last hp => exact absurd hl (by simp)

/-- A turn that ends in a signal, other than by leaving a loop, is the last one. -/
theorem eq_nil_of_stops {s s' s₁ : RunState σ} {t : Turn σ} {us : List (Turn σ)}
    {r : Except Signal Unit} {signal : Signal} (h : e.Chain s (t :: us) r s')
    (hp : e.perform t.here t.deed t.before = (.error signal, s₁)) (hs : signal ≠ .broken) :
    us = [] ∧ r = .error signal ∧ s' = s₁ := by
  cases h with
  | next hq hon rest =>
    rw [hq] at hp
    cases hp
    rcases hon with hon | hon <;> cases hon
    exact absurd rfl hs
  | last hq =>
    rw [hq] at hp
    cases hp
    exact ⟨rfl, rfl, rfl⟩

/-- A chain that ends in a signal ends with the turn that gave it. -/
theorem last_of_error {s s' : RunState σ} {ts : List (Turn σ)} {signal : Signal}
    (h : e.Chain s ts (.error signal) s') :
    ∃ t ∈ ts.getLast?, e.perform t.here t.deed t.before = (.error signal, s') := by
  generalize hr : (Except.error signal : Except Signal Unit) = r at h
  induction h with
  | done s => cases hr
  | next hp hon _ ih =>
    obtain ⟨t, ht, ht'⟩ := ih hr
    refine ⟨t, ?_, ht'⟩
    rw [List.getLast?_cons, Option.mem_def.mp ht]
    rfl
  | last hp =>
    cases hr
    exact ⟨_, rfl, hp⟩

end Chain

/-! ## 4. Where deeds stand -/

/-- The given turns have come to an occurrence. -/
def Reached (o : Occurrence σ) (past : List (Turn σ)) : Prop :=
  ∃ around, (⟨o, around, .reach, o.state⟩ : Turn σ) ∈ past

theorem Reached.append {o : Occurrence σ} {past : List (Turn σ)} (h : Reached o past)
    (more : List (Turn σ)) : Reached o (past ++ more) := by
  obtain ⟨around, ht⟩ := h
  exact ⟨around, List.mem_append_left more ht⟩

/-- An occurrence has passed its approval before a state of the run. -/
def Passed (e : Engine σ) (o : Occurrence σ) (s : RunState σ) : Prop :=
  ∃ s₁, e.perform o .reach o.state = (.ok (), s₁) ∧ s₁.Grows s

/-- **What comes after an occurrence was reached comes after it has passed its approval.** -/
theorem Chain.passed {s s' : RunState σ} {past later : List (Turn σ)} {t : Turn σ}
    {r : Except Signal Unit} (h : e.Chain s (past ++ t :: later) r s') {o : Occurrence σ}
    (hr : Reached o past) : e.Passed o t.before := by
  obtain ⟨around, hu⟩ := hr
  obtain ⟨earlier, between, rfl⟩ := List.append_of_mem hu
  rw [List.append_assoc, List.cons_append] at h
  obtain ⟨-, h⟩ := h.cut
  generalize hl : between ++ t :: later = more at h
  cases h with
  | next hp hon rest =>
    rw [← hl] at rest
    rcases hon with rfl | rfl
    · exact ⟨_, hp, rest.cut.1.grows.1⟩
    · -- leaving a loop is nothing that an approval does
      cases does_of_perform hp with
      | unanswered _ _ _ _ _ hs => cases hs
  | last hp => exact absurd hl (by simp)

/-- **The place of a deed**: a run comes to a step in the occurrence's own state, and does all else at
a step of the right kind. -/
inductive Place (e : Engine σ) (o : Occurrence σ) (s : RunState σ) : Deed → Prop
  | reach (hs : o.state = s) : Place e o s .reach
  | start (hk : o.step.kind.isControlFlow = false) : Place e o s .start
  | judge (c : Condition) (hc : o.step.condition? = some c) : Place e o s (.judge c)
  | act (h : StepHead) (c : Condition) (t : List Step) (el : Option (List Step))
      (a : Option Action) (hs : o.step = .conditional h c t el a) : Place e o s (.act a)
  | limit (cap : Int) (hk : o.step.kind = .loop) (hc : e.cap = some cap) :
      Place e o s (.limit cap)
  | tire (hk : o.step.kind = .loop) : Place e o s .tire

/-- Turns inside occurrences of steps of a tree, all of which they have come to. -/
def Inside (steps : List Step) (around : List (Occurrence σ)) (past : List (Turn σ)) : Prop :=
  ∀ o ∈ around, o.step ∈ steps ∧ Reached o past

theorem Inside.append {steps : List Step} {around : List (Occurrence σ)} {past : List (Turn σ)}
    (h : Inside steps around past) (more : List (Turn σ)) : Inside steps around (past ++ more) :=
  fun o ho => ⟨(h o ho).1, (h o ho).2.append more⟩

end Engine

/-- **A turn that stands where it belongs** among the steps of a tree: behind turns that have come to
every step around it, and to its own step unless it does so itself. -/
structure Turn.Fits (e : Engine σ) (steps : List Step) (past : List (Turn σ)) (t : Turn σ) :
    Prop where
  step : t.here.step ∈ steps
  around : Engine.Inside steps t.around past
  here : t.deed = .reach ∨ Engine.Reached t.here past
  place : e.Place t.here t.before t.deed

/-- Each of the given turns is as `G` says, given the turns behind it. -/
def EachTurn (G : List (Turn σ) → Turn σ → Prop) : (past ts : List (Turn σ)) → Prop
  | _, [] => True
  | past, t :: ts => G past t ∧ EachTurn G (past ++ [t]) ts

theorem eachTurn_append {G : List (Turn σ) → Turn σ → Prop} {past ts us : List (Turn σ)} :
    EachTurn G past (ts ++ us) ↔ EachTurn G past ts ∧ EachTurn G (past ++ ts) us := by
  induction ts generalizing past with
  | nil => simp [EachTurn]
  | cons t ts ih => simp [EachTurn, ih, and_assoc]

theorem EachTurn.here {G : List (Turn σ) → Turn σ → Prop} {past earlier later : List (Turn σ)}
    {t : Turn σ} (h : EachTurn G past (earlier ++ t :: later)) : G (past ++ earlier) t :=
  (eachTurn_append.mp h).2.1

theorem EachTurn.place {e : Engine σ} {steps : List Step} {past ts : List (Turn σ)}
    (h : EachTurn (Turn.Fits e steps) past ts) : ∀ t ∈ ts, e.Place t.here t.before t.deed := by
  intro t ht
  obtain ⟨earlier, later, rfl⟩ := List.append_of_mem ht
  exact h.here.place

/-! ## 5. Every course is a chain of fitting turns -/

/-- The turns of a course are a chain that leads where the course ends, and behind turns and in
states as `P` says each of them is as `G` says. -/
structure Course.Sound (e : Engine σ) (P : List (Turn σ) → RunState σ → Prop)
    (G : List (Turn σ) → Turn σ → Prop) (c : Course σ α) : Prop where
  chain : ∀ s, e.Chain s (c.turns s) ((c.run s).1.map fun _ => ()) (c.run s).2
  fits : ∀ past s, P past s → EachTurn G past (c.turns s)

namespace Course.Sound

variable {e : Engine σ} {P Q : List (Turn σ) → RunState σ → Prop}
  {G : List (Turn σ) → Turn σ → Prop}

theorem pure (a : α) : Sound e P G (Pure.pure a : Course σ α) :=
  ⟨fun s => .done s, fun _ _ _ => trivial⟩

theorem bind {R : List (Turn σ) → RunState σ → Prop} {m : Course σ α} {f : α → Course σ β}
    (hm : Sound e P G m)
    (hR : ∀ past s a s', P past s → m.run s = (.ok a, s') → R (past ++ m.turns s) s')
    (hf : ∀ a, Sound e R G (f a)) : Sound e P G (m >>= f) := by
  constructor
  · intro s
    have h := hm.chain s
    rw [turns_bind, run_bind, Run.bind_apply]
    rcases hr : m.run s with ⟨r, s'⟩
    rw [hr] at h
    cases r with
    | error signal =>
      dsimp only
      rw [List.append_nil]
      exact h
    | ok a => exact h.append ((hf a).chain s')
  · intro past s hs
    rw [turns_bind]
    refine eachTurn_append.mpr ⟨hm.fits past s hs, ?_⟩
    rcases hr : m.run s with ⟨r, s'⟩
    cases r with
    | error signal => trivial
    | ok a => exact (hf a).fits _ s' (hR past s a s' hs hr)

/-- What is kept as turns are added holds from one course to the next. -/
theorem andThen {P : List (Turn σ) → Prop} (hP : ∀ past more, P past → P (past ++ more))
    {m : Course σ α} {f : α → Course σ β} (hm : Sound e (fun past _ => P past) G m)
    (hf : ∀ a, Sound e (fun past _ => P past) G (f a)) :
    Sound e (fun past _ => P past) G (m >>= f) :=
  bind hm (fun past s _ _ hs _ => hP past (m.turns s) hs) hf

theorem leftLoop {c : Course σ Unit} (h : Sound e P G c) : Sound e P G c.leftLoop := by
  refine ⟨fun s => ?_, h.fits⟩
  have hc := h.chain s
  rw [turns_leftLoop, run_leftLoop]
  unfold Run.leftLoop
  rcases hr : c.run s with ⟨r, s'⟩
  rw [hr] at hc
  rcases r with signal | u
  · cases signal with
    | broken => exact hc.caught
    | halted | returned | undecided | missingVariable | raised | unfinished => exact hc
  · exact hc

theorem visit {above : String} {top : Bool} {step : Step} {f : Occurrence σ → Course σ α}
    (h : ∀ s, Sound e (fun past s' => P past s ∧ s' = s) G (f ⟨above, top, step, s⟩)) :
    Sound e P G (Course.visit above top step f) :=
  ⟨fun s => (h s).chain s, fun past s hs => (h s).fits past s ⟨hs, rfl⟩⟩

theorem ite {c : Prop} [Decidable c] {a b : Course σ α} (ha : Sound e P G a)
    (hb : Sound e P G b) : Sound e P G (if c then a else b) := by
  by_cases hc : c
  · rw [if_pos hc]
    exact ha
  · rw [if_neg hc]
    exact hb

end Course.Sound

namespace Engine

variable {e : Engine σ} {P : List (Turn σ) → RunState σ → Prop}
  {G : List (Turn σ) → Turn σ → Prop}

theorem chain_deed (e : Engine σ) (o : Occurrence σ) (around : List (Occurrence σ)) (d : Deed)
    (s : RunState σ) :
    e.Chain s [⟨o, around, d, s⟩] (e.perform o d s).1 (e.perform o d s).2 := by
  rcases h : e.perform o d s with ⟨r, s'⟩
  cases r with
  | ok u => exact .next h (Or.inl rfl) (.done s')
  | error signal => exact .last h

theorem deed_sound {o : Occurrence σ} {around : List (Occurrence σ)} {d : Deed}
    (h : ∀ past s, P past s → G past ⟨o, around, d, s⟩) : (e.deed o around d).Sound e P G := by
  refine ⟨fun s => ?_, fun past s hs => ⟨h past s hs, trivial⟩⟩
  have hc := chain_deed e o around d s
  rw [turns_deed, run_deed]
  rcases hr : e.perform o d s with ⟨r, s'⟩
  rw [hr] at hc
  cases r <;> exact hc

theorem judge_sound {o : Occurrence σ} {around : List (Occurrence σ)} {c : Condition}
    (h : ∀ past s, P past s → G past ⟨o, around, .judge c, s⟩) :
    (e.judge o around c).Sound e P G := by
  refine ⟨fun s => ?_, fun past s hs => ⟨h past s hs, trivial⟩⟩
  have hc := chain_deed e o around (.judge c) s
  rw [perform_judge, Run.bind_apply] at hc
  rw [turns_judge, run_judge]
  rcases hr : e.evaluate c s with ⟨r, s'⟩
  rw [hr] at hc
  cases r <;> exact hc

theorem loopCourse_sound {P : List (Turn σ) → Prop} {o : Occurrence σ}
    {around : List (Occurrence σ)} {c : Condition} {body : Nat → Course σ Unit}
    (hP : ∀ past more, P past → P (past ++ more))
    (hd : ∀ d past s, P past → e.Place o s d → G past ⟨o, around, d, s⟩)
    (hk : o.step.kind = .loop) (hc : o.step.condition? = some c)
    (hb : ∀ n, (body n).Sound e (fun past _ => P past) G) (rounds done : Nat) :
    (e.loopCourse o around c body rounds done).Sound e (fun past _ => P past) G := by
  induction rounds generalizing done with
  | zero => exact deed_sound fun past s hs => hd .tire past s hs (.tire hk)
  | succ rounds ih =>
    unfold loopCourse
    have hj : (e.judge o around c).Sound e (fun past _ => P past) G :=
      judge_sound fun past s hs => hd (.judge c) past s hs (.judge c hc)
    refine .andThen hP hj fun holds => .ite ?_ (.pure ())
    cases hcap : e.pastCap (done + 1) with
    | some cap =>
      have hcap : e.cap = some cap := (Option.filter_eq_some_iff.mp hcap).1
      exact deed_sound fun past s hs => hd (.limit cap) past s hs (.limit cap hk hcap)
    | none =>
      exact .andThen hP (.leftLoop (hb (done + 1))) fun _ => .ite (.pure ()) (ih (done + 1))

/-- The course of a step is sound wherever it starts. -/
def StepSound (e : Engine σ) (steps : List Step) (s : Step) : Prop :=
  ∀ around above top, (e.stepCourse around above top s).Sound e
    (fun past _ => Inside steps around past) (Turn.Fits e steps)

theorem blockCourse_sound_of {steps block : List Step} (h : ∀ s ∈ block, e.StepSound steps s)
    (around : List (Occurrence σ)) (above : String) (top : Bool) :
    (e.blockCourse around above top block).Sound e (fun past _ => Inside steps around past)
      (Turn.Fits e steps) := by
  induction block with
  | nil =>
    unfold blockCourse
    exact .pure ()
  | cons s rest ih =>
    unfold blockCourse
    exact .andThen (fun _ more hin => hin.append more) (h s List.mem_cons_self around above top)
      fun _ => ih fun t ht => h t (List.mem_cons_of_mem _ ht)

theorem casesCourse_sound_of {steps : List Step} {cases : List (String × List Step)}
    (h : ∀ entry ∈ cases, ∀ s ∈ entry.2, e.StepSound steps s)
    (around : List (Occurrence σ)) (path : String) (context : Context) (value : String) :
    (e.casesCourse around path context value cases).Sound e
      (fun past _ => Inside steps around past) (Turn.Fits e steps) := by
  induction cases with
  | nil =>
    unfold casesCourse
    exact .pure false
  | cons entry rest ih =>
    obtain ⟨v, block⟩ := entry
    unfold casesCourse
    refine .ite ?_ (ih fun b hb => h b (List.mem_cons_of_mem _ hb))
    exact .andThen (fun _ more hin => hin.append more)
      (blockCourse_sound_of (h (v, block) List.mem_cons_self) _ _ _) fun _ => .pure true

/-- What a run does at a step once it has come to it: the rest of its course is sound inside it. -/
theorem reach_sound {steps : List Step} {around : List (Occurrence σ)} {above : String}
    {top : Bool} {step : Step} {f : Occurrence σ → Course σ Unit} (hs : step ∈ steps)
    (hf : ∀ o : Occurrence σ, o.step = step →
      (f o).Sound e (fun past _ => Inside steps (o :: around) past) (Turn.Fits e steps)) :
    (Course.visit above top step fun o => e.deed o around .reach >>= fun _ => f o).Sound e
      (fun past _ => Inside steps around past) (Turn.Fits e steps) := by
  refine .visit fun s => ?_
  let o : Occurrence σ := ⟨above, top, step, s⟩
  refine .bind (deed_sound ?_) ?_ fun _ => hf o rfl
  · rintro past s' ⟨hin, rfl⟩
    exact ⟨hs, hin, Or.inl rfl, .reach rfl⟩
  · rintro past s₁ u s' ⟨hin, rfl⟩ -
    intro o' ho'
    rcases List.mem_cons.mp ho' with rfl | ho'
    · exact ⟨hs, around, List.mem_append_right _ (List.mem_singleton_self _)⟩
    · exact hin.append _ o' ho'

/-- A deed fits wherever its step has been reached. -/
theorem fits_inside {steps : List Step} {o : Occurrence σ} {around : List (Occurrence σ)}
    {d : Deed} {past : List (Turn σ)} {s : RunState σ} (h : Inside steps (o :: around) past)
    (hp : e.Place o s d) : Turn.Fits e steps past ⟨o, around, d, s⟩ :=
  ⟨(h o List.mem_cons_self).1, fun o' ho' => h o' (List.mem_cons_of_mem _ ho'),
    Or.inr (h o List.mem_cons_self).2, hp⟩

/-- **The course of a step is a chain of fitting turns.** -/
theorem stepCourse_sound {steps : List Step} (s : Step) :
    (∀ x ∈ s.walk, x ∈ steps) → e.StepSound steps s := by
  induction s using Step.childInduction with
  | h s ih =>
    intro hw around above top
    have hs : s ∈ steps := hw s (Step.mem_walk_self s)
    have ih' : ∀ c ∈ s.children, e.StepSound steps c :=
      fun c hc => ih c hc fun x hx => hw x (Step.mem_walk_of_child hc hx)
    have grow : ∀ (around : List (Occurrence σ)) (past more : List (Turn σ)),
        Inside steps around past → Inside steps around (past ++ more) :=
      fun _ _ more hin => hin.append more
    cases s with
    | command h =>
      unfold stepCourse
      exact reach_sound hs fun o ho => deed_sound fun past s hin =>
        fits_inside hin (.start (by rw [ho]; rfl))
    | auth h =>
      unfold stepCourse
      exact reach_sound hs fun o ho => deed_sound fun past s hin =>
        fits_inside hin (.start (by rw [ho]; rfl))
    | conditional h c t el a =>
      have ht := blockCourse_sound_of fun s hs => ih' s (Step.mem_children_then hs)
      have hact : ∀ o : Occurrence σ, o.step = .conditional h c t el a →
          (e.deed o around (.act a)).Sound e (fun past _ => Inside steps (o :: around) past)
            (Turn.Fits e steps) :=
        fun o ho => deed_sound fun past s hin => fits_inside hin (.act _ _ _ _ _ ho)
      have hjudge : ∀ o : Occurrence σ, o.step = .conditional h c t el a →
          (e.judge o around c).Sound e (fun past _ => Inside steps (o :: around) past)
            (Turn.Fits e steps) :=
        fun o ho => judge_sound fun past s hin => fits_inside hin (.judge c (by rw [ho]; rfl))
      cases el with
      | none =>
        unfold stepCourse
        refine reach_sound hs fun o ho => ?_
        refine .andThen (grow _) (hjudge o ho) fun holds => .ite ?_ (hact o ho)
        exact .andThen (grow _) (ht _ _ _) fun _ => hact o ho
      | some el =>
        have hel := blockCourse_sound_of fun s hs => ih' s (Step.mem_children_else hs)
        unfold stepCourse
        refine reach_sound hs fun o ho => ?_
        refine .andThen (grow _) (hjudge o ho) fun holds => .ite ?_ ?_
        · exact .andThen (grow _) (ht _ _ _) fun _ => hact o ho
        · exact .andThen (grow _) (hel _ _ _) fun _ => hact o ho
    | branch h v cs d =>
      have hcs := casesCourse_sound_of fun entry he s hs => ih' s (Step.mem_children_case he hs)
      cases d with
      | none =>
        unfold stepCourse
        exact reach_sound hs fun o ho => .andThen (grow _) (hcs _ _ _ _) fun _ => .pure ()
      | some d =>
        have hd := blockCourse_sound_of fun s hs => ih' s (Step.mem_children_default hs)
        unfold stepCourse
        exact reach_sound hs fun o ho =>
          .andThen (grow _) (hcs _ _ _ _) fun _ => .ite (.pure ()) (hd _ _ _)
    | loop h c b =>
      have hb := blockCourse_sound_of fun s hs => ih' s (Step.mem_children_body hs)
      unfold stepCourse
      exact reach_sound hs fun o ho => loopCourse_sound (grow _)
        (fun d past s hin hp => fits_inside hin hp) (by rw [ho]; rfl) (by rw [ho]; rfl)
        (fun n => hb _ _ _) _ _

/-- **The course of a block from a state: a chain of turns that fit the steps of the block.** -/
theorem blockCourse_sound (e : Engine σ) (above : String) (top : Bool) (block : List Step) :
    (e.blockCourse [] above top block).Sound e (fun _ _ => True)
      (Turn.Fits e (Step.walkBlock block)) := by
  have h : (e.blockCourse [] above top block).Sound e
      (fun past _ => Inside (Step.walkBlock block) [] past) (Turn.Fits e (Step.walkBlock block)) :=
    blockCourse_sound_of (fun s hs => stepCourse_sound s fun x hx =>
      Step.mem_walkBlock.mpr ⟨s, hs, hx⟩) [] above top
  exact ⟨h.chain, fun past s _ => h.fits past s fun o ho => by cases ho⟩

end Engine

end Runbook
