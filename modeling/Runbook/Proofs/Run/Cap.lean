import Runbook.Proofs.Run.Bound
import Runbook.Run.Script

/-!
# The cap only cuts runs short

Under a cap on loops a run does what it does under a wider cap, or under none, up to the point where it
is stopped:

* `RunState.Unlimited`: no loop has gone past its cap so far;
* `Run.CutAt`, `Run.Cuts`: two actions do the same, unless the first one is stopped at its cap, or the
  second one runs out of fuel;
* `loop_cuts`, `runStep_cuts`, `runBlock_cuts`: loops, steps and blocks under two caps;
* `CutShort`, **`Executor.runWorkflow_cutShort`**: what this says of whole runs.
-/

namespace Runbook

variable {σ α β : Type}

/-! ## 1. Actions under two caps -/

/-- No loop has gone past its cap so far. -/
def RunState.Unlimited (s : RunState σ) : Prop := ∀ entry ∈ s.trace, entry.isLimit = false

theorem RunState.Unlimited.recorded {s : RunState σ} (h : s.Unlimited) (top : Bool)
    {entry : StepResult} (he : entry.isLimit = false) : (s.recorded top entry).Unlimited :=
  List.forall_mem_append.mpr ⟨h, List.forall_mem_singleton.mpr he⟩

namespace Run

/-- An action keeps what a run has behind it, and at most adds to it. -/
def Growing (m : Run σ α) : Prop := ∀ s : RunState σ, s.Grows (m s).2

theorem Growing.bind {m : Run σ α} {f : α → Run σ β} (hm : Growing m) (hf : ∀ a, Growing (f a)) :
    Growing (m >>= f) := by
  intro s
  have hg := hm s
  rw [bind_apply]
  rcases hr : m s with ⟨r, s'⟩
  rw [hr] at hg
  cases r with
  | ok a => exact hg.trans (hf a s')
  | error signal => exact hg

theorem Growing.ite {c : Prop} [Decidable c] {a b : Run σ α} (ha : Growing a) (hb : Growing b) :
    Growing (if c then a else b) := by
  by_cases hc : c
  · rw [if_pos hc]
    exact ha
  · rw [if_neg hc]
    exact hb

theorem leftLoop_state (m : Run σ Unit) (s : RunState σ) : (Run.leftLoop m s).2 = (m s).2 := by
  unfold Run.leftLoop
  rcases m s with ⟨r, s'⟩
  rcases r with signal | u
  · cases signal <;> rfl
  · rfl

theorem Growing.leftLoop {m : Run σ Unit} (h : Growing m) : Growing (Run.leftLoop m) := by
  intro s
  rw [leftLoop_state]
  exact h s

/-- **How an action comes out beside one under a wider cap**: the same, with no loop past its cap; or it
was stopped at the cap of a loop, and what was there before that is part of what the other one has; or
the other one has run out of fuel. -/
inductive CutAt : (p p' : Except Signal α × RunState σ) → Prop
  | same {p : Except Signal α × RunState σ} (hu : p.2.Unlimited) : CutAt p p
  | cut {s : RunState σ} {p' : Except Signal α × RunState σ} {path name : String} {cap : Int}
      (hu : s.Unlimited) (hg : s.Grows p'.2) :
      CutAt (.error (.halted path 1), s.recorded false ⟨path, .error (.loopLimit name cap)⟩) p'
  | unfinished {p p' : Except Signal α × RunState σ} (h : p'.1 = .error .unfinished) : CutAt p p'

/-- Two actions of which the first one is at most cut short, and the second one only adds to the state. -/
structure Cuts (m m' : Run σ α) : Prop where
  grows : Growing m'
  cutAt : ∀ s : RunState σ, s.Unlimited → CutAt (m s) (m' s)

namespace Cuts

/-- An action that has nothing to do with loops. -/
theorem refl {m : Run σ α}
    (h : ∀ s : RunState σ, s.Grows (m s).2 ∧ (s.Unlimited → (m s).2.Unlimited)) : Cuts m m :=
  ⟨fun s => (h s).1, fun s hs => .same ((h s).2 hs)⟩

theorem pure (a : α) : Cuts (Pure.pure a : Run σ α) (Pure.pure a) := refl fun s => ⟨.refl s, id⟩

theorem bind {m m' : Run σ α} {f f' : α → Run σ β} (hm : Cuts m m')
    (hf : ∀ a, Cuts (f a) (f' a)) : Cuts (m >>= f) (m' >>= f') := by
  constructor
  · exact hm.grows.bind fun a => (hf a).grows
  · intro s hs
    have hc := hm.cutAt s hs
    rw [bind_apply, bind_apply]
    rcases hp : m s with ⟨r, s₁⟩
    rcases hp' : m' s with ⟨r', s₁'⟩
    rw [hp, hp'] at hc
    cases hc with
    | same hu =>
      cases r with
      | ok a => exact (hf a).cutAt s₁ hu
      | error signal => exact .same hu
    | cut hu hg =>
      -- what comes behind the wider action only adds to what it left
      refine .cut hu ?_
      cases r' with
      | ok a => exact hg.trans ((hf a).grows s₁')
      | error signal => exact hg
    | unfinished h =>
      have hr' : r' = .error .unfinished := h
      rw [hr']
      exact .unfinished rfl

/-- Actions that look at the state first are cut short if they are so for every state. -/
theorem look {f f' : RunState σ → Run σ α} (h : ∀ s, Cuts (f s) (f' s)) :
    Cuts (state >>= f) (state >>= f') :=
  ⟨fun s => (h s).grows s, fun s hs => (h s).cutAt s hs⟩

theorem ite {c : Prop} [Decidable c] {a a' b b' : Run σ α} (ha : Cuts a a') (hb : Cuts b b') :
    Cuts (if c then a else b) (if c then a' else b') := by
  by_cases hc : c
  · rw [if_pos hc, if_pos hc]
    exact ha
  · rw [if_neg hc, if_neg hc]
    exact hb

theorem leftLoop {m m' : Run σ Unit} (h : Cuts m m') :
    Cuts (Run.leftLoop m) (Run.leftLoop m') := by
  constructor
  · exact h.grows.leftLoop
  · intro s hs
    have hc := h.cutAt s hs
    have hstate := leftLoop_state m' s
    unfold Run.leftLoop at hstate ⊢
    rcases hp : m s with ⟨r, s₁⟩
    rcases hp' : m' s with ⟨r', s₁'⟩
    rw [hp, hp'] at hc
    rw [hp'] at hstate
    cases hc with
    | same hu =>
      refine .same ?_
      rw [hstate]
      exact hu
    | cut hu hg =>
      refine .cut hu ?_
      rw [hstate]
      exact hg
    | unfinished h =>
      have hr' : r' = .error .unfinished := h
      rw [hr']
      exact .unfinished rfl

end Cuts

end Run

namespace Engine

/-! ## 2. Single actions -/

theorem gate_cuts (e : Engine σ) (wider : Option Int) (kind : StepKind) (h : StepHead)
    (path : String) (top : Bool) :
    Run.Cuts (e.gate kind h path top) (Engine.gate { e with cap := wider } kind h path top) := by
  have heq : Engine.gate { e with cap := wider } kind h path top = e.gate kind h path top := by
    unfold gate
    rfl
  rw [heq]
  refine .refl fun s => ?_
  cases ha : e.asks h with
  | false =>
    rw [gate_of_not_asks ha]
    exact ⟨.refl s, id⟩
  | true =>
    rw [gate_of_asks ha]
    obtain ⟨r, lines, world, hq, -, -⟩ := Run.approve_cases e.world (question kind h) s
    rw [hq]
    have hg : s.Grows (s.told (.approval (question kind h) :: lines) world) := .told s _ _
    rcases r with signal | yes
    · exact ⟨hg, id⟩
    · cases yes with
      | true => exact ⟨hg, id⟩
      | false =>
        have hu : s.Unlimited → (s.told (.approval (question kind h) :: lines) world).Unlimited := id
        exact ⟨hg.trans (.recorded _ _ _), fun hs => (hu hs).recorded top rfl⟩

theorem runLeaf_cuts (e : Engine σ) (wider : Option Int) (isAuth : Bool) (h : StepHead)
    (path : String) (top : Bool) :
    Run.Cuts (e.runLeaf isAuth h path top)
      (Engine.runLeaf { e with cap := wider } isAuth h path top) := by
  have heq : Engine.runLeaf { e with cap := wider } isAuth h path top =
      e.runLeaf isAuth h path top := by
    unfold runLeaf execute
    rfl
  rw [heq]
  refine .refl fun s => ?_
  rcases runLeaf_cases e isAuth h path top s with
    ⟨fault, world, hx⟩ | ⟨entry, r, world, more, world', -, hx, hl, -, -⟩
  · rw [hx]
    exact ⟨.told s _ _, id⟩
  · have hentry : entry.isLimit = false := isLimit_of_execute (by rw [hx])
    rw [hl]
    refine ⟨(RunState.Grows.executed s _ _ _ _).trans (.told _ _ _), fun hs => ?_⟩
    unfold RunState.Unlimited
    rw [RunState.told_trace, RunState.executed_trace]
    exact List.forall_mem_append.mpr ⟨hs, List.forall_mem_singleton.mpr hentry⟩

theorem evaluate_cuts (e : Engine σ) (wider : Option Int) (c : Condition) :
    Run.Cuts (e.evaluate c) (Engine.evaluate { e with cap := wider } c) := by
  have heq : Engine.evaluate { e with cap := wider } c = e.evaluate c := by
    simp only [evaluate, decide]
  rw [heq]
  refine .refl fun s => ?_
  obtain ⟨world, ⟨holds, hv⟩ | ⟨signal, hv, -⟩⟩ := evaluate_cases e c s
  · rw [hv]
    refine ⟨(RunState.Grows.told s _ _).trans (.captured _ _ _), fun hs => ?_⟩
    unfold RunState.Unlimited
    rw [RunState.captured_trace]
    exact hs
  · rw [hv]
    exact ⟨.told s _ _, id⟩

theorem act_cuts (a : Option Action) : Run.Cuts (act a : Run σ Unit) (act a) := by
  refine .refl fun s => ?_
  rcases a with _ | ⟨kind, code⟩
  · exact ⟨.refl s, id⟩
  · cases kind <;> exact ⟨.refl s, id⟩

/-! ## 3. Loops -/

theorem loop_grows (e : Engine σ) (name path : String) {condition : Run σ Bool}
    {body : Nat → Run σ Unit} (hc : Run.Growing condition) (hb : ∀ k, Run.Growing (body k))
    (rounds done : Nat) : Run.Growing (e.loop name path condition body rounds done) := by
  induction rounds generalizing done with
  | zero => exact .refl
  | succ rounds ih =>
    unfold loop
    refine .bind hc fun holds => .ite ?_ .refl
    cases e.pastCap (done + 1) with
    | some cap => exact fun s => .recorded s _ _
    | none => exact .bind (.leftLoop (hb (done + 1))) fun left => .ite .refl (ih (done + 1))

/-- Where a loop stops at its cap, it is cut short beside whatever goes on. -/
theorem limit_cuts {m : Run σ Unit} (hg : Run.Growing m) (path name : String) (cap : Int) :
    Run.Cuts (Run.record false ⟨path, .error (.loopLimit name cap)⟩ >>= fun _ =>
      Run.stop (.halted path 1)) m :=
  ⟨hg, fun s hs => .cut hs (hg s)⟩

/-- **A loop under a cap is a loop under a wider one, cut short**: by induction on the rounds that are
left, as many as the cap allows and one more. -/
theorem loop_cuts {e : Engine σ} {n : Int} {wider : Option Int} (hcap : e.cap = some n)
    (hw : ∀ m ∈ wider, n < m) (name path : String) {condition condition' : Run σ Bool}
    {body body' : Nat → Run σ Unit} (hc : Run.Cuts condition condition')
    (hb : ∀ k, Run.Cuts (body k) (body' k)) (rounds rounds' done : Nat)
    (hr : rounds + done = n.toNat + 1) (hd : done ≤ n.toNat) :
    Run.Cuts (e.loop name path condition body rounds done)
      (Engine.loop { e with cap := wider } name path condition' body' rounds' done) := by
  induction rounds generalizing rounds' done with
  | zero => omega
  | succ rounds ih =>
    cases rounds' with
    | zero => exact ⟨.refl, fun s _ => .unfinished rfl⟩
    | succ rounds' =>
      unfold loop
      refine .bind hc fun holds => .ite ?_ (.pure ())
      have hgrow : Run.Growing (do
          if ← Run.leftLoop (body' (done + 1)) then return ()
          else Engine.loop { e with cap := wider } name path condition' body' rounds' (done + 1)) :=
        .bind (.leftLoop (hb _).grows) fun left => .ite .refl
          (loop_grows _ _ _ hc.grows (fun k => (hb k).grows) _ _)
      cases hp : e.pastCap (done + 1) with
      | some cap =>
        refine limit_cuts ?_ path name cap
        cases Engine.pastCap { e with cap := wider } (done + 1) with
        | some cap => exact fun s => .recorded s _ _
        | none => exact hgrow
      | none =>
        -- an iteration that the cap allows is allowed by the wider one
        have hle := (pastCap_eq_none hcap).mp hp
        have hp' : Engine.pastCap { e with cap := wider } (done + 1) = none := by
          unfold pastCap
          refine Option.filter_eq_none_iff.mpr fun m hm => ?_
          have hlt := hw m hm
          simp only [decide_eq_true_eq, Int.not_lt]
          omega
        rw [hp']
        exact .bind (.leftLoop (hb (done + 1))) fun left => .ite (.pure ())
          (ih rounds' (done + 1) (by omega) (by omega))

/-! ## 4. Steps -/

/-- A step under a cap is a step under a wider one, cut short, wherever it starts. -/
def StepCuts (e : Engine σ) (wider : Option Int) (s : Step) : Prop :=
  ∀ above top, Run.Cuts (e.runStep above top s)
    (Engine.runStep { e with cap := wider } above top s)

theorem runBlock_cuts_of {e : Engine σ} {wider : Option Int} {block : List Step}
    (h : ∀ s ∈ block, e.StepCuts wider s) (above : String) (top : Bool) :
    Run.Cuts (e.runBlock above top block)
      (Engine.runBlock { e with cap := wider } above top block) := by
  induction block with
  | nil =>
    unfold runBlock
    exact .pure ()
  | cons s rest ih =>
    unfold runBlock
    exact .bind (h s List.mem_cons_self above top) fun _ =>
      ih fun t ht => h t (List.mem_cons_of_mem _ ht)

theorem runCases_cuts_of {e : Engine σ} {wider : Option Int}
    {cases : List (String × List Step)} (h : ∀ entry ∈ cases, ∀ s ∈ entry.2, e.StepCuts wider s)
    (path : String) (context : Context) (value : String) :
    Run.Cuts (e.runCases path context value cases)
      (Engine.runCases { e with cap := wider } path context value cases) := by
  induction cases with
  | nil =>
    unfold runCases
    exact .pure false
  | cons entry rest ih =>
    obtain ⟨v, block⟩ := entry
    unfold runCases
    refine .ite ?_ (ih fun b hb => h b (List.mem_cons_of_mem _ hb))
    exact .bind (runBlock_cuts_of (h (v, block) List.mem_cons_self) _ _) fun _ => .pure true

/-- **A step under a cap is the step under a wider one, cut short.** -/
theorem runStep_cuts {e : Engine σ} {n : Int} {wider : Option Int} (hcap : e.cap = some n)
    (hw : ∀ m ∈ wider, n < m) (s : Step) : e.StepCuts wider s := by
  induction s using Step.childInduction with
  | h s ih =>
    intro above top
    cases s with
    | command h =>
      unfold runStep
      exact .look fun st => .bind (gate_cuts e wider _ _ _ _) fun _ => runLeaf_cuts e wider _ _ _ _
    | auth h =>
      unfold runStep
      exact .look fun st => .bind (gate_cuts e wider _ _ _ _) fun _ => runLeaf_cuts e wider _ _ _ _
    | conditional h c t el a =>
      have ht := runBlock_cuts_of fun s hs => ih s (Step.mem_children_then hs)
      cases el with
      | none =>
        unfold runStep
        refine .look fun st => .bind (gate_cuts e wider _ _ _ _) fun _ => ?_
        refine .bind (evaluate_cuts e wider c) fun holds => .ite ?_ (act_cuts a)
        exact .bind (ht _ _) fun _ => act_cuts a
      | some el =>
        have hel := runBlock_cuts_of fun s hs => ih s (Step.mem_children_else hs)
        unfold runStep
        refine .look fun st => .bind (gate_cuts e wider _ _ _ _) fun _ => ?_
        refine .bind (evaluate_cuts e wider c) fun holds => .ite ?_ ?_
        · exact .bind (ht _ _) fun _ => act_cuts a
        · exact .bind (hel _ _) fun _ => act_cuts a
    | branch h v cs d =>
      have hcs := runCases_cuts_of fun entry he s hs => ih s (Step.mem_children_case he hs)
      cases d with
      | none =>
        unfold runStep
        refine .look fun st => .bind (gate_cuts e wider _ _ _ _) fun _ => ?_
        exact .bind (hcs _ _ _) fun _ => .pure ()
      | some d =>
        have hd := runBlock_cuts_of fun s hs => ih s (Step.mem_children_default hs)
        unfold runStep
        refine .look fun st => .bind (gate_cuts e wider _ _ _ _) fun _ => ?_
        exact .bind (hcs _ _ _) fun found => .ite (.pure ()) (hd _ _)
    | loop h c b =>
      have hb := runBlock_cuts_of fun s hs => ih s (Step.mem_children_body hs)
      have hr : e.rounds + 0 = n.toNat + 1 := by
        unfold rounds
        rw [hcap]
      have hl := fun path => loop_cuts hcap hw h.name path (evaluate_cuts e wider c)
        (fun k => hb (blockPath path (iterationLabel k)) false) e.rounds
        (Engine.rounds { e with cap := wider }) 0 hr (Nat.zero_le _)
      unfold runStep
      exact .look fun st => .bind (gate_cuts e wider _ _ _ _) fun _ => hl _

theorem runBlock_cuts {e : Engine σ} {n : Int} {wider : Option Int} (hcap : e.cap = some n)
    (hw : ∀ m ∈ wider, n < m) (above : String) (top : Bool) (block : List Step) :
    Run.Cuts (e.runBlock above top block)
      (Engine.runBlock { e with cap := wider } above top block) :=
  runBlock_cuts_of (fun s _ => runStep_cuts hcap hw s) above top

end Engine

/-! ## 5. Whole runs -/

/-- Whether an event is more than a note: a command, a test, a question, or a line that is asked for. -/
def Event.isExchange : Event → Bool
  | .warning _ => false
  | _ => true

/-- **A run is cut short beside another one.**

* `same`: if no loop went past its cap, the two runs are the same, from their outcome to their state;
* `cut`: if one did, all commands, tests, questions and lines are the first ones of the other run, and
  so are all entries but the last one, which says that the loop went past its cap. -/
structure CutShort (p p' : RunOutcome × RunState σ) : Prop where
  same : (∀ entry ∈ p.2.trace, entry.isLimit = false) → p = p'
  cut : (∃ entry ∈ p.2.trace, entry.isLimit = true) →
    p.2.events.filter Event.isExchange <+: p'.2.events.filter Event.isExchange ∧
    ∃ earlier path name cap,
      p.2.trace = earlier ++ [⟨path, .error (.loopLimit name cap)⟩] ∧ earlier <+: p'.2.trace

theorem CutShort.refl {p : RunOutcome × RunState σ} (h : p.2.Unlimited) : CutShort p p := by
  refine ⟨fun _ => rfl, ?_⟩
  rintro ⟨entry, he, hl⟩
  rw [h entry he] at hl
  cases hl

namespace Executor

theorem closed_grows (w : Workflow) (r : Except Signal Unit) (s : RunState σ) :
    s.Grows (closed w r s) := by
  unfold closed
  split
  · exact .told s _ _
  · exact .refl s

theorem opening_cap (x : Executor σ) (cap : Option Int) (w : Workflow) (r : RunRequest)
    (world : σ) : Executor.opening { x with cap := cap } w r world = x.opening w r world := by
  simp only [opening, approveWorkflow]

/-- What ends with its steps cut short is cut short as a whole. -/
theorem closed_cutShort {w : Workflow} {p p' : Except Signal Unit × RunState σ}
    (h : Run.CutAt p p') (hend : outcomeOf w p'.2 p'.1 ≠ .unfinished) :
    CutShort (outcomeOf w p.2 p.1, closed w p.1 p.2)
      (outcomeOf w p'.2 p'.1, closed w p'.1 p'.2) := by
  cases h with
  | same hu =>
    refine .refl ?_
    unfold RunState.Unlimited
    rw [(closed_kept w p.1 p.2).1]
    exact hu
  | @cut s _ path name cap hu hg =>
    have hg' : s.Grows (closed w p'.1 p'.2) := hg.trans (closed_grows w p'.1 p'.2)
    refine ⟨fun hu' => ?_, fun _ => ⟨?_, s.trace, path, name, cap, rfl, hg'.trace⟩⟩
    · have hl := hu' ⟨path, .error (.loopLimit name cap)⟩ (List.mem_append_right _ (by simp))
      cases hl
    · -- the note that the run was stopped is all that the shorter log has more
      show (s.events ++ [_]).filter Event.isExchange <+: _
      rw [List.filter_append]
      show s.events.filter Event.isExchange ++ [] <+: _
      rw [List.append_nil]
      exact hg'.events.filter _
  | unfinished h =>
    rw [h] at hend
    exact absurd rfl hend

/-- The steps of a workflow under a cap are those under a wider one, cut short. -/
theorem runSteps_cutShort (x : Executor σ) {n : Int} {wider : Option Int}
    (hw : ∀ m ∈ wider, n < m) (w : Workflow) (approved : Bool) {s : RunState σ}
    (hs : s.Unlimited)
    (hend : (Executor.runSteps { x with cap := wider } w approved s).1 ≠ .unfinished) :
    CutShort (Executor.runSteps { x with cap := some n } w approved s)
      (Executor.runSteps { x with cap := wider } w approved s) := by
  let e : Engine σ := Executor.engine { x with cap := some n } approved
  have hc := (Engine.runBlock_cuts (e := e) rfl hw "" true w.steps).cutAt s hs
  rw [runSteps_apply] at hend ⊢
  rw [runSteps_apply]
  exact closed_cutShort hc hend

/-- **A run under a cap is the run under a wider one, or under none, cut short.** -/
theorem runWorkflow_cutShort (x : Executor σ) {n : Int} {wider : Option Int}
    (hw : ∀ m ∈ wider, n < m) (w : Workflow) (r : RunRequest) (world : σ)
    (hend : wider = none →
      (Executor.runWorkflow { x with cap := wider } w r world).1 ≠ .unfinished) :
    CutShort (Executor.runWorkflow { x with cap := some n } w r world)
      (Executor.runWorkflow { x with cap := wider } w r world) := by
  have hends : (Executor.runWorkflow { x with cap := wider } w r world).1 ≠ .unfinished := by
    cases wider with
    | none => exact hend rfl
    | some m => exact ends_of_cap rfl
  rw [runWorkflow_eq, opening_cap x wider] at hends
  rw [runWorkflow_eq, runWorkflow_eq, opening_cap x (some n), opening_cap x wider]
  have hopen := x.opening_opens w r world
  cases hop : x.opening w r world with
  | begun approved s =>
    rw [hop] at hends hopen
    cases hopen with
    | begun _ _ h =>
      refine runSteps_cutShort x hw w approved ?_ hends
      unfold RunState.Unlimited
      rw [h.trace]
      exact List.forall_mem_nil _
  | declined s =>
    exact CutShort.refl (p := declined w s) (List.forall_mem_singleton.mpr rfl)
  | stopped signal s =>
    rw [hop] at hopen
    have ht : s.trace = [] := by
      cases hopen with
      | unfilled _ _ _ _ hb => exact hb.trace
      | unanswered _ _ _ _ _ _ _ _ hb => exact hb.trace
    refine .refl ?_
    unfold RunState.Unlimited
    rw [ht]
    exact List.forall_mem_nil _

/-- A loop over a command. -/
def polling : Workflow :=
  ⟨"poll", "", [.loop ⟨"Poll", "", "", false, false⟩ ⟨"[ -f lock ]", none⟩
    [.command ⟨"Wait", "", "sleep 1", false, false⟩]], [], [], [], 0, none, 0⟩

/-- Where the condition holds three times, the cap 1 cuts the loop short beside the loop without cap. -/
theorem polling_cutShort :
    let x : Executor Script := ⟨Script.world true true, ⟨1000, 3, [], [], []⟩, none, 5, false⟩
    let r : RunRequest := ⟨none, [], some [], false⟩
    let world : Script :=
      ⟨[], [("*", [.decided true, .decided true, .decided true, .decided false])], [], []⟩
    (Executor.runWorkflow { x with cap := none } polling r world).1 ≠ .unfinished ∧
      (∃ entry ∈ (Executor.runWorkflow { x with cap := some 1 } polling r world).2.trace,
        entry.isLimit = true) ∧
      CutShort (Executor.runWorkflow { x with cap := some 1 } polling r world)
        (Executor.runWorkflow { x with cap := none } polling r world) := by
  intro x r world
  have hend : (Executor.runWorkflow { x with cap := none } polling r world).1 ≠ .unfinished := by
    have hreport : (Executor.runWorkflow { x with cap := none } polling r world).1.report?.isSome =
        true := by decide +kernel
    intro h
    rw [h] at hreport
    cases hreport
  have hwider : ∀ m ∈ (none : Option Int), 1 < m := by simp
  refine ⟨hend, ?_, runWorkflow_cutShort x hwider polling r world fun _ => hend⟩
  exact List.any_eq_true.mp (by decide +kernel)

end Executor

end Runbook
