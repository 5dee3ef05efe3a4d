import Runbook.Proofs.Run.Execution
import Runbook.Proofs.Run.Resolution
import Runbook.Proofs.ShellFunction.ConvertedSteps

/-!
# The run of a converted shell function

A run of converted steps does what the direct interpretation of the statements does. The proof goes along
the rules of runs, with an interpretation beside the run:

* `actOf?`, `bare`: what a run and an interpretation have in common;
* `spawning_bare`, `evaluating_bare`: single actions of a run as steps of an interpretation;
* `Interprets`, `Stands`, `Mirrored`: an activity of a run and the statements it interprets;
* `mirrored`: by the rules of runs every activity is mirrored;
* **`runWorkflow_stepsOf`**: whole runs.
-/

namespace Runbook.ShellFunction

open Template

variable {σ : Type}

/-! ## 1. What a run shares with an interpretation -/

/-- What a turn of a run does, if it does what an interpretation does. -/
def actOf? (t : Turn σ) : Option Act :=
  match t.deed with
  | .start => some (.spawned t.here.head.command)
  | .judge c => some (.evaluated (resolve t.before.context c.expression))
  | .reach => none
  | .act _ => none
  | .limit _ => none
  | .tire => none

/-- The state of a run without what only a run keeps. -/
def bare (s : RunState σ) : RunState σ := { s with trace := [], results := [] }

/-- A world in which every command comes to its end with exit code zero. -/
def Succeeds (w : World σ) : Prop :=
  ∀ command world, ∃ result, (w.spawn command world).1 = .finished result ∧ result.returnCode = 0

theorem decide_bare (e : Engine σ) (text : String) (s : RunState σ) :
    e.decide text (bare s) = ((e.decide text s).1, bare (e.decide text s).2) := by
  unfold Engine.decide
  cases Expression.exitCodeCheck? text with
  | none =>
    dsimp only
    rw [Run.test_apply, Run.test_apply]
    rfl
  | some check =>
    obtain ⟨comparison, expected⟩ := check
    dsimp only
    rw [Run.state_bind, Run.state_bind, show (bare s).last = s.last from rfl]
    cases s.last with
    | none => rfl
    | some result => cases Expression.isOversized text <;> rfl

section Turns

variable {e : Engine σ}

/-- A command that succeeds leaves its result, and the run goes on. -/
theorem runLeaf_of_finished {h : StepHead} {path : String} {top : Bool} {s : RunState σ}
    {result : ProcessResult} {world : σ}
    (hf : e.world.spawn h.command s.world = (.finished result, world))
    (hz : result.returnCode = 0) :
    e.runLeaf false h path top s =
      (.ok (), s.executed h.command top ⟨path, .ok result⟩ world) := by
  have hx : e.execute h path top s =
      (.ok ⟨path, .ok result⟩, s.executed h.command top ⟨path, .ok result⟩ world) := by
    unfold Engine.execute
    rw [Run.bind_apply, Run.spawn_apply, hf]
    rfl
  have hok : StepResult.ok ⟨path, .ok result⟩ = true := by
    simp [StepResult.ok, ProcessResult.success, hz]
  unfold Engine.runLeaf
  rw [Run.bind_apply, hx]
  dsimp only
  rw [hok]
  rfl

/-- **A command that succeeds is one step of an interpretation.** -/
theorem spawning_bare (hw : Succeeds e.world) {h : StepHead} {path : String} {top : Bool}
    {s s' : RunState σ} {r : Except Signal Unit} (hr : e.runLeaf false h path top s = (r, s'))
    (todo rest : List Statement) (acts : List Act) :
    r = .ok () ∧ s'.context = s.context ∧
      Interpretation.spawning e h.command rest ⟨todo, acts, none, bare s⟩ =
        ⟨rest, acts ++ [.spawned h.command], none, bare s'⟩ := by
  obtain ⟨result, hf, hz⟩ := hw h.command s.world
  have hspawn : e.world.spawn h.command s.world =
      (.finished result, (e.world.spawn h.command s.world).2) := by rw [← hf]
  rw [runLeaf_of_finished hspawn hz] at hr
  cases hr
  refine ⟨rfl, RunState.executed_context .., ?_⟩
  unfold Interpretation.spawning
  rw [show (bare s).world = s.world from rfl, hspawn]
  rfl

/-- A condition without a variable for its outcome changes no value. -/
theorem evaluate_context {condition : String} {s s' : RunState σ} {r : Except Signal Bool}
    (hj : e.evaluate ⟨condition, none⟩ s = (r, s')) : s'.context = s.context := by
  obtain ⟨world, ⟨holds, heq⟩ | ⟨signal, heq, -⟩⟩ := Engine.evaluate_cases e ⟨condition, none⟩ s
  · obtain ⟨-, rfl⟩ := Prod.mk.inj (heq.symm.trans hj)
    simp [RunState.captured]
  · obtain ⟨-, rfl⟩ := Prod.mk.inj (heq.symm.trans hj)
    exact RunState.told_context ..

/-- **A condition without placeholders and without a variable for its outcome is one step of an
interpretation.** -/
theorem evaluating_bare {condition : String} (hc : placeholderNames condition = [])
    {s s' : RunState σ} {r : Except Signal Bool} (hj : e.evaluate ⟨condition, none⟩ s = (r, s'))
    (todo yes no : List Statement) (acts : List Act) :
    Interpretation.evaluating e condition yes no ⟨todo, acts, none, bare s⟩ = match r with
      | .ok holds => ⟨if holds then yes else no, acts ++ [.evaluated condition], none, bare s'⟩
      | .error signal => ⟨todo, acts ++ [.evaluated condition], some signal, bare s'⟩ := by
  have htext : Engine.judgedText ⟨condition, none⟩ s.context =
      Expression.substituteVariables s.context condition := by
    unfold Engine.judgedText
    rw [resolve_of_closed s.context hc]
  rw [Engine.evaluate_apply, htext] at hj
  unfold Interpretation.evaluating
  dsimp only
  rw [decide_bare, show (bare s).context = s.context from rfl]
  obtain ⟨r', world, hd, -⟩ :=
    Engine.decide_cases e (Expression.substituteVariables s.context condition) s
  rw [hd] at hj ⊢
  cases r' with
  | ok holds =>
    cases hj
    rfl
  | error signal =>
    cases hj
    rfl

/-- A condition without outcome fails with an error of its own, or with a fault. -/
theorem signal_of_evaluate {c : Condition} {s s' : RunState σ} {signal : Signal}
    (hj : e.evaluate c s = (.error signal, s')) :
    signal.isRaised = true ∨ ∃ error, signal = .undecided error := by
  obtain ⟨world, ⟨holds, heq⟩ | ⟨signal, heq, hs⟩⟩ := Engine.evaluate_cases e c s
  · cases (Prod.mk.inj (heq.symm.trans hj)).1
  · cases (Prod.mk.inj (heq.symm.trans hj)).1
    exact hs

end Turns

/-! ## 2. Activities of a run and what they interpret -/

/-- What an activity of a run interprets, where names have the values of a context. -/
inductive Interprets (context : Context) : Activity σ → List Statement → Prop
  | step {above : String} {top : Bool} {x : Step} (s : Statement) (hx : x = stepOf s) :
      Interprets context (.step above top x) [s]
  | block {above : String} {top : Bool} {steps : List Step} (block : List Statement)
      (hb : steps = stepsOf block) : Interprets context (.block above top steps) block
  | inside {o : Occurrence σ} (s : Statement) (ho : o.step = stepOf s)
      (hc : o.state.context = context) : Interprets context (.inside o) [s]
  | rounds {o : Occurrence σ} {c : Condition} {steps : List Step} {left done : Nat}
      (condition : String) (body : List Statement) (hc : c = ⟨condition, none⟩)
      (hb : steps = stepsOf body) :
      Interprets context (.rounds o c steps left done) [.whileLoop condition body]

/-- How many steps an interpretation has taken at least when an activity is left for lack of fuel. -/
def allowance (e : Engine σ) : Activity σ → Nat
  | .step .. => e.rounds
  | .block .. => e.rounds
  | .inside _ => e.rounds
  | .rounds _ _ _ left _ => min left e.rounds

/-- **How an interpretation stands when an activity has come out**, after `n` steps: it is through with
what the activity interprets; or it has failed with the same signal; or there is something left to be
interpreted and it has taken as many steps as are allowed. -/
inductive Stands (allowed n : Nat) (rest : List Statement) (acts : List Act) (s : RunState σ) :
    Except Signal Unit → Interpretation σ → Prop
  | through : Stands allowed n rest acts s (.ok ()) ⟨rest, acts, none, bare s⟩
  | failed (todo : List Statement) {signal : Signal}
      (hs : signal.isRaised = true ∨ ∃ error, signal = .undecided error) :
      Stands allowed n rest acts s (.error signal) ⟨todo, acts, some signal, bare s⟩
  | tired (todo : List Statement) (ht : todo ≠ []) (hn : allowed ≤ n) :
      Stands allowed n rest acts s (.error .unfinished) ⟨todo, acts, none, bare s⟩

/-- An interpretation that stands somewhere goes on standing there, seen from more steps. -/
theorem Stands.mono {allowed allowed' n n' : Nat} {rest : List Statement} {acts : List Act}
    {s : RunState σ} {r : Except Signal Unit} {p : Interpretation σ}
    (h : Stands allowed n rest acts s r p) (hn : allowed ≤ n → allowed' ≤ n') :
    Stands allowed' n' rest acts s r p := by
  cases h with
  | through => exact .through
  | failed todo hs => exact .failed todo hs
  | tired todo ht hle => exact .tired todo ht (hn hle)

/-- What has come to an early end stands there whatever was to follow. -/
theorem Stands.cut {allowed n : Nat} {rest rest' : List Statement} {acts : List Act}
    {s : RunState σ} {signal : Signal} {p : Interpretation σ}
    (h : Stands allowed n rest acts s (.error signal) p) :
    Stands allowed n rest' acts s (.error signal) p := by
  cases h with
  | failed todo hs => exact .failed todo hs
  | tired todo ht hle => exact .tired todo ht hle

/-- From a state of a run, with some statements in front of whatever follows, an interpretation comes to
stand as the run does with the turns. -/
def Mirrored (e : Engine σ) (allowed : Nat) (todo : List Statement) (s : RunState σ)
    (ts : List (Turn σ)) (r : Except Signal Unit) (s' : RunState σ) : Prop :=
  ∀ rest acts, ∃ n p, (Interpretation.advance e)^[n] ⟨todo ++ rest, acts, none, bare s⟩ = p ∧
    Stands allowed n rest (acts ++ ts.filterMap actOf?) s' r p

namespace Mirrored

variable {e : Engine σ} {allowed : Nat} {s s₁ s' : RunState σ} {ts us : List (Turn σ)}
  {todo more : List Statement} {r : Except Signal Unit}

theorem nothing : Mirrored e allowed [] s [] (.ok ()) s :=
  fun rest acts => ⟨0, _, rfl, by simpa using Stands.through⟩

/-- What has no fuel left has taken no step. -/
theorem tired {t : Turn σ} (ht : todo ≠ []) (hact : actOf? t = none) :
    Mirrored e 0 todo s [t] (.error .unfinished) s := by
  intro rest acts
  refine ⟨0, _, rfl, ?_⟩
  rw [List.filterMap_cons_none hact, List.filterMap_nil, List.append_nil]
  exact .tired _ (by simp [ht]) (Nat.zero_le _)

/-- Only the turns that do what an interpretation does count, and less may be allowed. -/
theorem congr {allowed' : Nat} (h : Mirrored e allowed todo s ts r s') (hle : allowed' ≤ allowed)
    (hts : us.filterMap actOf? = ts.filterMap actOf?) : Mirrored e allowed' todo s us r s' := by
  intro rest acts
  obtain ⟨n, p, hp, hst⟩ := h rest acts
  rw [hts]
  exact ⟨n, p, hp, hst.mono (Nat.le_trans hle)⟩

/-- One block of statements after another. -/
theorem andThen {k : Nat} (h : Mirrored e k todo s ts (.ok ()) s₁)
    (h' : Mirrored e allowed more s₁ us r s') :
    Mirrored e allowed (todo ++ more) s (ts ++ us) r s' := by
  intro rest acts
  obtain ⟨n, p, hp, hst⟩ := h (more ++ rest) acts
  obtain ⟨m, q, hq, hst'⟩ := h' rest (acts ++ ts.filterMap actOf?)
  cases hst with
  | through =>
    refine ⟨m + n, q, ?_, ?_⟩
    · rw [Function.iterate_add_apply, List.append_assoc, hp, hq]
    · rw [List.filterMap_append, ← List.append_assoc]
      exact hst'.mono fun hle => Nat.le_add_right_of_le hle

/-- Behind an early end no other statement has a turn. -/
theorem cut {signal : Signal} (h : Mirrored e allowed todo s ts (.error signal) s')
    (more : List Statement) : Mirrored e allowed (todo ++ more) s ts (.error signal) s' := by
  intro rest acts
  obtain ⟨n, p, hp, hst⟩ := h (more ++ rest) acts
  rw [List.append_assoc]
  exact ⟨n, p, hp, hst.cut⟩

/-- One step of an interpretation in front of others. -/
theorem after {new : List Act}
    (hadv : ∀ rest acts, Interpretation.advance e ⟨todo ++ rest, acts, none, bare s⟩ =
      ⟨more ++ rest, acts ++ new, none, bare s₁⟩)
    (h : Mirrored e allowed more s₁ ts r s')
    (hus : us.filterMap actOf? = new ++ ts.filterMap actOf?) :
    Mirrored e (allowed + 1) todo s us r s' := by
  intro rest acts
  obtain ⟨n, p, hp, hst⟩ := h rest (acts ++ new)
  refine ⟨n + 1, p, ?_, ?_⟩
  · rw [Function.iterate_succ_apply, hadv, hp]
  · rw [hus, ← List.append_assoc]
    exact hst.mono Nat.succ_le_succ

/-- One step with which an interpretation fails. -/
theorem failing {t : Turn σ} {act : Act} {signal : Signal} (hact : actOf? t = some act)
    (hs : signal.isRaised = true ∨ ∃ error, signal = .undecided error)
    (hadv : ∀ rest acts, Interpretation.advance e ⟨todo ++ rest, acts, none, bare s⟩ =
      ⟨todo ++ rest, acts ++ [act], some signal, bare s'⟩) :
    Mirrored e allowed todo s [t] (.error signal) s' := by
  intro rest acts
  refine ⟨1, _, rfl, ?_⟩
  rw [Function.iterate_one, hadv, List.filterMap_cons_some hact, List.filterMap_nil]
  exact .failed _ hs

/-- No interpretation leaves a loop that it is not in. -/
theorem not_broken : ¬ Mirrored e allowed todo s ts (.error .broken) s' := by
  intro h
  obtain ⟨n, p, -, hst⟩ := h [] []
  cases hst with
  | failed todo hs =>
    rcases hs with hs | ⟨error, hs⟩
    · cases hs
    · cases hs

end Mirrored

/-! ## 3. The rules of runs, mirrored -/

section Rules

variable {e : Engine σ} {around : List (Occurrence σ)} {act : Activity σ} {o : Occurrence σ}
  {s s₁ s' : RunState σ} {ts : List (Turn σ)} {r : Except Signal Unit} {condition : String}

/-- Nobody is asked about a converted step. -/
theorem perform_reach_stepOf {above : String} {top : Bool} {x : Step} {y : Statement}
    (hx : x = stepOf y) :
    e.perform ⟨above, top, x, s⟩ .reach s = (.ok (), s) := by
  have hasks : e.asks (Occurrence.head ⟨above, top, x, s⟩) = false := by
    rw [hx]
    simp [Engine.asks, Occurrence.head, StepHead.resolve_requireApproval, requireApproval_stepOf]
  rw [Engine.perform_reach, Engine.gate_of_not_asks hasks]

/-- A turn that judges a condition without placeholders evaluates it as it stands. -/
theorem actOf?_judge (hc : placeholderNames condition = []) :
    actOf? (⟨o, around, .judge ⟨condition, none⟩, s⟩ : Turn σ) = some (.evaluated condition) := by
  unfold actOf?
  dsimp only
  rw [resolve_of_closed _ hc]

/-- A condition that is judged in front of others is one step of an interpretation. -/
theorem Mirrored.judging {allowed k : Nat} {todo more : List Statement} {us : List (Turn σ)}
    (hc : placeholderNames condition = [])
    (hadv : ∀ rest acts, Interpretation.advance e ⟨todo ++ rest, acts, none, bare s⟩ =
      ⟨more ++ rest, acts ++ [.evaluated condition], none, bare s₁⟩)
    (h : Mirrored e allowed more s₁ ts r s') (hle : k ≤ allowed + 1)
    (hus : us.filterMap actOf? = ts.filterMap actOf?) :
    Mirrored e k todo s (⟨o, around, .judge ⟨condition, none⟩, s⟩ :: us) r s' := by
  refine Mirrored.congr (Mirrored.after hadv h ?_) hle rfl
  rw [List.filterMap_cons_some (actOf?_judge hc), hus]
  rfl

theorem advance_of_conditional (hc : placeholderNames condition = []) {holds : Bool}
    (hj : e.evaluate ⟨condition, none⟩ s = (.ok holds, s₁)) (thenBlock : List Statement)
    (elseBlock : Option (List Statement)) (rest : List Statement) (acts : List Act) :
    Interpretation.advance e
        ⟨[.conditional condition thenBlock elseBlock] ++ rest, acts, none, bare s⟩ =
      ⟨(if holds then thenBlock else elseBlock.getD []) ++ rest, acts ++ [.evaluated condition],
        none, bare s₁⟩ := by
  rw [List.singleton_append, Interpretation.advance_conditional, evaluating_bare hc hj _ _ _ acts]
  cases holds with
  | true => rfl
  | false => rfl

theorem advance_of_whileLoop (hc : placeholderNames condition = []) {holds : Bool}
    (hj : e.evaluate ⟨condition, none⟩ s = (.ok holds, s₁)) (body : List Statement)
    (rest : List Statement) (acts : List Act) :
    Interpretation.advance e ⟨[.whileLoop condition body] ++ rest, acts, none, bare s⟩ =
      ⟨(if holds then body ++ [.whileLoop condition body] else []) ++ rest,
        acts ++ [.evaluated condition], none, bare s₁⟩ := by
  rw [List.singleton_append, Interpretation.advance_whileLoop, evaluating_bare hc hj _ _ _ acts]
  cases holds with
  | true => simp
  | false => rfl

/-- **What a run does with an activity is what an interpretation does with its statements**, by the rules
of runs. -/
theorem mirrored (hcap : e.cap = none) (hw : Succeeds e.world)
    (h : e.Runs around act s ts r s') : ∀ todo, Interprets s.context act todo →
      Plain (textsOfBlock todo) →
      s'.context = s.context ∧ Mirrored e (allowance e act) todo s ts r s' := by
  induction h with
  | nil =>
    intro todo hi hp
    cases hi with
    | block _ hb =>
      cases todo with
      | nil => exact ⟨rfl, .nothing⟩
      | cons x rest => cases hb
  | cons first later ihx ihr =>
    intro todo hi hp
    cases hi with
    | block _ hb =>
      cases todo with
      | nil => cases hb
      | cons x rest =>
        cases hb
        obtain ⟨hpx, hpr⟩ := Plain.append.mp hp
        obtain ⟨hcx, hmx⟩ := ihx [x] (.step x rfl) (by simpa [textsOfBlock] using hpx)
        obtain ⟨hcr, hmr⟩ := ihr rest (.block rest rfl) hpr
        exact ⟨hcr.trans hcx, hmx.andThen hmr⟩
  | cut first ih =>
    intro todo hi hp
    cases hi with
    | block _ hb =>
      cases todo with
      | nil => cases hb
      | cons x rest =>
        cases hb
        obtain ⟨hpx, hpr⟩ := Plain.append.mp hp
        obtain ⟨hcx, hmx⟩ := ih [x] (.step x rfl) (by simpa [textsOfBlock] using hpx)
        exact ⟨hcx, hmx.cut rest⟩
  | barred h =>
    intro todo hi hp
    cases hi with
    | step x hx =>
      rw [perform_reach_stepOf hx] at h
      cases h
  | reached h inner ih =>
    intro todo hi hp
    cases hi with
    | step x hx =>
      rw [perform_reach_stepOf hx] at h
      cases h
      obtain ⟨hc, hm⟩ := ih [x] (.inside x hx rfl) hp
      exact ⟨hc, hm.congr (Nat.le_refl _) rfl⟩
  | @leaf around o s s' r hk h =>
    intro todo hi hp
    cases hi with
    | inside x ho hc =>
      rw [ho] at hk
      obtain ⟨hkind, hcommand, hadv⟩ := stepOf_leaf (e := e) hk (plain_singleton.mp hp)
      have hhead : o.head.command = (stepOf x).head.command := by
        show resolve o.state.context o.step.head.command = _
        rw [ho, resolve_of_closed _ hcommand]
      rw [Engine.perform_start, ho, hkind] at h
      have hstep := fun rest acts => spawning_bare hw h ([x] ++ rest) rest acts
      obtain ⟨rfl, hcontext, -⟩ := hstep [] []
      have hone : ∀ rest acts, Interpretation.advance e ⟨[x] ++ rest, acts, none, bare s⟩ =
          ⟨[] ++ rest, acts ++ [.spawned o.head.command], none, bare s'⟩ := by
        intro rest acts
        rw [List.singleton_append, hadv, ← hhead]
        exact (hstep rest acts).2.2
      exact ⟨hcontext, (Mirrored.after hone .nothing rfl).congr (Nat.le_succ _) rfl⟩
  | @unjudged around o s s' hd c t el a signal hs hj =>
    intro todo hi hp
    cases hi with
    | inside x ho hc =>
      obtain ⟨condition, thenBlock, elseBlock, rfl, rfl, rfl, -⟩ :=
        stepOf_conditional (ho.symm.trans hs)
      obtain ⟨hcond, -⟩ := plain_blockFor (plain_singleton.mp hp)
      exact ⟨evaluate_context hj, .failing (actOf?_judge hcond) (signal_of_evaluate hj)
        fun rest acts => (Interpretation.advance_conditional ..).trans
          (evaluating_bare hcond hj _ _ _ acts)⟩
  | @stopped around o s s₁ s' hd c t el a holds ts signal hs hj inner ih =>
    intro todo hi hp
    cases hi with
    | inside x ho hc =>
      obtain ⟨condition, thenBlock, elseBlock, rfl, rfl, rfl, hblock⟩ :=
        stepOf_conditional (ho.symm.trans hs)
      obtain ⟨hcond, hplain⟩ := plain_blockFor (plain_singleton.mp hp)
      obtain ⟨hcontext, hm⟩ := ih _ (.block _ (hblock holds)) (hplain holds)
      exact ⟨hcontext.trans (evaluate_context hj),
        hm.judging hcond (advance_of_conditional hcond hj _ _) (Nat.le_succ _) rfl⟩
  | @acted around o s s₁ s₂ s' hd c t el a holds ts r hs hj inner ha ih =>
    intro todo hi hp
    cases hi with
    | inside x ho hc =>
      obtain ⟨condition, thenBlock, elseBlock, rfl, rfl, rfl, hblock⟩ :=
        stepOf_conditional (ho.symm.trans hs)
      obtain ⟨hcond, hplain⟩ := plain_blockFor (plain_singleton.mp hp)
      obtain ⟨hcontext, hm⟩ := ih _ (.block _ (hblock holds)) (hplain holds)
      cases ha
      refine ⟨hcontext.trans (evaluate_context hj),
        hm.judging hcond (advance_of_conditional hcond hj _ _) (Nat.le_succ _) ?_⟩
      -- taking no action is no act of an interpretation
      rw [List.filterMap_append]
      exact List.append_nil _
  | @chosen around o s s' hd v cs d ts r hs inner ih =>
    intro todo hi hp
    cases hi with
    | inside x ho hc =>
      obtain ⟨arms, rfl, rfl, rfl⟩ := stepOf_branch (ho.symm.trans hs)
      have harms : Plain (textsOfArms arms) := plain_singleton.mp hp
      have hblock : (o.choice v (casesOf arms) (fallbackOf arms)).2 =
          stepsOf (chosen ((s.context.get? v).getD "") arms) := by
        rw [← hc]
        exact blockOfCase_eq _ _ harms
      obtain ⟨hcontext, hm⟩ := ih _ (.block _ hblock) (plain_chosen _ harms)
      refine ⟨hcontext, (Mirrored.after (fun rest acts => ?_) hm
        (List.nil_append _).symm).congr (Nat.le_succ _) rfl⟩
      rw [List.append_nil]
      rfl
  | @looped around o s s' hd c body ts r hs inner ih =>
    intro todo hi hp
    cases hi with
    | inside x ho hc =>
      obtain ⟨condition, block, rfl, rfl, rfl⟩ := stepOf_loop (ho.symm.trans hs)
      obtain ⟨hcontext, hm⟩ := ih _ (.rounds condition block rfl rfl) hp
      exact ⟨hcontext, hm.congr (by simp [allowance]) rfl⟩
  | tired =>
    intro todo hi hp
    cases hi with
    | rounds condition block hc hb =>
      exact ⟨rfl, (Mirrored.tired (by simp) rfl).congr (by simp [allowance]) rfl⟩
  | @undecided around o c body left done s s' signal hj =>
    intro todo hi hp
    cases hi with
    | rounds condition block hc hb =>
      subst hc
      obtain ⟨hcond, -⟩ := Plain.cons.mp (plain_singleton.mp hp)
      exact ⟨evaluate_context hj, .failing (actOf?_judge hcond) (signal_of_evaluate hj)
        fun rest acts => (Interpretation.advance_whileLoop ..).trans
          (evaluating_bare hcond hj _ _ _ acts)⟩
  | @ceased around o c body left done s s' hj =>
    intro todo hi hp
    cases hi with
    | rounds condition block hc hb =>
      subst hc
      obtain ⟨hcond, -⟩ := Plain.cons.mp (plain_singleton.mp hp)
      exact ⟨evaluate_context hj,
        Mirrored.nothing.judging hcond (advance_of_whileLoop hcond hj block) (Nat.le_succ _) rfl⟩
  | capped hj hc hl =>
    rw [Engine.pastCap, hcap] at hc
    cases hc
  | @left around o c body left done s s₁ s' ts hj hc inner ih =>
    intro todo hi hp
    cases hi with
    | rounds condition block hc hb =>
      obtain ⟨-, hpb⟩ := Plain.cons.mp (plain_singleton.mp hp)
      exact absurd (ih block (.block block hb) hpb).2 Mirrored.not_broken
  | @ended around o c body left done s s₁ s' ts signal hj hc inner hne ih =>
    intro todo hi hp
    cases hi with
    | rounds condition block hc hb =>
      subst hc
      obtain ⟨hcond, hpb⟩ := Plain.cons.mp (plain_singleton.mp hp)
      obtain ⟨hcontext, hm⟩ := ih block (.block block hb) hpb
      exact ⟨hcontext.trans (evaluate_context hj),
        (hm.cut _).judging hcond (advance_of_whileLoop hcond hj block)
          (Nat.le_succ_of_le (Nat.min_le_right _ _)) rfl⟩
  | @again around o c body left done s s₁ s₂ s' ts us r hj hc inner next ihb ihn =>
    intro todo hi hp
    cases hi with
    | rounds condition block hc hb =>
      subst hc
      obtain ⟨hcond, hpb⟩ := Plain.cons.mp (plain_singleton.mp hp)
      obtain ⟨hcontext, hm⟩ := ihb block (.block block hb) hpb
      obtain ⟨hcontext', hm'⟩ := ihn [.whileLoop condition block] (.rounds condition block rfl hb) hp
      have hleft : min (left + 1) e.rounds ≤ min left e.rounds + 1 := by omega
      exact ⟨hcontext'.trans (hcontext.trans (evaluate_context hj)),
        (hm.andThen hm').judging hcond (advance_of_whileLoop hcond hj block) hleft rfl⟩

end Rules

/-! ## 4. Whole runs -/

namespace Interpretation

theorem advance_of_over {e : Engine σ} {p : Interpretation σ} (h : p.Over) : p.advance e = p := by
  obtain ⟨todo, acts, failure, state⟩ := p
  cases failure with
  | some signal => rfl
  | none =>
    rcases h with rfl | h
    · rfl
    · exact absurd rfl h

/-- What is over stays as it is. -/
theorem iterate_of_over {e : Engine σ} {p : Interpretation σ} {m n : Nat}
    (h : ((advance e)^[m] p).Over) (hle : m ≤ n) : (advance e)^[n] p = (advance e)^[m] p := by
  obtain ⟨k, rfl⟩ := Nat.exists_eq_add_of_le' hle
  rw [Function.iterate_add_apply]
  exact Function.iterate_fixed (advance_of_over h) k

end Interpretation

/-- **How a run ends, compared with an interpretation** that has taken `n` steps: the run is completed
where the interpretation is through; it has the failure of an interpretation that has failed; and it is
left unfinished only where the interpretation has gone on for as many steps as there was fuel. -/
inductive EndsAs (w : Workflow) (fuel n : Nat) (s : RunState σ) (p : Interpretation σ) :
    RunOutcome → Prop
  | completed (ht : p.todo = []) (hf : p.failure = none) :
      EndsAs w fuel n s p (.reported (Executor.reportOf w s .completed (some 0) none))
  | undecided (error : ExpressionError) (hf : p.failure = some (.undecided error)) :
      EndsAs w fuel n s p (.undecided error (Executor.reportOf w s .halted (some 1) none))
  | raised (fault : Fault) (hf : p.failure = some (.raised fault)) :
      EndsAs w fuel n s p (.raised fault)
  | unfinished (ht : p.todo ≠ []) (hf : p.failure = none) (hn : fuel ≤ n) :
      EndsAs w fuel n s p .unfinished

/-- **A run does what an interpretation does**: it spawns the same commands and evaluates the same
conditions in the same order, with the same events, the same last result and the same values, leaves the
world in the same state, and ends as the interpretation does. -/
structure RunsAs (x : Executor σ) (w : Workflow) (r : RunRequest) (world : σ) (n : Nat)
    (p : Interpretation σ) : Prop where
  acts : (x.turns w r world).filterMap actOf? = p.acts
  state : bare (x.runWorkflow w r world).2 = p.state
  ending : EndsAs w x.fuel n (x.runWorkflow w r world).2 p (x.runWorkflow w r world).1

/-- **An interpretation that comes through with fewer steps than there is fuel** is what the run does to
its end, whatever interpretation the run was seen to go with. -/
theorem RunsAs.through {x : Executor σ} {w : Workflow} {r : RunRequest} {world : σ}
    {start : Interpretation σ} {n m : Nat} {e : Engine σ} (hm : m < x.fuel)
    (h : RunsAs x w r world n ((Interpretation.advance e)^[n] start))
    (ht : ((Interpretation.advance e)^[m] start).todo = [])
    (hf : ((Interpretation.advance e)^[m] start).failure = none) :
    RunsAs x w r world m ((Interpretation.advance e)^[m] start) ∧ (x.runWorkflow w r world).1 =
      .reported (Executor.reportOf w (x.runWorkflow w r world).2 .completed (some 0) none) := by
  obtain ⟨hacts, hstate, hend⟩ := h
  have hsame : (Interpretation.advance e)^[n] start = (Interpretation.advance e)^[m] start := by
    rcases Nat.le_total m n with hle | hle
    · exact Interpretation.iterate_of_over (Or.inl ht) hle
    · refine (Interpretation.iterate_of_over ?_ hle).symm
      generalize (x.runWorkflow w r world).1 = outcome at hend
      cases hend with
      | completed ht' => exact Or.inl ht'
      | undecided error hf' => exact Or.inr (by simp [hf'])
      | raised fault hf' => exact Or.inr (by simp [hf'])
      | unfinished _ _ hn => omega
  rw [hsame] at hacts hstate hend
  have hout : (x.runWorkflow w r world).1 =
      .reported (Executor.reportOf w (x.runWorkflow w r world).2 .completed (some 0) none) := by
    generalize (x.runWorkflow w r world).1 = outcome at hend ⊢
    cases hend with
    | completed => rfl
    | undecided error hf' => simp [hf] at hf'
    | raised fault hf' => simp [hf] at hf'
    | unfinished ht' => exact absurd ht ht'
  refine ⟨⟨hacts, hstate, ?_⟩, hout⟩
  rw [hout]
  exact .completed ht hf

section Runs

variable {x : Executor σ} {w : Workflow} {r : RunRequest} {context : Context}
  {block : List Statement}

theorem opening_of_plain (hw : w.steps = stepsOf block) (hp : Plain (textsOfBlock block))
    (hr : r.context = some context) (hcheck : x.securityCheck = false) (world : σ) :
    x.opening w r world = .begun false (Executor.initialState context world) := by
  have hstart : Executor.startState w r world = Executor.initialState context world := by
    unfold Executor.startState
    rw [hr]
  have hbound : ∀ name ∈ w.placeholderNames, context.contains name = true := by
    rw [placeholderNames_of_plain hw hp]
    exact fun _ h => by cases h
  unfold Executor.opening
  rw [hstart, Executor.fillMissing_of_bound x.world r.interactive hbound, hcheck]
  rfl

/-- What comes out of the steps of a run says how the run ends. -/
theorem endsAs_of_stands {fuel n : Nat} {acts : List Act} {s : RunState σ}
    {result : Except Signal Unit} {p : Interpretation σ} (h : Stands fuel n [] acts s result p) :
    Executor.closed w result s = s ∧ EndsAs w fuel n s p (Executor.outcomeOf w s result) ∧
      bare s = p.state ∧ acts = p.acts := by
  cases h with
  | through => exact ⟨rfl, .completed rfl rfl, rfl, rfl⟩
  | tired todo ht hn => exact ⟨rfl, .unfinished ht rfl hn, rfl, rfl⟩
  | @failed todo signal hs =>
    cases signal with
    | undecided error => exact ⟨rfl, .undecided error rfl, rfl, rfl⟩
    | raised fault => exact ⟨rfl, .raised fault rfl, rfl, rfl⟩
    | halted | returned | broken | missingVariable | unfinished =>
      rcases hs with hs | ⟨error, hs⟩ <;> cases hs

/-- A run of converted steps goes with an interpretation of the statements, and keeps its values. -/
theorem exists_runsAs (hw : w.steps = stepsOf block) (hp : Plain (textsOfBlock block))
    (hr : r.context = some context) (hcap : x.cap = none) (hcheck : x.securityCheck = false)
    (hs : Succeeds x.world) (world : σ) :
    (x.runWorkflow w r world).2.context = context ∧
      ∃ n, RunsAs x w r world n ((Interpretation.advance (x.engine false))^[n]
        (Interpretation.start block context world)) := by
  have hop := opening_of_plain hw hp hr hcheck world
  have hruns := Executor.runs_of_begun hop
  rw [Executor.engineOf_of_begun hop] at hruns
  obtain ⟨hcontext, hm⟩ := mirrored hcap hs hruns block (.block block hw) hp
  obtain ⟨n, p, hn, hst⟩ := hm [] []
  have hfuel : allowance (x.engine false) (.block "" true w.steps : Activity σ) = x.fuel := by
    unfold allowance Engine.rounds Executor.engine
    rw [hcap]
  rw [hfuel, List.nil_append] at hst
  rw [List.append_nil] at hn
  obtain ⟨hclosed, hend, hstate, hacts⟩ := endsAs_of_stands (w := w) hst
  have hrun : x.runWorkflow w r world =
      x.runSteps w false (Executor.initialState context world) := by
    rw [Executor.runWorkflow_eq, hop]
  rw [Executor.runSteps_apply, hclosed] at hrun
  rw [hrun]
  refine ⟨hcontext, n, ?_⟩
  have hafter : (Interpretation.advance (x.engine false))^[n]
      (Interpretation.start block context world) = p := hn
  rw [hafter]
  constructor
  · exact hacts
  · rw [hrun]
    exact hstate
  · rw [hrun]
    exact hend

end Runs

/-- **A converted shell function runs as its statements say.**

* `interpreted`: the run does what the direct interpretation of the statements does, up to some step;
* `kept`: the values at the end are those from which the run started;
* `completed`: an interpretation that comes through without failing, in fewer steps than there is fuel,
  is what the run does to its end, and the run is completed then. -/
structure RunsByItsStatements (x : Executor σ) (w : Workflow) (r : RunRequest) (world : σ)
    (context : Context) (block : List Statement) : Prop where
  interpreted : ∃ n, RunsAs x w r world n ((Interpretation.advance (x.engine false))^[n]
    (Interpretation.start block context world))
  kept : (x.runWorkflow w r world).2.context = context
  completed : ∀ m < x.fuel, ∀ p, (Interpretation.advance (x.engine false))^[m]
      (Interpretation.start block context world) = p → p.todo = [] → p.failure = none →
    RunsAs x w r world m p ∧ (x.runWorkflow w r world).1 =
      .reported (Executor.reportOf w (x.runWorkflow w r world).2 .completed (some 0) none)

/-- **Converting and then running is interpreting.** Statements without placeholders, converted and run
from given values without a cap and without a screening, in a world in which every command ends with exit
code zero, do what their direct interpretation does. -/
theorem runWorkflow_stepsOf {x : Executor σ} {w : Workflow} {r : RunRequest} {context : Context}
    {block : List Statement} (hw : w.steps = stepsOf block) (hp : Plain (textsOfBlock block))
    (hr : r.context = some context) (hcap : x.cap = none) (hcheck : x.securityCheck = false)
    (hs : Succeeds x.world) (world : σ) : RunsByItsStatements x w r world context block := by
  obtain ⟨hkept, n, hn⟩ := exists_runsAs hw hp hr hcap hcheck hs world
  refine ⟨⟨n, hn⟩, hkept, ?_⟩
  rintro m hm p rfl ht hf
  exact hn.through hm ht hf

/-- A loop between an assignment and a choice. -/
def repeating : List Statement := [
  .assignment "mode" "fast" false,
  .whileLoop "[ -f lock ]" [.command "wait"],
  .choice "kind" [("small", [.command "tidy"]), (anyValue, [.command "sweep"])]]

/-- A world in which commands succeed and the first two tests hold. -/
def twice : World Nat :=
  ⟨fun _ n => (.finished ⟨0, "", ""⟩, n), fun _ n => (.decided (n < 2), n + 1),
    fun _ n => (.error .endOfInput, n), none, none⟩

/-- The loop goes round twice, and the choice falls to the arm of any value. -/
theorem repeating_runsByItsStatements :
    let x : Executor Nat := ⟨twice, ⟨1000, 3, [], [], []⟩, none, 20, false⟩
    let w : Workflow := ⟨"repeat", "", stepsOf repeating, [], [], [], 0, none, 0⟩
    let r : RunRequest := ⟨none, [], some [("kind", "large")], false⟩
    Plain (textsOfBlock repeating) ∧ Succeeds twice ∧
      RunsByItsStatements x w r 0 [("kind", "large")] repeating ∧
      (x.turns w r 0).filterMap actOf? = [.spawned "mode=\"fast\"", .evaluated "[ -f lock ]",
        .spawned "wait", .evaluated "[ -f lock ]", .spawned "wait", .evaluated "[ -f lock ]",
        .spawned "sweep"] := by
  intro x w r
  have hplain : Plain (textsOfBlock repeating) := by unfold Plain; decide +kernel
  have hs : Succeeds twice := fun _ _ => ⟨_, rfl, rfl⟩
  have h := runWorkflow_stepsOf (x := x) (w := w) (r := r) rfl hplain rfl rfl rfl hs 0
  exact ⟨hplain, hs, h, by decide +kernel⟩

end Runbook.ShellFunction
