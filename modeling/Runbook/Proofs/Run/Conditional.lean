import Runbook.Proofs.Run.Leaving

/-!
# What a conditional does

A conditional judges its condition, runs the block that the outcome selects, and then acts. Where the
condition does not hold and there is no else block, no block is selected:

* `Step.selected?`: the block that an outcome selects, if there is one;
* `Engine.effect`: what an action makes of the steps in which it is reached;
* `Engine.Choosing`, `Runs.choosing`: the ways in which an execution of a conditional can go;
* `Engine.GoesOn`, `Runs.goesOn`: what follows on an execution that ends well;
* `Engine.ActsBehind`, `Runs.acts`: what lies before every act;
* `Executor.Chooses`, **`runWorkflow_chooses`**: what this says of whole runs. A conditional that
  selects no block does nothing unless its action leaves the loop or the run; such an action takes
  effect with no block before it.
-/

namespace Runbook

variable {σ : Type}

/-! ## 1. Selected blocks and effects -/

/-- The block of a conditional that the outcome of its condition selects, under its label. -/
def Step.selected? (holds : Bool) (thenBlock : List Step) (elseBlock : Option (List Step)) :
    Option (String × List Step) :=
  if holds then some ("then", thenBlock) else elseBlock.map (Prod.mk "else")

theorem Step.selected?_eq_none {holds : Bool} {t : List Step} {el : Option (List Step)} :
    Step.selected? holds t el = none ↔ holds = false ∧ el = none := by
  cases holds <;> cases el <;> simp [Step.selected?]

/-- A selected block is the one that is gone into. -/
theorem Step.blockFor_of_selected {holds : Bool} {t : List Step} {el : Option (List Step)}
    {chosen : String × List Step} (h : Step.selected? holds t el = some chosen) :
    Step.blockFor holds t el = chosen := by
  cases holds with
  | true => exact Option.some.inj h
  | false =>
    cases el with
    | none => cases h
    | some el => exact Option.some.inj h

/-- Where no block is selected, there is nothing to go into. -/
theorem Step.blockFor_of_unselected {holds : Bool} {t : List Step} {el : Option (List Step)}
    (h : Step.selected? holds t el = none) : (Step.blockFor holds t el).2 = [] := by
  obtain ⟨rfl, rfl⟩ := Step.selected?_eq_none.mp h
  rfl

/-- An action that leaves neither the loop nor the run. -/
def Action.Stays (a : Action) : Prop := a.kind ≠ .leaveLoop ∧ a.kind ≠ .leaveRun

namespace Engine

/-- What an action makes of the steps in which it is reached. -/
def effect : Option Action → Except Signal Unit
  | some ⟨.leaveLoop, _⟩ => .error .broken
  | some ⟨.leaveRun, code⟩ => .error (.returned code)
  | some ⟨.runThen, _⟩ => .ok ()
  | some ⟨.runElse, _⟩ => .ok ()
  | some ⟨.proceed, _⟩ => .ok ()
  | none => .ok ()

/-- An action does nothing but take its effect. -/
theorem act_apply (a : Option Action) (s : RunState σ) : act a s = (effect a, s) := by
  rcases a with _ | ⟨kind, code⟩
  · rfl
  · cases kind <;> rfl

theorem effect_eq_ok_iff {a : Option Action} :
    effect a = .ok () ↔ ∀ action ∈ a, action.Stays := by
  rcases a with _ | ⟨kind, code⟩
  · simp [effect]
  · cases kind <;> simp [effect, Action.Stays]

variable {e : Engine σ} {steps : List Step} {around : List (Occurrence σ)} {act : Activity σ}
  {s s' : RunState σ} {ts : List (Turn σ)} {r : Except Signal Unit}

/-! ## 2. Executions of a conditional -/

/-- **How an execution of a conditional can go** behind the turn that comes to the step: the turns, the
result and the last state. -/
inductive Choosing (e : Engine σ) (around : List (Occurrence σ)) (o : Occurrence σ)
    (c : Condition) (thenBlock : List Step) (elseBlock : Option (List Step)) (a : Option Action) :
    List (Turn σ) → Except Signal Unit → RunState σ → Prop
  | barred {signal : Signal} {s' : RunState σ}
      (hg : e.perform o .reach o.state = (.error signal, s')) :
      Choosing e around o c thenBlock elseBlock a [] (.error signal) s'
  | unjudged {signal : Signal} {s s' : RunState σ} (hg : e.perform o .reach o.state = (.ok (), s))
      (hj : e.evaluate c s = (.error signal, s')) :
      Choosing e around o c thenBlock elseBlock a [⟨o, around, .judge c, s⟩] (.error signal) s'
  | unselected {holds : Bool} {s s' : RunState σ} (hg : e.perform o .reach o.state = (.ok (), s))
      (hj : e.evaluate c s = (.ok holds, s'))
      (hn : Step.selected? holds thenBlock elseBlock = none) :
      Choosing e around o c thenBlock elseBlock a
        [⟨o, around, .judge c, s⟩, ⟨o, around, .act a, s'⟩] (effect a) s'
  | stopped {holds : Bool} {label : String} {block : List Step} {signal : Signal}
      {s s₁ s' : RunState σ} (hg : e.perform o .reach o.state = (.ok (), s))
      (hj : e.evaluate c s = (.ok holds, s₁))
      (hb : Step.selected? holds thenBlock elseBlock = some (label, block))
      (hr : e.runBlock (blockPath o.path label) false block s₁ = (.error signal, s')) :
      Choosing e around o c thenBlock elseBlock a (⟨o, around, .judge c, s⟩ ::
        (e.blockCourse (o :: around) (blockPath o.path label) false block).turns s₁)
        (.error signal) s'
  | acted {holds : Bool} {label : String} {block : List Step} {s s₁ s' : RunState σ}
      (hg : e.perform o .reach o.state = (.ok (), s)) (hj : e.evaluate c s = (.ok holds, s₁))
      (hb : Step.selected? holds thenBlock elseBlock = some (label, block))
      (hr : e.runBlock (blockPath o.path label) false block s₁ = (.ok (), s')) :
      Choosing e around o c thenBlock elseBlock a (⟨o, around, .judge c, s⟩ ::
        ((e.blockCourse (o :: around) (blockPath o.path label) false block).turns s₁ ++
          [⟨o, around, .act a, s'⟩])) (effect a) s'

/-- A block by the rules comes out as the block itself does. -/
theorem Runs.runBlock_eq {above : String} {top : Bool} {block : List Step}
    (h : e.Runs around (.block above top block) s ts r s') :
    e.runBlock above top block s = (r, s') := by
  have hc : e.blockCourse around above top block s = (ts, r, s') := h.courseOf_eq
  rw [← e.blockCourse_run around above top block]
  unfold Course.run
  rw [hc]

/-- A step by the rules comes out as the step itself does. -/
theorem Runs.runStep_eq {above : String} {top : Bool} {x : Step}
    (h : e.Runs around (.step above top x) s ts r s') : e.runStep above top x s = (r, s') := by
  have hc : e.stepCourse around above top x s = (ts, r, s') := h.courseOf_eq
  rw [← stepCourse_run e x around]
  unfold Course.run
  rw [hc]

/-- There is one way to go through no steps. -/
theorem Runs.of_nil_block {above : String} {top : Bool}
    (h : e.Runs around (.block above top []) s ts r s') : ts = [] ∧ r = .ok () ∧ s' = s := by
  cases h
  exact ⟨rfl, rfl, rfl⟩

/-- **An execution of a conditional goes in one of these ways.** -/
theorem Runs.choosing {above : String} {top : Bool} {x : Step} {hd : StepHead} {c : Condition}
    {t : List Step} {el : Option (List Step)} {a : Option Action}
    (hs : x = .conditional hd c t el a) (h : e.Runs around (.step above top x) s ts r s') :
    ∃ us, ts = ⟨⟨above, top, x, s⟩, around, .reach, s⟩ :: us ∧
      Choosing e around ⟨above, top, x, s⟩ c t el a us r s' := by
  cases h with
  | barred hg => exact ⟨[], rfl, .barred hg⟩
  | reached hg inner =>
    refine ⟨_, rfl, ?_⟩
    cases inner with
    | leaf hk =>
      rw [hs] at hk
      cases hk
    | chosen hs' | looped hs' => cases hs.symm.trans hs'
    | unjudged hs' hj =>
      cases hs.symm.trans hs'
      exact .unjudged hg hj
    | @stopped _ _ _ _ _ _ _ _ _ _ holds _ _ hs' hj inner =>
      cases hs.symm.trans hs'
      cases hsel : Step.selected? holds t el with
      | none =>
        -- no step, no signal
        rw [Step.blockFor_of_unselected hsel] at inner
        cases inner.of_nil_block.2.1
      | some chosen =>
        rw [Step.blockFor_of_selected hsel] at inner
        rw [← inner.block_turns]
        exact .stopped hg hj hsel inner.runBlock_eq
    | @acted _ _ _ _ _ _ _ _ _ _ _ holds _ _ hs' hj inner ha =>
      cases hs.symm.trans hs'
      obtain ⟨rfl, rfl⟩ := Prod.mk.inj (ha.symm.trans (act_apply a _))
      cases hsel : Step.selected? holds t el with
      | none =>
        rw [Step.blockFor_of_unselected hsel] at inner
        obtain ⟨rfl, -, rfl⟩ := inner.of_nil_block
        exact .unselected hg hj hsel
      | some chosen =>
        rw [Step.blockFor_of_selected hsel] at inner
        rw [← inner.block_turns]
        exact .acted hg hj hsel inner.runBlock_eq

/-- What became of an execution that came to judge its condition and selected no block. -/
theorem Choosing.of_unselected {o : Occurrence σ} {c : Condition} {t : List Step}
    {el : Option (List Step)} {a : Option Action} {holds : Bool} {s₁ s₂ : RunState σ}
    (h : Choosing e around o c t el a ts r s') (hg : e.perform o .reach o.state = (.ok (), s₁))
    (hj : e.evaluate c s₁ = (.ok holds, s₂)) (hn : Step.selected? holds t el = none) :
    ts = [⟨o, around, .judge c, s₁⟩, ⟨o, around, .act a, s₂⟩] ∧ r = effect a ∧ s' = s₂ := by
  cases h with
  | barred hg' => cases hg.symm.trans hg'
  | unjudged hg' hj' =>
    cases hg.symm.trans hg'
    cases hj.symm.trans hj'
  | unselected hg' hj' =>
    cases hg.symm.trans hg'
    cases hj.symm.trans hj'
    exact ⟨rfl, rfl, rfl⟩
  | stopped hg' hj' hb | acted hg' hj' hb =>
    cases hg.symm.trans hg'
    cases hj.symm.trans hj'
    cases hn.symm.trans hb

/-! ## 3. Conditionals that select no block -/

/-- **A conditional selects no block**: a run that comes to it gets past the question about it, and then
the condition does not hold and there is no else block. -/
structure Unselected (e : Engine σ) (o : Occurrence σ) (c : Condition) (a : Option Action)
    (s₁ s₂ : RunState σ) : Prop where
  step : ∃ hd t, o.step = .conditional hd c t none a
  passed : e.perform o .reach o.state = (.ok (), s₁)
  judged : e.evaluate c s₁ = (.ok false, s₂)

/-- **Nothing has happened at a step but that its condition was judged**: the step was asked about if it
has to be, the condition was tested, and its outcome is bound if it is to be captured. -/
def OnlyJudged (e : Engine σ) (o : Occurrence σ) (c : Condition) (holds : Bool)
    (s' : RunState σ) : Prop :=
  ∃ asked world, s' = (o.state.told (asked ++ testsFor (judgedText c o.state.context))
      world).captured c holds ∧
    (asked = [] ∨ e.asks o.head = true ∧ ∃ lines, lines.all Event.isLine = true ∧
      asked = .approval (question o.step.kind o.head) :: lines)

theorem onlyJudged_of_evaluate {o : Occurrence σ} {c : Condition} {holds : Bool}
    {s₁ s₂ : RunState σ} (hg : e.perform o .reach o.state = (.ok (), s₁))
    (hj : e.evaluate c s₁ = (.ok holds, s₂)) : e.OnlyJudged o c holds s₂ := by
  have hs₂ : ∃ world, s₂ = (s₁.told (testsFor (judgedText c s₁.context)) world).captured c holds := by
    obtain ⟨world, ⟨holds', hv⟩ | ⟨signal, hv, -⟩⟩ := evaluate_cases e c s₁
    · cases hj.symm.trans hv
      exact ⟨world, rfl⟩
    · cases hj.symm.trans hv
  obtain ⟨world, hs₂⟩ := hs₂
  cases does_of_perform hg with
  | free ha => exact ⟨[], world, by rw [hs₂, List.nil_append], Or.inl rfl⟩
  | approved lines world' ha hl hy =>
    refine ⟨_, world, ?_, Or.inr ⟨ha, lines, hl, rfl⟩⟩
    rw [hs₂, RunState.told_told, RunState.told_context]

/-- **A conditional that selects no block judges its condition, and then its action takes effect.** -/
theorem Unselected.runStep_eq {o : Occurrence σ} {c : Condition} {a : Option Action}
    {s₁ s₂ : RunState σ} (h : e.Unselected o c a s₁ s₂) :
    e.runStep o.above o.top o.step o.state = (effect a, s₂) := by
  obtain ⟨above, top, x, s⟩ := o
  obtain ⟨hd, t, hs⟩ := h.step
  obtain ⟨ts, r, s', hc⟩ : ∃ ts r s', e.stepCourse [] above top x s = (ts, r, s') :=
    ⟨_, _, _, rfl⟩
  have hruns : e.Runs [] (.step above top x) s ts r s' := runs_iff.mpr hc
  obtain ⟨us, -, hchoosing⟩ := hruns.choosing hs
  obtain ⟨-, rfl, rfl⟩ := hchoosing.of_unselected h.passed h.judged rfl
  exact hruns.runStep_eq

/-- **With an action that stays, what stands behind the conditional is next.** -/
theorem Unselected.runBlock_eq {o : Occurrence σ} {c : Condition} {a : Option Action}
    {s₁ s₂ : RunState σ} (h : e.Unselected o c a s₁ s₂) (ha : ∀ action ∈ a, action.Stays)
    (rest : List Step) : e.runBlock o.above o.top (o.step :: rest) o.state =
      e.runBlock o.above o.top rest s₂ := by
  rw [runBlock, Run.bind_apply, h.runStep_eq, effect_eq_ok_iff.mpr ha]

/-! ## 4. What follows on a step -/

/-- **What follows on a step**: it begins a row of steps in its block, and if it ends well, the others of
the row are next. -/
def GoesOn (e : Engine σ) (steps : List Step) (u : Turn σ) (later : List (Turn σ)) : Prop :=
  ∃ rest, e.Reaches steps u.around (.block u.here.above u.here.top (u.here.step :: rest)) ∧
    ∀ s', e.runStep u.here.above u.here.top u.here.step u.here.state = (.ok (), s') →
      ∃ others, u :: later = u.execution e ++ others ∧
        (e.blockCourse u.around u.here.above u.here.top rest).turns s' <+: others

theorem GoesOn.onward {u : Turn σ} {later : List (Turn σ)} (h : GoesOn e steps u later)
    (more : List (Turn σ)) : GoesOn e steps u (later ++ more) := by
  obtain ⟨rest, hreach, hnext⟩ := h
  refine ⟨rest, hreach, fun s' hs' => ?_⟩
  obtain ⟨others, hu, hprefix⟩ := hnext s' hs'
  refine ⟨others ++ more, ?_, hprefix.trans (List.prefix_append _ _)⟩
  rw [← List.append_assoc, ← hu]
  rfl

/-- What follows on the steps that the turns of an activity come to. The first turn of a step is the one
that comes to it; what follows on that step does not belong to the activity. -/
def Follow (e : Engine σ) (steps : List Step) (act : Activity σ) (past : List (Turn σ))
    (u : Turn σ) (later : List (Turn σ)) : Prop :=
  u.deed = .reach → (past = [] ∧ ∃ above top x, act = .step above top x) ∨ GoesOn e steps u later

namespace Follow

variable {act' : Activity σ} {past later : List (Turn σ)} {u : Turn σ}

theorem of_stays {o : Occurrence σ} {d : Deed} (hd : d ≠ .reach) :
    Follow e steps act past ⟨o, around, d, s⟩ later :=
  fun h => absurd h hd

/-- What is found behind all steps of an activity that is no step. -/
theorem onward (h : Follow e steps act past u later) (ha : ∀ above top x, act ≠ .step above top x)
    (before more : List (Turn σ)) : Follow e steps act' (before ++ past) u (later ++ more) := by
  intro hd
  rcases h hd with ⟨-, above, top, x, hx⟩ | hg
  · exact absurd hx (ha above top x)
  · exact Or.inr (hg.onward more)

theorem behind (h : Follow e steps act past u later) (ha : ∀ above top x, act ≠ .step above top x)
    (before : List (Turn σ)) : Follow e steps act' (before ++ past) u later := by
  have hf : Follow e steps act' (before ++ past) u (later ++ []) := h.onward ha before []
  rwa [List.append_nil] at hf

end Follow

/-- The turn that comes to a step, at the head of its execution. -/
theorem Runs.head_eq {above : String} {top : Bool} {x : Step} {u : Turn σ}
    {later : List (Turn σ)} (h : e.Runs around (.step above top x) s (u :: later) r s') :
    u = ⟨⟨above, top, x, s⟩, around, .reach, s⟩ := by
  cases h <;> rfl

/-- **Every step of a run is followed by the others of its row.** -/
theorem Runs.goesOn (h : e.Runs around act s ts r s') : e.Reaches steps around act →
    Splits (Follow e steps act) ts := by
  induction h with
  | nil => exact fun _ => .nil
  | @cons around above top x rest s s₁ s' ts us r first later ihx ihr =>
    intro hp
    refine .append (fun past u more hts hd => Or.inr ?_)
      ((ihr (hp.leads .later)).imp fun _ _ _ hf => hf.behind nofun _)
    rcases ihx (hp.leads .first) past u more hts hd with ⟨rfl, -⟩ | hg
    · -- the first turn comes to the step whose row this is
      subst hts
      obtain rfl := first.head_eq
      refine ⟨rest, hp, fun s₂ hs₂ => ⟨us, ?_, ?_⟩⟩
      · rw [first.execution_eq]
        rfl
      · cases first.runStep_eq.symm.trans hs₂
        exact later.block_turns ▸ List.prefix_rfl
    · exact hg.onward us
  | @cut around above top x rest s s' ts signal first ih =>
    intro hp past u more hts hd
    rcases ih (hp.leads .first) past u more hts hd with ⟨rfl, -⟩ | hg
    · have hts : ts = u :: more := hts
      subst hts
      obtain rfl := first.head_eq
      exact Or.inr ⟨rest, hp, fun s₂ hs₂ => by cases first.runStep_eq.symm.trans hs₂⟩
    · exact Or.inr hg
  | barred => exact fun _ => .cons (fun _ => Or.inl ⟨rfl, _, _, _, rfl⟩) .nil
  | reached _ _ ih =>
    exact fun hp => .cons (fun _ => Or.inl ⟨rfl, _, _, _, rfl⟩)
      ((ih (hp.leads .reached)).imp fun _ _ _ hf => hf.behind nofun _)
  | leaf | unjudged | tired | undecided | ceased => exact fun _ => .cons (.of_stays nofun) .nil
  | capped => exact fun _ => .cons (.of_stays nofun) (.cons (.of_stays nofun) .nil)
  | stopped hs _ _ ih =>
    exact fun hp => .cons (.of_stays nofun)
      ((ih (hp.leads (.taken hs))).imp fun _ _ _ hf => hf.behind nofun _)
  | acted hs _ _ _ ih =>
    exact fun hp => .cons (.of_stays nofun) (.append
      ((ih (hp.leads (.taken hs))).imp fun _ _ _ hf => hf.onward nofun _ _)
      (.cons (.of_stays nofun) .nil))
  | chosen hs _ ih =>
    exact fun hp => (ih (hp.leads (.chosen hs))).imp fun _ _ _ hf => hf.behind nofun []
  | looped hs _ ih =>
    exact fun hp => (ih (hp.leads (.looped hs))).imp fun _ _ _ hf => hf.behind nofun []
  | left _ hc _ ih =>
    exact fun hp => .cons (.of_stays nofun)
      ((ih (hp.leads (.body hc))).imp fun _ _ _ hf => hf.behind nofun _)
  | ended _ hc _ _ ih =>
    exact fun hp => .cons (.of_stays nofun)
      ((ih (hp.leads (.body hc))).imp fun _ _ _ hf => hf.behind nofun _)
  | @again around o c body left done s s₁ s₂ s' ts us r hj hc inner next ihb ihn =>
    exact fun hp => .cons (.of_stays nofun) (.append
      ((ihb (hp.leads (.body hc))).imp fun _ _ _ hf => hf.onward nofun _ _)
      ((ihn (hp.leads (.again hc))).imp fun _ _ _ hf =>
        hf.behind nofun (⟨o, around, .judge c, s⟩ :: ts)))

/-! ## 5. What lies before an act -/

/-- **The turns right before an act**: the condition of the same occurrence was judged, and then the
selected block has gone to its end, or no block was selected. -/
inductive ActsBehind (e : Engine σ) (t : Turn σ) : List (Turn σ) → Prop
  | block {hd : StepHead} {c : Condition} {th : List Step} {el : Option (List Step)}
      {a : Option Action} {holds : Bool} {label : String} {block : List Step} {s s₁ : RunState σ}
      (hs : t.here.step = .conditional hd c th el a) (ha : t.deed = .act a)
      (hj : e.evaluate c s = (.ok holds, s₁))
      (hb : Step.selected? holds th el = some (label, block))
      (hr : e.runBlock (blockPath t.here.path label) false block s₁ = (.ok (), t.before)) :
      ActsBehind e t (⟨t.here, t.around, .judge c, s⟩ ::
        (e.blockCourse (t.here :: t.around) (blockPath t.here.path label) false block).turns s₁)
  | nothing {hd : StepHead} {c : Condition} {th : List Step} {a : Option Action} {s : RunState σ}
      (hs : t.here.step = .conditional hd c th none a) (ha : t.deed = .act a)
      (hj : e.evaluate c s = (.ok false, t.before)) :
      ActsBehind e t [⟨t.here, t.around, .judge c, s⟩]

/-- An act among turns has such turns before it. -/
def Acts (e : Engine σ) (past : List (Turn σ)) (t : Turn σ) (_later : List (Turn σ)) : Prop :=
  ∀ a, t.deed = .act a → ∃ recent, recent <:+ past ∧ ActsBehind e t recent

namespace Acts

variable {past later later' : List (Turn σ)} {t : Turn σ}

theorem of_stays {o : Occurrence σ} {d : Deed} (hd : ∀ a, d ≠ .act a) :
    Acts e past ⟨o, around, d, s⟩ later :=
  fun a h => absurd h (hd a)

theorem behind (h : Acts e past t later) (more : List (Turn σ)) :
    Acts e (more ++ past) t later' := by
  intro a ha
  obtain ⟨recent, hsuffix, hr⟩ := h a ha
  exact ⟨recent, hsuffix.trans (List.suffix_append _ _), hr⟩

theorem onward (h : Acts e past t later) : Acts e past t later' := h

end Acts

/-- **Every act of a run comes behind the block that was selected, or behind none.** -/
theorem Runs.acts (h : e.Runs around act s ts r s') : Splits (Acts e) ts := by
  induction h with
  | nil => exact .nil
  | cons _ _ ihx ihr =>
    exact .append (ihx.imp fun _ _ _ hf => hf.onward) (ihr.imp fun _ _ _ hf => hf.behind _)
  | cut _ ih => exact ih
  | barred | leaf | unjudged | tired | undecided | ceased => exact .cons (.of_stays nofun) .nil
  | capped => exact .cons (.of_stays nofun) (.cons (.of_stays nofun) .nil)
  | reached _ _ ih => exact .cons (.of_stays nofun) (ih.imp fun _ _ _ hf => hf.behind _)
  | stopped _ _ _ ih => exact .cons (.of_stays nofun) (ih.imp fun _ _ _ hf => hf.behind _)
  | @acted around o s s₁ s₂ s' hd c t el a holds ts r hs hj inner ha ih =>
    refine .cons (.of_stays nofun) (.append (ih.imp fun _ _ _ hf => hf.behind _)
      (.cons (fun a' ha' => ⟨⟨o, around, .judge c, s⟩ :: ts, ?_, ?_⟩) .nil))
    · rw [List.append_nil]
      exact List.suffix_rfl
    · cases hsel : Step.selected? holds t el with
      | none =>
        rw [Step.blockFor_of_unselected hsel] at inner
        obtain ⟨rfl, -, rfl⟩ := inner.of_nil_block
        obtain ⟨rfl, rfl⟩ := Step.selected?_eq_none.mp hsel
        exact .nothing hs rfl hj
      | some chosen =>
        rw [Step.blockFor_of_selected hsel] at inner
        rw [← inner.block_turns]
        exact .block hs rfl hj hsel inner.runBlock_eq
  | chosen _ _ ih => exact ih
  | looped _ _ ih => exact ih
  | left _ _ _ ih => exact .cons (.of_stays nofun) (ih.imp fun _ _ _ hf => hf.behind _)
  | ended _ _ _ _ ih => exact .cons (.of_stays nofun) (ih.imp fun _ _ _ hf => hf.behind _)
  | @again around o c body left done s s₁ s₂ s' ts us r hj hc inner next ihb ihn =>
    exact .cons (.of_stays nofun) (.append (ihb.imp fun _ _ _ hf => hf.behind _)
      (ihn.imp fun _ _ _ hf => hf.behind (⟨o, around, .judge c, s⟩ :: ts)))

end Engine

/-! ## 6. Whole runs -/

namespace Executor

variable {x : Executor σ} {w : Workflow} {r : RunRequest} {world : σ}

/-- **A conditional of a run does what its outcome selects.**

* `idle`: wherever and in whatever state it is reached, a conditional that selects no block only has its
  condition judged, and then its action takes effect;
* `next`: if the action stays, the step has no part in what stands behind it;
* `executed`: a conditional that a run comes to judges its condition, runs the selected block and, if that
  ends well, acts; if no block is selected, it acts at once;
* `onward`: on one that selects no block, and whose action stays, the others of its row follow;
* `acts`: an act comes right behind the end of the selected block, or behind an outcome that selects
  none. -/
structure Chooses (x : Executor σ) (w : Workflow) (r : RunRequest) (world : σ) : Prop where
  idle : ∀ o c a s₁ s₂, (x.engineOf w r world).Unselected o c a s₁ s₂ →
    (x.engineOf w r world).OnlyJudged o c false s₂ ∧
      (x.engineOf w r world).runStep o.above o.top o.step o.state = (Engine.effect a, s₂)
  next : ∀ o c a s₁ s₂, (x.engineOf w r world).Unselected o c a s₁ s₂ →
    (∀ action ∈ a, action.Stays) → ∀ rest,
      (x.engineOf w r world).runBlock o.above o.top (o.step :: rest) o.state =
        (x.engineOf w r world).runBlock o.above o.top rest s₂
  executed : ∀ u ∈ x.turns w r world, u.deed = .reach → ∀ hd c t el a,
    u.here.step = .conditional hd c t el a → ∃ us result s',
      u.execution (x.engineOf w r world) = u :: us ∧
      (x.engineOf w r world).Choosing u.around u.here c t el a us result s' ∧
      (x.engineOf w r world).runStep u.here.above u.here.top u.here.step u.here.state = (result, s')
  onward : ∀ past u later, x.turns w r world = past ++ u :: later → u.deed = .reach →
    ∀ c a s₁ s₂, (x.engineOf w r world).Unselected u.here c a s₁ s₂ →
      (∀ action ∈ a, action.Stays) → ∃ rest others,
        (x.engineOf w r world).Reaches w.steps u.around
          (.block u.here.above u.here.top (u.here.step :: rest)) ∧
        later = ⟨u.here, u.around, .judge c, s₁⟩ :: ⟨u.here, u.around, .act a, s₂⟩ :: others ∧
        ((x.engineOf w r world).blockCourse u.around u.here.above u.here.top rest).turns s₂ <+:
          others
  acts : ∀ past t later, x.turns w r world = past ++ t :: later → ∀ a, t.deed = .act a →
    ∃ recent, recent <:+ past ∧ (x.engineOf w r world).ActsBehind t recent

/-- An execution of a conditional in a run goes in one of the ways in which it can. -/
theorem choosing_of_turn {u : Turn σ} (hu : u ∈ x.turns w r world) (hd : u.deed = .reach)
    {head : StepHead} {c : Condition} {t : List Step} {el : Option (List Step)}
    {a : Option Action} (hs : u.here.step = .conditional head c t el a) : ∃ us result s',
      u.execution (x.engineOf w r world) = u :: us ∧
      (x.engineOf w r world).Choosing u.around u.here c t el a us result s' ∧
      (x.engineOf w r world).runStep u.here.above u.here.top u.here.step u.here.state =
        (result, s') := by
  have hplace := (place_of_turn hu).2
  obtain ⟨o, around, d, before⟩ := u
  dsimp only at hd hs hplace
  subst hd
  obtain ⟨result, s', hruns⟩ := (x.engineOf w r world).runs_execution ⟨o, around, .reach, before⟩
  obtain ⟨us, hus, hchoosing⟩ := hruns.choosing hs
  refine ⟨us, result, s', ?_, hchoosing, hruns.runStep_eq⟩
  cases hplace with
  | reach hstate =>
    subst hstate
    exact hus

/-- In a run the others of its row follow on a conditional that selects no block. -/
theorem onward_of_unselected {past later : List (Turn σ)} {u : Turn σ}
    (hts : x.turns w r world = past ++ u :: later) (hd : u.deed = .reach) {c : Condition}
    {a : Option Action} {s₁ s₂ : RunState σ}
    (h : (x.engineOf w r world).Unselected u.here c a s₁ s₂) (ha : ∀ action ∈ a, action.Stays) :
    ∃ rest others, (x.engineOf w r world).Reaches w.steps u.around
        (.block u.here.above u.here.top (u.here.step :: rest)) ∧
      later = ⟨u.here, u.around, .judge c, s₁⟩ :: ⟨u.here, u.around, .act a, s₂⟩ :: others ∧
      ((x.engineOf w r world).blockCourse u.around u.here.above u.here.top rest).turns s₂ <+:
        others := by
  have hu : u ∈ x.turns w r world := by simp [hts]
  obtain ⟨head, t, hs⟩ := h.step
  obtain ⟨us, result, s', hexec, hchoosing, -⟩ := choosing_of_turn hu hd hs
  obtain ⟨rfl, -, -⟩ := hchoosing.of_unselected h.passed h.judged rfl
  obtain ⟨approved, s, hop, -⟩ := x.begins_of_turn w r world hu
  rcases (runs_of_begun hop).goesOn .start past u later hts hd with ⟨-, _, _, _, hact⟩ | hgoes
  · cases hact
  · obtain ⟨rest, hreach, hnext⟩ := hgoes
    have hok : (x.engineOf w r world).runStep u.here.above u.here.top u.here.step u.here.state =
        (.ok (), s₂) := by
      rw [h.runStep_eq, Engine.effect_eq_ok_iff.mpr ha]
    obtain ⟨others, hlater, hothers⟩ := hnext s₂ hok
    rw [hexec] at hlater
    exact ⟨rest, others, hreach, (List.cons.inj hlater).2, hothers⟩

/-- **Conditionals do what their outcomes select.** -/
theorem runWorkflow_chooses (x : Executor σ) (w : Workflow) (r : RunRequest) (world : σ) :
    x.Chooses w r world where
  idle _ _ _ _ _ h := ⟨Engine.onlyJudged_of_evaluate h.passed h.judged, h.runStep_eq⟩
  next _ _ _ _ _ h ha rest := h.runBlock_eq ha rest
  executed _ hu hd _ _ _ _ _ hs := choosing_of_turn hu hd hs
  onward _ _ _ hts hd _ _ _ _ h ha := onward_of_unselected hts hd h ha
  acts past t later hts a ha := by
    obtain ⟨approved, s, hop, -⟩ := x.begins_of_turn w r world (t := t) (by simp [hts])
    exact (runs_of_begun hop).acts past t later hts a ha

/-- A conditional that selects no block where its condition does not hold, and a command behind it. -/
def idleFirst (a : Option Action) : List Step :=
  [.conditional ⟨"Check", "", "", false, false⟩ ⟨"[ -f here ]", none⟩ [] none a,
    .command ⟨"After", "", "echo after", false, false⟩]

/-- How the run of some steps is reported, and the steps that have run, in a world where these outcomes
are laid down for the condition of a loop and no other condition holds. -/
def idleRun (steps : List Step) : Option (RunStatus × Option Int) × List String :=
  let x : Executor Script := ⟨Script.world true true, ⟨1000, 3, [], [], []⟩, some 5, 0, false⟩
  let world : Script := ⟨[], [("[ -f loop ]", [.decided true, .decided true])], [], []⟩
  let run := x.runWorkflow ⟨"idle", "", steps, [], [], [], 0, none, 0⟩
    ⟨none, [], some [], false⟩ world
  (run.1.report?.map fun report => (report.status, report.exitCode), run.2.trace.map (·.name))

/-- **An action that leaves takes effect where no block was selected**: the command behind the conditional
does not run, and a loop around it ends in its first iteration. -/
theorem idle_leaves :
    idleRun (idleFirst none) = (some (.completed, some 0), ["After"]) ∧
    idleRun (idleFirst (some ⟨.leaveRun, some 3⟩)) = (some (.returned, some 3), []) ∧
    idleRun [.loop ⟨"Loop", "", "", false, false⟩ ⟨"[ -f loop ]", none⟩
        (idleFirst (some ⟨.leaveLoop, none⟩))] = (some (.completed, some 0), []) := by
  decide +kernel

end Executor

end Runbook
