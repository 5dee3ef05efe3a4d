import Runbook.Proofs.Run.Bound
import Runbook.Proofs.Run.Ending
import Runbook.Proofs.Run.Execution
import Runbook.Run.Script

/-!
# How far an early end reaches

An action may leave the loop or the run. How far that gets is said here for whole runs:

* `Step.Unlooped`: a step of a tree that lies in no loop body;
* `Engine.Reaches`: what a run may be busy with, so what stands behind a step in its block;
* `Caught`, `Escapes`: a leaving of a loop ends the innermost loop around it, or the whole run;
* `Runs.fate`: every leaving of a loop comes out in one of these ways;
* `Executor.LeavesInBounds`, **`runWorkflow_leavesInBounds`**: what this says of whole runs.
-/

namespace Runbook

variable {σ : Type}

/-! ## 1. Steps outside of loops -/

/-- What a conditional does once its block has run. -/
def Step.action? : Step → Option Action
  | .command _ => none
  | .auth _ => none
  | .conditional _ _ _ _ a => a
  | .branch .. => none
  | .loop .. => none

/-- **A step of a tree that lies in no loop body.** -/
inductive Step.Unlooped (steps : List Step) : Step → Prop
  | top {s : Step} (hs : s ∈ steps) : Unlooped steps s
  | inner {p s : Step} (hp : Unlooped steps p) (hk : p.kind ≠ .loop) (hs : s ∈ p.children) :
      Unlooped steps s

/-- There is no loop among some occurrences. -/
def Clear (around : List (Occurrence σ)) : Prop := ∀ o ∈ around, o.step.kind ≠ .loop

theorem Clear.nil : Clear ([] : List (Occurrence σ)) := nofun

theorem Clear.append {inner : List (Occurrence σ)} {o : Occurrence σ} (h : Clear inner)
    (ho : o.step.kind ≠ .loop) : Clear (inner ++ [o]) :=
  List.forall_mem_append.mpr ⟨h, List.forall_mem_singleton.mpr ho⟩

/-- The innermost loop around something is the only one with no loop inside of it. -/
theorem Clear.innermost {inner inner' outer outer' : List (Occurrence σ)} {o o' : Occurrence σ}
    (h : Clear inner) (ho : o.step.kind = .loop) (h' : Clear inner') (ho' : o'.step.kind = .loop)
    (heq : inner ++ o :: outer = inner' ++ o' :: outer') : o = o' ∧ outer = outer' := by
  induction inner generalizing inner' with
  | nil =>
    cases inner' with
    | nil => exact List.cons.inj heq
    | cons p inner' =>
      obtain ⟨rfl, -⟩ := List.cons.inj heq
      exact absurd ho (h' o List.mem_cons_self)
  | cons p inner ih =>
    cases inner' with
    | nil =>
      obtain ⟨rfl, -⟩ := List.cons.inj heq
      exact absurd ho' (h p List.mem_cons_self)
    | cons p' inner' =>
      obtain ⟨-, heq⟩ := List.cons.inj heq
      exact ih (fun q hq => h q (List.mem_cons_of_mem _ hq))
        (fun q hq => h' q (List.mem_cons_of_mem _ hq)) heq

/-- Whether a turn leaves a loop. -/
def Turn.LeavesLoop (t : Turn σ) : Prop := ∃ code, t.deed = .act (some ⟨.leaveLoop, code⟩)

namespace Engine

variable {e : Engine σ} {steps : List Step} {around : List (Occurrence σ)} {act : Activity σ}
  {s s' : RunState σ} {ts : List (Turn σ)} {r : Except Signal Unit}

/-- The steps that an activity is about lie in no loop body, unless there is a loop around it. -/
def UnloopedIn (steps : List Step) (around : List (Occurrence σ)) : Activity σ → Prop
  | .step _ _ x => Clear around → Step.Unlooped steps x
  | .block _ _ block => Clear around → ∀ x ∈ block, Step.Unlooped steps x
  | .inside o => Clear around → Step.Unlooped steps o.step
  | .rounds o _ _ _ _ => o.step.kind = .loop ∧ (Clear around → Step.Unlooped steps o.step)

theorem UnloopedIn.leads {around' : List (Occurrence σ)} {act' : Activity σ}
    (h : UnloopedIn steps around act) (hl : e.Leads around act around' act') :
    UnloopedIn steps around' act' := by
  -- what is inside a step lies outside of loops if the step does and is no loop itself
  have inner : ∀ {o : Occurrence σ} {block : List Step},
      (Clear around → Step.Unlooped steps o.step) → (∀ x ∈ block, x ∈ o.step.children) →
      Clear (o :: around) → ∀ x ∈ block, Step.Unlooped steps x := by
    intro o block ho hb hc x hx
    obtain ⟨hk, hc⟩ := List.forall_mem_cons.mp hc
    exact .inner (ho hc) hk (hb x hx)
  cases hl with
  | first => exact fun hc => h hc _ List.mem_cons_self
  | later => exact fun hc x hx => h hc x (List.mem_cons_of_mem _ hx)
  | reached => exact h
  | taken hs =>
    refine inner h fun x hx => ?_
    rw [hs]
    exact Step.mem_children_of_blockFor x hx
  | chosen hs =>
    refine inner h fun x hx => ?_
    rw [hs]
    exact Step.mem_children_of_blockOfCase x hx
  | looped hs => exact ⟨by rw [hs]; rfl, h⟩
  | body => exact fun hc => absurd h.1 (hc _ List.mem_cons_self)
  | again => exact h

/-- **A turn with no loop around it is at a step that lies in no loop body.** -/
theorem Runs.unlooped (h : e.Runs around act s ts r s') (ha : UnloopedIn steps around act) :
    ∀ t ∈ ts, Clear t.around → Step.Unlooped steps t.here.step := by
  refine h.each (P := UnloopedIn steps) UnloopedIn.leads ?_ ha
  intro around act t ha ho
  rw [ho.around_eq]
  cases ho with
  | reach => exact ha
  | start => exact ha
  | decide => exact ha
  | act => exact ha
  | judge => exact ha.2
  | limit => exact ha.2
  | tire => exact ha.2

/-! ## 2. What stands behind a step -/

/-- **What a run of steps may be busy with**: it begins with their block, and goes on from activity to
activity. The steps behind a step in its block are those of the block activity that begins with it. -/
inductive Reaches (e : Engine σ) (steps : List Step) : List (Occurrence σ) → Activity σ → Prop
  | start : Reaches e steps [] (.block "" true steps)
  | leads {around around' : List (Occurrence σ)} {act act' : Activity σ}
      (h : Reaches e steps around act) (hl : e.Leads around act around' act') :
      Reaches e steps around' act'

/-- An activity without turns ends well. -/
theorem Runs.ok_of_nil (h : e.Runs around act s ts r s') : ts = [] → r = .ok () := by
  induction h with
  | nil => exact fun _ => rfl
  | cons _ _ _ ihr => exact fun hts => ihr (List.append_eq_nil_iff.mp hts).2
  | cut _ ih => exact ih
  | chosen _ _ ih => exact ih
  | looped _ _ ih => exact ih
  | barred | reached | leaf | unjudged | stopped | acted | tired | undecided | ceased | capped
  | left | ended | again => nofun

/-! ## 3. Leaving a loop -/

/-- Each way to split turns at one of them is as `G` says. -/
def Splits (G : List (Turn σ) → Turn σ → List (Turn σ) → Prop) (ts : List (Turn σ)) : Prop :=
  ∀ past t later, ts = past ++ t :: later → G past t later

namespace Splits

variable {G : List (Turn σ) → Turn σ → List (Turn σ) → Prop} {us : List (Turn σ)}

theorem nil : Splits G [] := by
  intro past t later h
  cases past <;> cases h

theorem append (h : Splits (fun past t later => G past t (later ++ us)) ts)
    (h' : Splits (fun past t later => G (ts ++ past) t later) us) : Splits G (ts ++ us) := by
  intro past t later heq
  rcases List.append_eq_append_iff.mp heq with ⟨mid, rfl, hus⟩ | ⟨mid, rfl, hlater⟩
  · exact h' mid t later hus
  · cases mid with
    | nil =>
      have hus : us = [] ++ t :: later := hlater.symm
      have hg := h' [] t later hus
      rwa [List.append_nil, List.append_nil] at hg
    | cons u mid =>
      obtain ⟨rfl, rfl⟩ := List.cons.inj hlater
      exact h past t mid rfl

theorem cons {t : Turn σ} (ht : G [] t us)
    (h : Splits (fun past u later => G ([t] ++ past) u later) us) : Splits G (t :: us) := by
  intro past u later heq
  cases past with
  | nil =>
    obtain ⟨rfl, rfl⟩ := List.cons.inj heq
    exact ht
  | cons v past =>
    obtain ⟨rfl, hus⟩ := List.cons.inj heq
    exact h past u later hus

theorem imp {G' : List (Turn σ) → Turn σ → List (Turn σ) → Prop} (h : Splits G ts)
    (hg : ∀ past t later, G past t later → G' past t later) : Splits G' ts :=
  fun past t later heq => hg past t later (h past t later heq)

end Splits

/-- **The leaving of a loop ends the innermost loop around it.** A turn came to the loop, and its
execution ends there, without a fault or a signal. The run goes on with what stands behind the loop in
its block; if no turn follows, the activity that the turns belong to ends well. -/
inductive Caught (e : Engine σ) (steps : List Step) (r : Except Signal Unit) :
    List (Turn σ) → Turn σ → List (Turn σ) → Prop
  | intro {earlier body later : List (Turn σ)} {u t : Turn σ} {inner : List (Occurrence σ)}
      {rest : List Step} (hd : u.deed = .reach) (hk : u.here.step.kind = .loop)
      (hin : t.here :: t.around = inner ++ u.here :: u.around) (hc : Clear inner)
      (hexec : u.execution e = u :: (body ++ [t]))
      (hrun : e.runStep u.here.above u.here.top u.here.step u.before = (.ok (), t.before))
      (hblock : e.Reaches steps u.around
        (.block u.here.above u.here.top (u.here.step :: rest)))
      (hnext : (e.blockCourse u.around u.here.above u.here.top rest).turns t.before <+: later)
      (hend : later = [] → r = .ok ()) : Caught e steps r (earlier ++ u :: body) t later

namespace Caught

variable {past later : List (Turn σ)} {t : Turn σ}

theorem behind (h : Caught e steps r past t later) (more : List (Turn σ)) :
    Caught e steps r (more ++ past) t later := by
  cases h with
  | intro hd hk hin hc hexec hrun hblock hnext hend =>
    rw [← List.append_assoc]
    exact .intro hd hk hin hc hexec hrun hblock hnext hend

theorem onward (h : Caught e steps r past t later) {r' : Except Signal Unit}
    {later' : List (Turn σ)} (hl : later <+: later') (hr : later' = [] → r' = .ok ()) :
    Caught e steps r' past t later' := by
  cases h with
  | intro hd hk hin hc hexec hrun hblock hnext hend =>
    exact .intro hd hk hin hc hexec hrun hblock (hnext.trans hl) hr

end Caught

/-- **The leaving of a loop ends all that is inside of the given occurrences**, with the given result;
no loop is in between. -/
structure Escapes (bound : List (Occurrence σ)) (result : Except Signal Unit)
    (r : Except Signal Unit) (s' : RunState σ) (t : Turn σ) (later : List (Turn σ)) : Prop where
  between : ∃ inner, t.here :: t.around = inner ++ bound ∧ Clear inner
  later : later = []
  result : r = result
  state : s' = t.before

/-- A step that is no loop does not stop what escapes. -/
theorem Escapes.widen {o : Occurrence σ} {result : Except Signal Unit} {t : Turn σ}
    {later : List (Turn σ)} (h : Escapes (o :: around) result r s' t later)
    (ho : o.step.kind ≠ .loop) : Escapes around result r s' t later := by
  obtain ⟨⟨inner, hin, hc⟩, hlater, hresult, hstate⟩ := h
  refine ⟨⟨inner ++ [o], ?_, hc.append ho⟩, hlater, hresult, hstate⟩
  rw [hin, List.append_assoc]
  rfl

/-- The result of a step if a loop is left that is not inside of it. -/
def hosted (x : Step) : Except Signal Unit := if x.kind = .loop then .ok () else .error .broken

theorem hosted_of_loop {x : Step} (h : x.kind = .loop) : hosted x = .ok () := if_pos h

theorem hosted_of_ne_loop {x : Step} (h : x.kind ≠ .loop) : hosted x = .error .broken := if_neg h

/-- What the leaving of a loop makes of an activity if no loop inside of it is left: the occurrences
inside of which all ends, and the result. -/
def bounds (around : List (Occurrence σ)) (s : RunState σ) :
    Activity σ → List (Occurrence σ) × Except Signal Unit
  | .step above top x => (⟨above, top, x, s⟩ :: around, hosted x)
  | .block .. => (around, .error .broken)
  | .inside o => (o :: around, hosted o.step)
  | .rounds o .. => (o :: around, .ok ())

/-- The leaving of a loop is caught by a loop inside an activity, or ends the activity. -/
def Fate (e : Engine σ) (steps : List Step)
    (bound : List (Occurrence σ) × Except Signal Unit) (r : Except Signal Unit)
    (s' : RunState σ) (past : List (Turn σ)) (t : Turn σ) (later : List (Turn σ)) : Prop :=
  t.LeavesLoop → Caught e steps r past t later ∨ Escapes bound.1 bound.2 r s' t later

namespace Fate

variable {bound : List (Occurrence σ) × Except Signal Unit} {past later : List (Turn σ)}
  {t : Turn σ}

/-- A deed that is no act leaves no loop. -/
theorem of_stays {o : Occurrence σ} {d : Deed} (hd : ∀ a, d ≠ .act a) :
    Fate e steps bound r s' past ⟨o, around, d, s⟩ later :=
  fun ⟨_, h⟩ => absurd h (hd _)

theorem behind (h : Fate e steps bound r s' past t later) (more : List (Turn σ)) :
    Fate e steps bound r s' (more ++ past) t later :=
  fun hb => (h hb).imp (·.behind more) id

/-- What leaves a loop in a block that ends well is caught there. -/
theorem onward (h : Fate e steps (around, .error .broken) (.ok ()) s past t later)
    {later' : List (Turn σ)} (hl : later <+: later') (hr : later' = [] → r = .ok ()) :
    Fate e steps bound r s' past t later' := by
  intro hb
  rcases h hb with hc | he
  · exact Or.inl (hc.onward hl hr)
  · cases he.result

/-- What escapes from a block in a step that is no loop escapes from the step. -/
theorem unhosted {o : Occurrence σ} (h : Fate e steps (around, .error .broken) r s' past t later)
    (ho : o.step.kind ≠ .loop) : Fate e steps (around, hosted o.step) r s' past t later := by
  rw [hosted_of_ne_loop ho]
  exact h

end Fate

/-- What escapes from a step that ends well is caught by that step, a loop. -/
theorem Escapes.caught {above : String} {top : Bool} {x : Step} {rest : List Step}
    {past more us : List (Turn σ)} {t : Turn σ} {s₁ : RunState σ}
    (h : Escapes (⟨above, top, x, s⟩ :: around) (hosted x) (.ok ()) s₁ t more)
    (hb : t.LeavesLoop) (hts : ts = past ++ t :: more)
    (first : e.Runs around (.step above top x) s ts (.ok ()) s₁)
    (later : e.Runs around (.block above top rest) s₁ us r s')
    (hp : e.Reaches steps around (.block above top (x :: rest))) :
    Caught e steps r past t (more ++ us) := by
  obtain ⟨⟨inner, hin, hc⟩, rfl, hresult, rfl⟩ := h
  have hk : x.kind = .loop := by
    by_contra hne
    rw [hosted_of_ne_loop hne] at hresult
    cases hresult
  have hexec : Turn.execution e ⟨⟨above, top, x, s⟩, around, .reach, s⟩ = ts := first.execution_eq
  have hrun : e.runStep above top x s = (.ok (), t.before) := by
    have hcourse : e.stepCourse around above top x s = (ts, .ok (), t.before) := first.courseOf_eq
    rw [← stepCourse_run e x around]
    unfold Course.run
    rw [hcourse]
  cases first with
  | reached hr inner' =>
    cases past with
    | nil =>
      obtain ⟨rfl, -⟩ := List.cons.inj hts
      obtain ⟨code, hd⟩ := hb
      cases hd
    | cons u body =>
      obtain ⟨rfl, rfl⟩ := List.cons.inj hts
      have hnext : (e.blockCourse around above top rest).turns t.before <+: us :=
        ⟨[], by rw [later.block_turns, List.append_nil]⟩
      rw [← List.nil_append (_ :: body)]
      exact .intro rfl hk hin hc hexec hrun hp hnext later.ok_of_nil

/-- **Every leaving of a loop ends the innermost loop around it, or all of an activity.** -/
theorem Runs.fate (h : e.Runs around act s ts r s') : e.Reaches steps around act →
    Splits (Fate e steps (bounds around s act) r s') ts := by
  -- on how the run came about; what a loop inside catches stays caught, and what escapes from the
  -- inside of a step escapes further until a loop is left
  induction h with
  | nil => exact fun _ => .nil
  | cons first later ihx ihr =>
    intro hp
    refine .append ?_ ((ihr (hp.leads .later)).imp fun _ _ _ hf => hf.behind _)
    intro past t more hts hb
    rcases ihx (hp.leads .first) past t more hts hb with hc | he
    · exact Or.inl (hc.onward (List.prefix_append _ _) fun hn =>
        later.ok_of_nil (List.append_eq_nil_iff.mp hn).2)
    · exact Or.inl (he.caught hb hts first later hp)
  | @cut around above top x rest s s' ts signal first ih =>
    intro hp
    refine (ih (hp.leads .first)).imp fun past t later hf hb => ?_
    refine (hf hb).imp id fun he => ?_
    -- a loop would have caught it and ended well
    have hresult : (.error signal : Except Signal Unit) = hosted x := he.result
    have hk : x.kind ≠ .loop := by
      intro hk
      rw [hosted_of_loop hk] at hresult
      cases hresult
    rw [hosted_of_ne_loop hk] at hresult
    exact { he.widen hk with result := hresult }
  | barred | leaf | unjudged | tired | undecided | ceased =>
    exact fun _ => .cons (.of_stays nofun) .nil
  | capped => exact fun _ => .cons (.of_stays nofun) (.cons (.of_stays nofun) .nil)
  | reached _ _ ih =>
    exact fun hp => .cons (.of_stays nofun)
      ((ih (hp.leads .reached)).imp fun _ _ _ hf => hf.behind _)
  | stopped hs _ _ ih =>
    exact fun hp => .cons (.of_stays nofun) ((ih (hp.leads (.taken hs))).imp fun _ _ _ hf =>
      (hf.unhosted (by rw [hs]; nofun)).behind _)
  | @acted around o s s₁ s₂ s' hd c t el a holds ts r hs hj inner ha ih =>
    intro hp
    have hk : o.step.kind ≠ .loop := by
      rw [hs]
      nofun
    refine .cons (.of_stays nofun) (.append ?_ (.cons ?_ .nil))
    · exact (ih (hp.leads (.taken hs))).imp fun _ _ _ hf =>
        (hf.onward (List.prefix_append _ _) fun hn => by simp at hn).behind _
    · -- the conditional itself leaves the loop
      rintro ⟨code, hd⟩
      cases hd
      cases ha
      exact Or.inr ⟨⟨[], rfl, .nil⟩, rfl, (hosted_of_ne_loop hk).symm, rfl⟩
  | chosen hs _ ih =>
    exact fun hp => (ih (hp.leads (.chosen hs))).imp fun _ _ _ hf =>
      hf.unhosted (by rw [hs]; nofun)
  | @looped around o s s' hd c body ts r hs inner ih =>
    intro hp
    have hbound : bounds around s (.inside o) = (o :: around, .ok ()) :=
      congrArg (Prod.mk _) (hosted_of_loop (by rw [hs]; rfl))
    rw [hbound]
    exact ih (hp.leads (.looped hs))
  | left _ hc _ ih =>
    refine fun hp => .cons (.of_stays nofun) ((ih (hp.leads (.body hc))).imp fun _ _ _ hf hb => ?_)
    -- here the loop itself is left
    rcases hf hb with hcaught | he
    · exact Or.inl ((hcaught.onward List.prefix_rfl fun _ => rfl).behind _)
    · exact Or.inr { he with result := rfl }
  | ended _ hc _ hne ih =>
    refine fun hp => .cons (.of_stays nofun) ((ih (hp.leads (.body hc))).imp fun _ _ _ hf hb => ?_)
    rcases hf hb with hcaught | he
    · exact Or.inl (hcaught.behind _)
    · exact absurd (Except.error.inj he.result) hne
  | again _ hc _ next ihb ihn =>
    intro hp
    refine .cons (.of_stays nofun) (.append ?_ ?_)
    · exact (ihb (hp.leads (.body hc))).imp fun _ _ _ hf =>
        (hf.onward (List.prefix_append _ _) fun hn =>
          next.ok_of_nil (List.append_eq_nil_iff.mp hn).2).behind _
    · exact (ihn (hp.leads (.again hc))).imp fun _ _ _ hf => (hf.behind _).behind _

/-! ## 4. Where signals come from -/

/-- Only a conditional that leaves the loop gives this signal, and does nothing else. -/
theorem act_of_broken {o : Occurrence σ} {d : Deed}
    (h : e.perform o d s = (.error .broken, s')) :
    (∃ code, d = .act (some ⟨.leaveLoop, code⟩)) ∧ s' = s := by
  cases does_of_perform h with
  | unanswered _ _ _ _ _ hs => cases hs
  | started _ _ _ _ _ _ _ _ hr =>
    cases hr with
    | well _ _ hr => cases hr _ rfl
  | unjudged _ _ _ hs => rcases hs with hs | ⟨error, hs⟩ <;> cases hs
  | leavesLoop code => exact ⟨⟨code, rfl⟩, rfl⟩

/-- Only a conditional that leaves the run gives this signal, and does nothing else. -/
theorem act_of_returned {o : Occurrence σ} {d : Deed} {code : Option Int}
    (h : e.perform o d s = (.error (.returned code), s')) :
    d = .act (some ⟨.leaveRun, code⟩) ∧ s' = s := by
  cases does_of_perform h with
  | unanswered _ _ _ _ _ hs => cases hs
  | started _ _ _ _ _ _ _ _ hr =>
    cases hr with
    | well _ _ hr => cases hr _ rfl
  | unjudged _ _ _ hs => rcases hs with hs | ⟨error, hs⟩ <;> cases hs
  | leavesRun => exact ⟨rfl, rfl⟩

/-- Judging a condition leaves no loop. -/
theorem evaluate_ne_broken {c : Condition} : e.evaluate c s ≠ (.error .broken, s') := by
  intro h
  obtain ⟨world, ⟨holds, hv⟩ | ⟨signal, hv, hs⟩⟩ := evaluate_cases e c s
  · cases congrArg Prod.fst (hv.symm.trans h)
  · cases congrArg Prod.fst (hv.symm.trans h)
    rcases hs with hs | ⟨error, hs⟩ <;> cases hs

/-- The rounds of a loop do not end by leaving a loop. -/
theorem Runs.rounds_ne_broken {o : Occurrence σ} {c : Condition} {body : List Step}
    {left done : Nat} (h : e.Runs around (.rounds o c body left done) s ts r s') :
    r ≠ .error .broken := by
  generalize ha : Activity.rounds o c body left done = act at h
  induction h generalizing left done with
  | nil | cons | cut | barred | reached | leaf | unjudged | stopped | acted | chosen | looped =>
    cases ha
  | tired | ceased | left => nofun
  | undecided hj =>
    rintro hb
    cases hb
    exact evaluate_ne_broken hj
  | capped _ _ hl =>
    rintro rfl
    obtain ⟨⟨code, hd⟩, -⟩ := act_of_broken hl
    cases hd
  | ended _ _ _ hne => exact fun hb => hne (Except.error.inj hb)
  | again _ _ _ _ _ ih =>
    cases ha
    exact ih rfl

/-- **No leaving of a loop gets out of a loop step.** -/
theorem loop_ne_broken (e : Engine σ) (hd : StepHead) (c : Condition) (body : List Step)
    (above : String) (top : Bool) (s : RunState σ) :
    (e.runStep above top (.loop hd c body) s).1 ≠ .error .broken := by
  obtain ⟨ts, r, s', hc⟩ : ∃ ts r s', e.stepCourse [] above top (.loop hd c body) s = (ts, r, s') :=
    ⟨_, _, _, rfl⟩
  have h : e.Runs [] (.step above top (.loop hd c body)) s ts r s' := runs_iff.mpr hc
  rw [← stepCourse_run e _ []]
  unfold Course.run
  rw [hc]
  cases h with
  | barred hp =>
    rintro hb
    cases hb
    obtain ⟨⟨code, hd⟩, -⟩ := act_of_broken hp
    cases hd
  | reached hp inner =>
    cases inner with
    | leaf hk => cases hk
    | unjudged hs | stopped hs | acted hs | chosen hs => cases hs
    | looped hs inner => exact inner.rounds_ne_broken

end Engine

/-! ## 5. Whole runs -/

namespace Executor

variable {x : Executor σ} {w : Workflow} {r : RunRequest} {world : σ}

/-- **A turn ends a loop that a turn before it has come to**: it is the last turn of that execution, the
loop step ends well, and what stands behind the step in its block follows. If nothing follows at all, the
run has come to its end. -/
structure EndsLoop (x : Executor σ) (w : Workflow) (r : RunRequest) (world : σ)
    (past : List (Turn σ)) (t : Turn σ) (later : List (Turn σ)) (u : Turn σ) : Prop where
  reach : u.deed = .reach
  execution : ∃ earlier body, past = earlier ++ u :: body ∧
    u.execution (x.engineOf w r world) = u :: (body ++ [t])
  result : (x.engineOf w r world).runStep u.here.above u.here.top u.here.step u.before =
    (.ok (), t.before)
  onward : ∃ rest, (x.engineOf w r world).Reaches w.steps u.around
      (.block u.here.above u.here.top (u.here.step :: rest)) ∧
    ((x.engineOf w r world).blockCourse u.around u.here.above u.here.top rest).turns t.before <+:
      later
  ending : later = [] → x.runWorkflow w r world =
    (.reported (reportOf w t.before .completed (some 0) none), t.before)

/-- **A turn breaks off a run**: the last one, at a conditional that leaves the loop and lies in no loop
body. -/
structure BreaksOff (x : Executor σ) (w : Workflow) (r : RunRequest) (world : σ) (t : Turn σ) :
    Prop where
  last : ∃ past, x.turns w r world = past ++ [t]
  action : ∃ code, t.deed = .act (some ⟨.leaveLoop, code⟩) ∧
    t.here.step.action? = some ⟨.leaveLoop, code⟩
  unlooped : Step.Unlooped w.steps t.here.step
  clear : Clear t.around

/-- **The leaving of a loop or of the run reaches as far as it should.**

* `loops`: no leaving of a loop gets out of a loop step;
* `caught`: the leaving of a loop ends the innermost loop around it, and the run goes on behind that;
* `uncaught`: with no loop around it, it ends the run, which is reported as broken off;
* `broken`: a run that is broken off is so by a conditional that lies in no loop body;
* `unbroken`: without such conditionals no run is broken off;
* `returned`: a run that returns ends with a conditional that leaves the run with the reported code,
  behind which nothing happens;
* `leaves`: wherever a conditional leaves the run, the run ends there and is reported so. -/
structure LeavesInBounds (x : Executor σ) (w : Workflow) (r : RunRequest) (world : σ) : Prop where
  loops : ∀ hd c body above top s,
    ((x.engineOf w r world).runStep above top (.loop hd c body) s).1 ≠ .error .broken
  caught : ∀ past t later, x.turns w r world = past ++ t :: later → t.LeavesLoop →
    ∀ inner o outer, t.around = inner ++ o :: outer → Clear inner → o.step.kind = .loop →
      ∃ u, u.here = o ∧ u.around = outer ∧ x.EndsLoop w r world past t later u
  uncaught : ∀ past t later, x.turns w r world = past ++ t :: later → t.LeavesLoop →
    Clear t.around → later = [] ∧ x.runWorkflow w r world =
      (.reported (reportOf w t.before .broken (some 0) none), t.before)
  broken : ∀ report ∈ (x.runWorkflow w r world).1.report?, report.status = .broken →
    ∃ t, x.BreaksOff w r world t ∧ report = reportOf w t.before .broken (some 0) none
  unbroken : (∀ s, Step.Unlooped w.steps s → ∀ code, s.action? ≠ some ⟨.leaveLoop, code⟩) →
    ∀ report ∈ (x.runWorkflow w r world).1.report?, report.status ≠ .broken
  returned : ∀ report ∈ (x.runWorkflow w r world).1.report?, report.status = .returned →
    ∃ past t, x.turns w r world = past ++ [t] ∧
      t.deed = .act (some ⟨.leaveRun, report.exitCode⟩) ∧ t.here.step ∈ w.allSteps ∧
      t.here.step.action? = some ⟨.leaveRun, report.exitCode⟩ ∧
      (x.runWorkflow w r world).2 = t.before ∧
      report = reportOf w t.before .returned report.exitCode none
  leaves : ∀ past t later, x.turns w r world = past ++ t :: later → ∀ code,
    t.deed = .act (some ⟨.leaveRun, code⟩) → later = [] ∧ x.runWorkflow w r world =
      (.reported (reportOf w t.before .returned code none), t.before)

/-- A turn that acts is at a conditional with that action. -/
theorem action_of_turn {t : Turn σ} (ht : t ∈ x.turns w r world) {a : Option Action}
    (hd : t.deed = .act a) : t.here.step.action? = a ∧ t.here.step.kind ≠ .loop := by
  have hp := (place_of_turn ht).2
  rw [hd] at hp
  cases hp with
  | act h c th el a hs =>
    rw [hs]
    exact ⟨rfl, nofun⟩

/-- A turn that leaves a loop gives that signal and does nothing else. -/
theorem perform_of_leavesLoop {e : Engine σ} {t : Turn σ} (hb : t.LeavesLoop) :
    e.perform t.here t.deed t.before = (.error .broken, t.before) := by
  obtain ⟨code, hd⟩ := hb
  rw [hd]
  rfl

/-- **What becomes of the leaving of a loop in a run.** -/
theorem fate_of_turn {past later : List (Turn σ)} {t : Turn σ}
    (hts : x.turns w r world = past ++ t :: later) (hb : t.LeavesLoop) :
    ∃ approved s result s', x.opening w r world = .begun approved s ∧
      (x.engine approved).runBlock "" true w.steps s = (result, s') ∧
      (Engine.Caught (x.engineOf w r world) w.steps result past t later ∨
        Engine.Escapes [] (.error .broken) result s' t later) := by
  obtain ⟨approved, s, hop, -⟩ := x.begins_of_turn w r world (t := t) (by simp [hts])
  exact ⟨approved, s, _, _, hop, rfl, (runs_of_begun hop).fate .start past t later hts hb⟩

/-- A run that ends well behind the leaving of a loop ends there. -/
theorem completed_of_leavesLoop {past : List (Turn σ)} {t : Turn σ} {approved : Bool}
    {s s' : RunState σ} (hts : x.turns w r world = past ++ [t]) (hb : t.LeavesLoop)
    (hop : x.opening w r world = .begun approved s)
    (hr : (x.engine approved).runBlock "" true w.steps s = (.ok (), s')) :
    x.runWorkflow w r world =
      (.reported (reportOf w t.before .completed (some 0) none), t.before) := by
  have hchain := (turns_of_begun hop).1
  rw [hts, hr] at hchain
  have hstate : s' = t.before := by
    have hp' := perform_of_leavesLoop (e := x.engineOf w r world) hb
    obtain ⟨o, around, d, before⟩ := t
    cases hchain.cut.2 with
    | next hp _ rest =>
      cases rest
      exact congrArg Prod.snd (hp.symm.trans hp')
  rw [runWorkflow_of_begun hop hr, hstate]
  rfl

/-- **The leaving of a loop ends the innermost loop around it.** -/
theorem endsLoop_of_turn {past later : List (Turn σ)} {t : Turn σ}
    {inner outer : List (Occurrence σ)} {o : Occurrence σ}
    (hts : x.turns w r world = past ++ t :: later) (hb : t.LeavesLoop)
    (hin : t.around = inner ++ o :: outer) (hc : Clear inner) (hk : o.step.kind = .loop) :
    ∃ u, u.here = o ∧ u.around = outer ∧ x.EndsLoop w r world past t later u := by
  have ht : t ∈ x.turns w r world := by simp [hts]
  obtain ⟨code, hd⟩ := id hb
  have hhere : Clear (t.here :: inner) :=
    List.forall_mem_cons.mpr ⟨(action_of_turn ht hd).2, hc⟩
  have hsplit : t.here :: t.around = (t.here :: inner) ++ o :: outer := by
    rw [hin]
    rfl
  obtain ⟨approved, s, result, s', hop, hr, hcaught | he⟩ := fate_of_turn hts hb
  · cases hcaught with
    | @intro earlier body _ u _ _ rest hreach hk' hin' hc' hexec hrun hblock hnext hend =>
      obtain ⟨rfl, rfl⟩ := hhere.innermost hk hc' hk' (hsplit.symm.trans hin')
      refine ⟨u, rfl, rfl, hreach, ⟨earlier, body, rfl, hexec⟩, hrun, ⟨rest, hblock, hnext⟩, ?_⟩
      rintro rfl
      rw [hend rfl] at hr
      exact completed_of_leavesLoop hts hb hop hr
  · obtain ⟨inner', hin', hc'⟩ := he.between
    rw [List.append_nil, hsplit] at hin'
    rw [← hin'] at hc'
    exact absurd hk (hc' o (List.mem_append_right _ List.mem_cons_self))

/-- The leaving of a loop with no loop around it ends the run. -/
theorem endsIn_of_clear {past later : List (Turn σ)} {t : Turn σ}
    (hts : x.turns w r world = past ++ t :: later) (hb : t.LeavesLoop) (hc : Clear t.around) :
    later = [] ∧ x.EndsIn w r world .broken t.before := by
  have ht : t ∈ x.turns w r world := by simp [hts]
  obtain ⟨code, hd⟩ := id hb
  obtain ⟨approved, s, result, s', hop, hr, hcaught | he⟩ := fate_of_turn hts hb
  · cases hcaught with
    | @intro _ _ _ u _ _ _ _ hk hin =>
      have hmem : u.here ∈ t.here :: t.around := by
        rw [hin]
        exact List.mem_append_right _ List.mem_cons_self
      rcases List.mem_cons.mp hmem with heq | hmem
      · rw [heq] at hk
        exact absurd hk (action_of_turn ht hd).2
      · exact absurd hk (hc _ hmem)
  · rw [he.result, he.state] at hr
    exact ⟨he.later, approved, s, hop, hr⟩

/-- A turn by which a run ends broken off has no loop around it: one that catches it would have the run
end well. -/
theorem clear_of_endsIn {past : List (Turn σ)} {t : Turn σ} {s' : RunState σ}
    (h : x.EndsIn w r world .broken s') (hts : x.turns w r world = past ++ [t])
    (hb : t.LeavesLoop) : Clear t.around := by
  obtain ⟨approved, s, result, s', hop, hr, hcaught | he⟩ := fate_of_turn hts hb
  · cases hcaught with
    | intro _ _ _ _ _ _ _ _ hend =>
      obtain ⟨approved', s₀, hop', hr'⟩ := h
      cases hop.symm.trans hop'
      rw [hend rfl] at hr
      cases congrArg Prod.fst (hr.symm.trans hr')
  · obtain ⟨inner, hin, hc⟩ := he.between
    rw [List.append_nil] at hin
    rw [← hin] at hc
    exact fun o ho => hc o (List.mem_cons_of_mem _ ho)

/-- **A run is broken off by a conditional that lies in no loop body.** -/
theorem breaksOff_of_broken {report : RunReport}
    (h : report ∈ (x.runWorkflow w r world).1.report?) (hs : report.status = .broken) :
    ∃ t, x.BreaksOff w r world t ∧ report = reportOf w t.before .broken (some 0) none := by
  obtain ⟨s', hends⟩ := endsIn_of_broken h hs
  obtain ⟨past, t, hts, hp⟩ := hends.last_turn
  obtain ⟨⟨code, hd⟩, rfl⟩ := Engine.act_of_broken hp
  have ht : t ∈ x.turns w r world := by simp [hts]
  have hclear := clear_of_endsIn hends hts ⟨code, hd⟩
  have hsteps : Engine.UnloopedIn w.steps [] (.block "" true w.steps : Activity σ) :=
    fun _ y hy => .top hy
  obtain ⟨approved, s, hop, -⟩ := x.begins_of_turn w r world ht
  rw [hends.run_eq] at h
  exact ⟨t, ⟨⟨past, hts⟩, ⟨code, hd, (action_of_turn ht hd).1⟩,
    (runs_of_begun hop).unlooped hsteps t ht hclear, hclear⟩, (Option.some.inj h).symm⟩

/-- **Leaving a loop or the run stays in bounds.** -/
theorem runWorkflow_leavesInBounds (x : Executor σ) (w : Workflow) (r : RunRequest) (world : σ) :
    x.LeavesInBounds w r world where
  loops := Engine.loop_ne_broken _
  caught _ _ _ hts hb _ _ _ hin hc hk := endsLoop_of_turn hts hb hin hc hk
  uncaught past t later hts hb hc := by
    obtain ⟨hlater, hends⟩ := endsIn_of_clear hts hb hc
    exact ⟨hlater, hends.run_eq⟩
  broken _ h hs := breaksOff_of_broken h hs
  unbroken hnone report h hs := by
    obtain ⟨t, ht, -⟩ := breaksOff_of_broken h hs
    obtain ⟨code, -, ha⟩ := ht.action
    exact hnone _ ht.unlooped code ha
  returned report h hs := by
    obtain ⟨s', hends⟩ := endsIn_of_returned h hs
    obtain ⟨past, t, hts, hp⟩ := hends.last_turn
    obtain ⟨hd, rfl⟩ := Engine.act_of_returned hp
    have ht : t ∈ x.turns w r world := by simp [hts]
    have hrun := hends.run_eq
    rw [hrun] at h
    exact ⟨past, t, hts, hd, (place_of_turn ht).1, (action_of_turn ht hd).1,
      congrArg Prod.snd hrun, (Option.some.inj h).symm⟩
  leaves past t later hts code hd := by
    have hp : (x.engineOf w r world).perform t.here t.deed t.before =
        (.error (.returned code), t.before) := by
      rw [hd]
      rfl
    obtain ⟨hlater, hends⟩ := endsIn_of_turn hts hp nofun
    exact ⟨hlater, hends.run_eq⟩

-- a conditional in the inner one of two loops leaves that one, and the outer one goes on
example :
    let x : Executor Script := ⟨Script.world true true, ⟨1000, 3, [], [], []⟩, some 5, 0, false⟩
    let stop : Step := .conditional ⟨"Stop", "", "", false, false⟩ ⟨"[ -f stop ]", none⟩ [] none
      (some ⟨.leaveLoop, none⟩)
    let inner : Step := .loop ⟨"Inner", "", "", false, false⟩ ⟨"[ -f inner ]", none⟩
      [stop, .command ⟨"Skipped", "", "no", false, false⟩]
    let outer : Step := .loop ⟨"Outer", "", "", false, false⟩ ⟨"[ -f outer ]", none⟩
      [inner, .command ⟨"After", "", "yes", false, false⟩]
    let world : Script := ⟨[], [("[ -f outer ]", [.decided true, .decided true]),
      ("*", [.decided true, .decided true, .decided true, .decided true])], [], []⟩
    let run := x.runWorkflow ⟨"leave", "", [outer], [], [], [], 0, none, 0⟩
      ⟨none, [], some [], false⟩ world
    run.2.trace.map (·.name) = ["Outer/loop[1]/After", "Outer/loop[2]/After"] ∧
      run.1.report?.map (·.status) = some .completed := by
  decide +kernel

end Executor

end Runbook
