import Runbook.Proofs.Run.Course

/-!
# The rules of runs

What a run does with a step follows from what it does inside the step, and that from what it does
with the blocks of the step. This file says so by rules, one for each way to go on, so that theorems
on runs can be inductions on how a run came about:

* `Step.blockFor`, `Occurrence.choice`: the block that a conditional or a branch goes into;
* `Activity`: a step, a block, the inside of a step, or the rounds of a loop;
* `Engine.Runs`: the rules, with the turns that each of them leaves;
* **`runs_iff`**: the rules lead to what the course of an activity is, and to nothing else.
-/

namespace Runbook

variable {σ : Type}

/-! ## 1. The block that a step goes into -/

/-- The block of a conditional by the outcome of its condition, under its label. Without an else block
there is nothing to run where the condition does not hold. -/
def Step.blockFor (holds : Bool) (thenBlock : List Step) (elseBlock : Option (List Step)) :
    String × List Step :=
  if holds then ("then", thenBlock) else ("else", elseBlock.getD [])

/-- The block of a branch by the selected value, under its label: that of the first case whose
resolved value is the selected one, or the fallback, if there is one. -/
def Step.blockOfCase (context : Context) (value : String) (fallback : Option (List Step)) :
    List (String × List Step) → String × List Step
  | [] => ("default", fallback.getD [])
  | (v, block) :: rest =>
    if Template.resolve context v = value then (Step.caseLabel value, block)
    else blockOfCase context value fallback rest

theorem Step.mem_children_of_blockFor {hd : StepHead} {c : Condition} {t : List Step}
    {el : Option (List Step)} {a : Option Action} {holds : Bool} :
    ∀ x ∈ (Step.blockFor holds t el).2, x ∈ (Step.conditional hd c t el a).children := by
  intro x hx
  cases holds with
  | true => exact Step.mem_children_then hx
  | false =>
    cases el with
    | none => cases hx
    | some el => exact Step.mem_children_else hx

/-- The chosen block is that of a case, or the fallback. -/
theorem Step.blockOfCase_cases (context : Context) (value : String)
    (fallback : Option (List Step)) (cases : List (String × List Step)) :
    (∃ entry ∈ cases, Template.resolve context entry.1 = value ∧
      Step.blockOfCase context value fallback cases = (Step.caseLabel value, entry.2)) ∨
    Step.blockOfCase context value fallback cases = ("default", fallback.getD []) := by
  induction cases with
  | nil => exact Or.inr rfl
  | cons entry rest ih =>
    obtain ⟨v, block⟩ := entry
    unfold Step.blockOfCase
    by_cases hv : Template.resolve context v = value
    · rw [if_pos hv]
      exact Or.inl ⟨(v, block), List.mem_cons_self, hv, rfl⟩
    · rw [if_neg hv]
      rcases ih with ⟨entry, he, hr⟩ | hr
      · exact Or.inl ⟨entry, List.mem_cons_of_mem _ he, hr⟩
      · exact Or.inr hr

theorem Step.mem_children_of_blockOfCase {hd : StepHead} {v : String} {context : Context}
    {value : String} {cases : List (String × List Step)} {d : Option (List Step)} :
    ∀ x ∈ (Step.blockOfCase context value d cases).2, x ∈ (Step.branch hd v cases d).children := by
  intro x hx
  rcases Step.blockOfCase_cases context value d cases with ⟨entry, he, -, hr⟩ | hr
  · rw [hr] at hx
    exact Step.mem_children_case he hx
  · rw [hr] at hx
    cases d with
    | none => cases hx
    | some d => exact Step.mem_children_default hx

/-- The block that a branch goes into where a run comes to it. -/
def Occurrence.choice (o : Occurrence σ) (selector : String) (cases : List (String × List Step))
    (fallback : Option (List Step)) : String × List Step :=
  Step.blockOfCase o.state.context ((o.state.context.get? selector).getD "") fallback cases

/-! ## 2. The rules -/

/-- What a run can be busy with: a step or a block that it comes to, a step that it has come to, or
the rounds of a loop, `left` of which it may still go when `done` of them have run the body. -/
inductive Activity (σ : Type) where
  | step (above : String) (top : Bool) (s : Step)
  | block (above : String) (top : Bool) (steps : List Step)
  | inside (o : Occurrence σ)
  | rounds (o : Occurrence σ) (c : Condition) (body : List Step) (left done : Nat)

namespace Engine

/-- **How a run goes**: inside some occurrences and from some state, an activity leaves turns, a
result and a state. -/
inductive Runs (e : Engine σ) : List (Occurrence σ) → Activity σ → RunState σ →
    List (Turn σ) → Except Signal Unit → RunState σ → Prop
  -- a block: its steps one after another, up to the first one that ends it
  | nil {around : List (Occurrence σ)} {above : String} {top : Bool} {s : RunState σ} :
      Runs e around (.block above top []) s [] (.ok ()) s
  | cons {around : List (Occurrence σ)} {above : String} {top : Bool} {x : Step}
      {rest : List Step} {s s₁ s' : RunState σ} {ts us : List (Turn σ)} {r : Except Signal Unit}
      (first : Runs e around (.step above top x) s ts (.ok ()) s₁)
      (later : Runs e around (.block above top rest) s₁ us r s') :
      Runs e around (.block above top (x :: rest)) s (ts ++ us) r s'
  | cut {around : List (Occurrence σ)} {above : String} {top : Bool} {x : Step}
      {rest : List Step} {s s' : RunState σ} {ts : List (Turn σ)} {signal : Signal}
      (first : Runs e around (.step above top x) s ts (.error signal) s') :
      Runs e around (.block above top (x :: rest)) s ts (.error signal) s'
  -- a step: the run comes to it, and goes inside unless it is turned down
  | barred {around : List (Occurrence σ)} {above : String} {top : Bool} {x : Step}
      {s s' : RunState σ} {signal : Signal}
      (h : e.perform ⟨above, top, x, s⟩ .reach s = (.error signal, s')) :
      Runs e around (.step above top x) s [⟨⟨above, top, x, s⟩, around, .reach, s⟩]
        (.error signal) s'
  | reached {around : List (Occurrence σ)} {above : String} {top : Bool} {x : Step}
      {s s₁ s' : RunState σ} {ts : List (Turn σ)} {r : Except Signal Unit}
      (h : e.perform ⟨above, top, x, s⟩ .reach s = (.ok (), s₁))
      (inner : Runs e around (.inside ⟨above, top, x, s⟩) s₁ ts r s') :
      Runs e around (.step above top x) s (⟨⟨above, top, x, s⟩, around, .reach, s⟩ :: ts) r s'
  -- inside a step: what its kind says
  | leaf {around : List (Occurrence σ)} {o : Occurrence σ} {s s' : RunState σ}
      {r : Except Signal Unit} (hk : o.step.kind.isControlFlow = false)
      (h : e.perform o .start s = (r, s')) :
      Runs e around (.inside o) s [⟨o, around, .start, s⟩] r s'
  | unjudged {around : List (Occurrence σ)} {o : Occurrence σ} {s s' : RunState σ}
      {hd : StepHead} {c : Condition} {t : List Step} {el : Option (List Step)}
      {a : Option Action} {signal : Signal} (hs : o.step = .conditional hd c t el a)
      (hj : e.evaluate c s = (.error signal, s')) :
      Runs e around (.inside o) s [⟨o, around, .judge c, s⟩] (.error signal) s'
  | stopped {around : List (Occurrence σ)} {o : Occurrence σ} {s s₁ s' : RunState σ}
      {hd : StepHead} {c : Condition} {t : List Step} {el : Option (List Step)}
      {a : Option Action} {holds : Bool} {ts : List (Turn σ)} {signal : Signal}
      (hs : o.step = .conditional hd c t el a) (hj : e.evaluate c s = (.ok holds, s₁))
      (inner : Runs e (o :: around) (.block (blockPath o.path (Step.blockFor holds t el).1) false
        (Step.blockFor holds t el).2) s₁ ts (.error signal) s') :
      Runs e around (.inside o) s (⟨o, around, .judge c, s⟩ :: ts) (.error signal) s'
  | acted {around : List (Occurrence σ)} {o : Occurrence σ} {s s₁ s₂ s' : RunState σ}
      {hd : StepHead} {c : Condition} {t : List Step} {el : Option (List Step)}
      {a : Option Action} {holds : Bool} {ts : List (Turn σ)} {r : Except Signal Unit}
      (hs : o.step = .conditional hd c t el a) (hj : e.evaluate c s = (.ok holds, s₁))
      (inner : Runs e (o :: around) (.block (blockPath o.path (Step.blockFor holds t el).1) false
        (Step.blockFor holds t el).2) s₁ ts (.ok ()) s₂)
      (ha : e.perform o (.act a) s₂ = (r, s')) :
      Runs e around (.inside o) s (⟨o, around, .judge c, s⟩ :: (ts ++ [⟨o, around, .act a, s₂⟩]))
        r s'
  | chosen {around : List (Occurrence σ)} {o : Occurrence σ} {s s' : RunState σ}
      {hd : StepHead} {v : String} {cases : List (String × List Step)} {d : Option (List Step)}
      {ts : List (Turn σ)} {r : Except Signal Unit} (hs : o.step = .branch hd v cases d)
      (inner : Runs e (o :: around) (.block (blockPath o.path (o.choice v cases d).1) false
        (o.choice v cases d).2) s ts r s') :
      Runs e around (.inside o) s ts r s'
  | looped {around : List (Occurrence σ)} {o : Occurrence σ} {s s' : RunState σ}
      {hd : StepHead} {c : Condition} {body : List Step} {ts : List (Turn σ)}
      {r : Except Signal Unit} (hs : o.step = .loop hd c body)
      (inner : Runs e around (.rounds o c body e.rounds 0) s ts r s') :
      Runs e around (.inside o) s ts r s'
  -- the rounds of a loop: the condition is judged, then the cap is looked at, then the body runs
  | tired {around : List (Occurrence σ)} {o : Occurrence σ} {c : Condition} {body : List Step}
      {done : Nat} {s : RunState σ} :
      Runs e around (.rounds o c body 0 done) s [⟨o, around, .tire, s⟩] (.error .unfinished) s
  | undecided {around : List (Occurrence σ)} {o : Occurrence σ} {c : Condition}
      {body : List Step} {left done : Nat} {s s' : RunState σ} {signal : Signal}
      (hj : e.evaluate c s = (.error signal, s')) :
      Runs e around (.rounds o c body (left + 1) done) s [⟨o, around, .judge c, s⟩]
        (.error signal) s'
  | ceased {around : List (Occurrence σ)} {o : Occurrence σ} {c : Condition} {body : List Step}
      {left done : Nat} {s s' : RunState σ} (hj : e.evaluate c s = (.ok false, s')) :
      Runs e around (.rounds o c body (left + 1) done) s [⟨o, around, .judge c, s⟩] (.ok ()) s'
  | capped {around : List (Occurrence σ)} {o : Occurrence σ} {c : Condition} {body : List Step}
      {left done : Nat} {s s₁ s' : RunState σ} {cap : Int} {r : Except Signal Unit}
      (hj : e.evaluate c s = (.ok true, s₁)) (hc : e.pastCap (done + 1) = some cap)
      (hl : e.perform o (.limit cap) s₁ = (r, s')) :
      Runs e around (.rounds o c body (left + 1) done) s
        [⟨o, around, .judge c, s⟩, ⟨o, around, .limit cap, s₁⟩] r s'
  | left {around : List (Occurrence σ)} {o : Occurrence σ} {c : Condition} {body : List Step}
      {left done : Nat} {s s₁ s' : RunState σ} {ts : List (Turn σ)}
      (hj : e.evaluate c s = (.ok true, s₁)) (hc : e.pastCap (done + 1) = none)
      (inner : Runs e (o :: around) (.block (blockPath o.path (iterationLabel (done + 1))) false
        body) s₁ ts (.error .broken) s') :
      Runs e around (.rounds o c body (left + 1) done) s (⟨o, around, .judge c, s⟩ :: ts)
        (.ok ()) s'
  | ended {around : List (Occurrence σ)} {o : Occurrence σ} {c : Condition} {body : List Step}
      {left done : Nat} {s s₁ s' : RunState σ} {ts : List (Turn σ)} {signal : Signal}
      (hj : e.evaluate c s = (.ok true, s₁)) (hc : e.pastCap (done + 1) = none)
      (inner : Runs e (o :: around) (.block (blockPath o.path (iterationLabel (done + 1))) false
        body) s₁ ts (.error signal) s') (hne : signal ≠ .broken) :
      Runs e around (.rounds o c body (left + 1) done) s (⟨o, around, .judge c, s⟩ :: ts)
        (.error signal) s'
  | again {around : List (Occurrence σ)} {o : Occurrence σ} {c : Condition} {body : List Step}
      {left done : Nat} {s s₁ s₂ s' : RunState σ} {ts us : List (Turn σ)}
      {r : Except Signal Unit} (hj : e.evaluate c s = (.ok true, s₁))
      (hc : e.pastCap (done + 1) = none)
      (inner : Runs e (o :: around) (.block (blockPath o.path (iterationLabel (done + 1))) false
        body) s₁ ts (.ok ()) s₂)
      (next : Runs e around (.rounds o c body left (done + 1)) s₂ us r s') :
      Runs e around (.rounds o c body (left + 1) done) s (⟨o, around, .judge c, s⟩ :: (ts ++ us))
        r s'

/-! ## 3. The rules and the courses -/

/-- The course of what is done inside a step. -/
def insideCourse (e : Engine σ) (around : List (Occurrence σ)) (o : Occurrence σ) :
    Course σ Unit :=
  match o.step with
  | .command _ => e.deed o around .start
  | .auth _ => e.deed o around .start
  | .conditional _ c thenBlock elseBlock action => do
    let holds ← e.judge o around c
    let block := Step.blockFor holds thenBlock elseBlock
    e.blockCourse (o :: around) (blockPath o.path block.1) false block.2
    e.deed o around (.act action)
  | .branch _ selector cases fallback =>
    let block := o.choice selector cases fallback
    e.blockCourse (o :: around) (blockPath o.path block.1) false block.2
  | .loop _ c body => e.loopCourse o around c (fun n =>
      e.blockCourse (o :: around) (blockPath o.path (iterationLabel n)) false body) e.rounds 0

/-- The course of an activity. -/
def courseOf (e : Engine σ) (around : List (Occurrence σ)) : Activity σ → Course σ Unit
  | .step above top s => e.stepCourse around above top s
  | .block above top steps => e.blockCourse around above top steps
  | .inside o => e.insideCourse around o
  | .rounds o c body left done => e.loopCourse o around c (fun n =>
      e.blockCourse (o :: around) (blockPath o.path (iterationLabel n)) false body) left done

end Engine

namespace Course

variable {α β : Type}

theorem bind_apply (m : Course σ α) (f : α → Course σ β) (s : RunState σ) :
    (m >>= f) s = match m s with
      | (ts, .ok a, s') => (ts ++ (f a s').1, (f a s').2)
      | (ts, .error signal, s') => (ts, .error signal, s') := rfl

theorem pure_apply (a : α) (s : RunState σ) : (Pure.pure a : Course σ α) s = ([], .ok a, s) := rfl

/-- A course of two parts comes to the second one, or ends in the first one with a signal. -/
theorem bind_cases {m : Course σ α} {f : α → Course σ β} {s s' : RunState σ}
    {ts : List (Turn σ)} {r : Except Signal β} (h : (m >>= f) s = (ts, r, s')) :
    (∃ us a s₁ vs, m s = (us, .ok a, s₁) ∧ f a s₁ = (vs, r, s') ∧ ts = us ++ vs) ∨
      ∃ signal, m s = (ts, .error signal, s') ∧ r = .error signal := by
  rw [bind_apply] at h
  rcases hm : m s with ⟨us, r₁, s₁⟩
  rw [hm] at h
  cases r₁ with
  | ok a =>
    obtain ⟨hts, hf⟩ := Prod.mk.inj h
    exact Or.inl ⟨us, a, s₁, (f a s₁).1, rfl, by rw [← hf], hts.symm⟩
  | error signal =>
    cases h
    exact Or.inr ⟨signal, rfl, rfl⟩

theorem bind_of_ok {m : Course σ α} {f : α → Course σ β} {s s₁ s' : RunState σ} {a : α}
    {ts us : List (Turn σ)} {r : Except Signal β} (hm : m s = (ts, .ok a, s₁))
    (hf : f a s₁ = (us, r, s')) : (m >>= f) s = (ts ++ us, r, s') := by
  rw [bind_apply, hm]
  dsimp only
  rw [hf]

theorem bind_of_error {m : Course σ α} {f : α → Course σ β} {s s' : RunState σ}
    {ts : List (Turn σ)} {signal : Signal} (hm : m s = (ts, .error signal, s')) :
    (m >>= f) s = (ts, .error signal, s') := by
  rw [bind_apply, hm]

theorem leftLoop_cases {c : Course σ Unit} {s s' : RunState σ} {ts : List (Turn σ)} {left : Bool}
    (h : c.leftLoop s = (ts, .ok left, s')) :
    c s = (ts, .ok (), s') ∧ left = false ∨ c s = (ts, .error .broken, s') ∧ left = true := by
  unfold leftLoop Run.leftLoop turns run at h
  rcases hc : c s with ⟨us, r, s₁⟩
  rw [hc] at h
  rcases r with signal | u
  · cases signal with
    | broken =>
      cases h
      exact Or.inr ⟨rfl, rfl⟩
    | halted | returned | undecided | missingVariable | raised | unfinished => cases h
  · cases h
    exact Or.inl ⟨rfl, rfl⟩

theorem leftLoop_error {c : Course σ Unit} {s s' : RunState σ} {ts : List (Turn σ)}
    {signal : Signal} (h : c.leftLoop s = (ts, .error signal, s')) :
    c s = (ts, .error signal, s') ∧ signal ≠ .broken := by
  unfold leftLoop Run.leftLoop turns run at h
  rcases hc : c s with ⟨us, r, s₁⟩
  rw [hc] at h
  rcases r with g | u
  · cases g <;> cases h <;> exact ⟨rfl, by simp⟩
  · cases h

instance : LawfulMonad (Course σ) := by
  refine LawfulMonad.mk' (Course σ) ?_ ?_ ?_
  · intro α m
    funext s
    show (m >>= fun a => Pure.pure a) s = m s
    rw [bind_apply]
    rcases m s with ⟨ts, r, s'⟩
    cases r with
    | ok a => simp only [pure_apply, List.append_nil]
    | error signal => rfl
  · intro α β a f
    funext s
    rw [bind_apply, pure_apply]
    rfl
  · intro α β γ m f g
    funext s
    rw [bind_apply, bind_apply, bind_apply]
    rcases m s with ⟨ts, r, s'⟩
    cases r with
    | error signal => rfl
    | ok a =>
      dsimp only
      rw [bind_apply]
      rcases f a s' with ⟨us, r', s''⟩
      cases r' with
      | ok b => simp only [List.append_assoc]
      | error signal => rfl

theorem leftLoop_of_ok {c : Course σ Unit} {s s' : RunState σ} {ts : List (Turn σ)}
    (h : c s = (ts, .ok (), s')) : c.leftLoop s = (ts, .ok false, s') := by
  unfold leftLoop Run.leftLoop turns run
  rw [h]

theorem leftLoop_of_broken {c : Course σ Unit} {s s' : RunState σ} {ts : List (Turn σ)}
    (h : c s = (ts, .error .broken, s')) : c.leftLoop s = (ts, .ok true, s') := by
  unfold leftLoop Run.leftLoop turns run
  rw [h]

theorem leftLoop_of_error {c : Course σ Unit} {s s' : RunState σ} {ts : List (Turn σ)}
    {signal : Signal} (h : c s = (ts, .error signal, s')) (hne : signal ≠ .broken) :
    c.leftLoop s = (ts, .error signal, s') := by
  unfold leftLoop Run.leftLoop turns run
  rw [h]
  cases signal with
  | broken => exact absurd rfl hne
  | halted | returned | undecided | missingVariable | raised | unfinished => rfl

end Course

namespace Engine

/-- The course of cases and of a fallback behind them is the course of the block that is chosen. -/
theorem casesCourse_eq (e : Engine σ) (around : List (Occurrence σ)) (path : String)
    (context : Context) (value : String) (fallback : Option (List Step))
    (cases : List (String × List Step)) :
    (e.casesCourse around path context value cases >>= fun found =>
      if found then pure ()
      else e.blockCourse around (blockPath path "default") false (fallback.getD [])) =
    e.blockCourse around (blockPath path (Step.blockOfCase context value fallback cases).1) false
      (Step.blockOfCase context value fallback cases).2 := by
  induction cases with
  | nil =>
    unfold casesCourse Step.blockOfCase
    rw [pure_bind]
    rfl
  | cons entry rest ih =>
    obtain ⟨v, block⟩ := entry
    unfold casesCourse Step.blockOfCase
    by_cases hv : Template.resolve context v = value
    · rw [if_pos hv, if_pos hv, bind_assoc]
      simp only [pure_bind, if_true, bind_pure_unit]
    · rw [if_neg hv, if_neg hv]
      exact ih

theorem deed_cases {e : Engine σ} {o : Occurrence σ} {around : List (Occurrence σ)} {d : Deed}
    {s s' : RunState σ} {ts : List (Turn σ)} {r : Except Signal Unit}
    (h : e.deed o around d s = (ts, r, s')) :
    ts = [⟨o, around, d, s⟩] ∧ e.perform o d s = (r, s') := by
  obtain ⟨hts, hp⟩ := Prod.mk.inj h
  exact ⟨hts.symm, hp⟩

theorem judge_cases {e : Engine σ} {o : Occurrence σ} {around : List (Occurrence σ)}
    {c : Condition} {s s' : RunState σ} {ts : List (Turn σ)} {r : Except Signal Bool}
    (h : e.judge o around c s = (ts, r, s')) :
    ts = [⟨o, around, .judge c, s⟩] ∧ e.evaluate c s = (r, s') := by
  obtain ⟨hts, hj⟩ := Prod.mk.inj h
  exact ⟨hts.symm, hj⟩

theorem blockCourse_nil (e : Engine σ) (around : List (Occurrence σ)) (above : String)
    (top : Bool) : e.blockCourse around above top [] = pure () := by
  unfold blockCourse
  rfl

theorem blockCourse_cons (e : Engine σ) (around : List (Occurrence σ)) (above : String)
    (top : Bool) (x : Step) (rest : List Step) : e.blockCourse around above top (x :: rest) =
      e.stepCourse around above top x >>= fun _ => e.blockCourse around above top rest := by
  rw [blockCourse]

theorem insideCourse_leaf (e : Engine σ) {around : List (Occurrence σ)} {o : Occurrence σ}
    (hk : o.step.kind.isControlFlow = false) :
    e.insideCourse around o = e.deed o around .start := by
  unfold insideCourse
  cases hs : o.step with
  | command | auth => rfl
  | conditional | branch | loop =>
    rw [hs] at hk
    cases hk

/-- **A run comes to a step and then goes inside.** -/
theorem stepCourse_eq (e : Engine σ) (around : List (Occurrence σ)) (above : String) (top : Bool)
    (x : Step) : e.stepCourse around above top x = .visit above top x fun o =>
      e.deed o around .reach >>= fun _ => e.insideCourse around o := by
  funext s
  -- an absent block is an empty one, and running that does nothing
  cases x with
  | command h => unfold stepCourse; rfl
  | auth h => unfold stepCourse; rfl
  | conditional h c t el a =>
    cases el with
    | none =>
      unfold stepCourse Course.visit insideCourse
      refine congrFun (congrArg _ (funext fun _ => congrArg _ (funext fun holds => ?_))) s
      cases holds with
      | true => rfl
      | false =>
        show _ = e.blockCourse _ _ false [] >>= _
        rw [blockCourse_nil, pure_bind]
        rfl
    | some el =>
      unfold stepCourse Course.visit insideCourse
      refine congrFun (congrArg _ (funext fun _ => congrArg _ (funext fun holds => ?_))) s
      cases holds with
      | true => rfl
      | false => rfl
  | branch h v cs d =>
    cases d with
    | none =>
      unfold stepCourse Course.visit insideCourse
      refine congrFun (congrArg _ (funext fun _ => ?_)) s
      refine Eq.trans (congrArg _ (funext fun found => ?_)) (casesCourse_eq e _ _ _ _ none cs)
      cases found with
      | true => rfl
      | false =>
        rw [if_neg (by simp), Option.getD_none, blockCourse_nil]
    | some d =>
      unfold stepCourse Course.visit insideCourse
      exact congrFun (congrArg _ (funext fun _ => casesCourse_eq e _ _ _ _ (some d) cs)) s
  | loop h c b => unfold stepCourse; rfl

/-! ## 4. Courses go by the rules -/

/-- A course that goes by the rules of an activity, from every state. -/
def Follows (e : Engine σ) (around : List (Occurrence σ)) (act : Activity σ)
    (c : Course σ Unit) : Prop :=
  ∀ s ts r s', c s = (ts, r, s') → e.Runs around act s ts r s'

variable {e : Engine σ} {around : List (Occurrence σ)}

theorem block_follows {block : List Step}
    (h : ∀ x ∈ block, ∀ around above top,
      e.Follows around (.step above top x) (e.stepCourse around above top x))
    (around : List (Occurrence σ)) (above : String) (top : Bool) :
    e.Follows around (.block above top block) (e.blockCourse around above top block) := by
  induction block with
  | nil =>
    intro s ts r s' hc
    rw [blockCourse_nil, Course.pure_apply] at hc
    cases hc
    exact .nil
  | cons x rest ih =>
    intro s ts r s' hc
    have first := h x List.mem_cons_self around above top
    rw [blockCourse_cons] at hc
    rcases Course.bind_cases hc with ⟨us, u, s₁, vs, hx, hrest, rfl⟩ | ⟨signal, hx, rfl⟩
    · exact .cons (first _ _ _ _ hx) (ih (fun y hy => h y (List.mem_cons_of_mem _ hy)) _ _ _ _ hrest)
    · exact .cut (first _ _ _ _ hx)

theorem rounds_follow {o : Occurrence σ} {c : Condition} {body : List Step}
    (h : ∀ above, e.Follows (o :: around) (.block above false body)
      (e.blockCourse (o :: around) above false body)) (left done : Nat) :
    e.Follows around (.rounds o c body left done) (e.loopCourse o around c (fun n =>
      e.blockCourse (o :: around) (blockPath o.path (iterationLabel n)) false body) left done) := by
  induction left generalizing done with
  | zero =>
    intro s ts r s' hc
    cases hc
    exact .tired
  | succ left ih =>
    intro s ts r s' hc
    unfold loopCourse at hc
    rcases Course.bind_cases hc with ⟨us, holds, s₁, vs, hd, hc, rfl⟩ | ⟨signal, hd, rfl⟩
    · obtain ⟨rfl, hj⟩ := judge_cases hd
      cases holds with
      | false =>
        cases hc
        exact .ceased hj
      | true =>
        rw [if_pos rfl] at hc
        cases hcap : e.pastCap (done + 1) with
        | some cap =>
          rw [hcap] at hc
          obtain ⟨rfl, hl⟩ := deed_cases hc
          exact .capped hj hcap hl
        | none =>
          rw [hcap] at hc
          rcases Course.bind_cases hc with ⟨us, left, s₂, vs, hl, hc, rfl⟩ | ⟨signal, hl, rfl⟩
          · rcases Course.leftLoop_cases hl with ⟨hb, rfl⟩ | ⟨hb, rfl⟩
            · rw [if_neg (by simp)] at hc
              rw [List.singleton_append]
              exact .again hj hcap (h _ _ _ _ _ hb) (ih _ _ _ _ _ hc)
            · cases hc
              rw [List.append_nil]
              exact .left hj hcap (h _ _ _ _ _ hb)
          · obtain ⟨hb, hne⟩ := Course.leftLoop_error hl
            exact .ended hj hcap (h _ _ _ _ _ hb) hne
    · obtain ⟨rfl, hj⟩ := judge_cases hd
      exact .undecided hj

theorem inside_follows {o : Occurrence σ}
    (h : ∀ above block, (∀ x ∈ block, x ∈ o.step.children) →
      e.Follows (o :: around) (.block above false block)
        (e.blockCourse (o :: around) above false block)) :
    e.Follows around (.inside o) (e.insideCourse around o) := by
  intro s ts r s' hc
  unfold insideCourse at hc
  cases hs : o.step with
  | command hd =>
    rw [hs] at hc
    obtain ⟨rfl, hp⟩ := deed_cases hc
    exact .leaf (by rw [hs]; rfl) hp
  | auth hd =>
    rw [hs] at hc
    obtain ⟨rfl, hp⟩ := deed_cases hc
    exact .leaf (by rw [hs]; rfl) hp
  | conditional hd c t el a =>
    rw [hs] at hc h
    rcases Course.bind_cases hc with ⟨us, holds, s₁, vs, hju, hrest, rfl⟩ | ⟨signal, hju, rfl⟩
    · obtain ⟨rfl, hj⟩ := judge_cases hju
      have hblock := h (blockPath o.path (Step.blockFor holds t el).1)
        (Step.blockFor holds t el).2 Step.mem_children_of_blockFor
      rcases Course.bind_cases hrest with ⟨us, u, s₂, ws, hb, hact, rfl⟩ | ⟨signal, hb, rfl⟩
      · obtain ⟨rfl, ha⟩ := deed_cases hact
        exact .acted hs hj (hblock _ _ _ _ hb) ha
      · exact .stopped hs hj (hblock _ _ _ _ hb)
    · obtain ⟨rfl, hj⟩ := judge_cases hju
      exact .unjudged hs hj
  | branch hd v cases d =>
    rw [hs] at hc h
    exact .chosen hs (h _ _ Step.mem_children_of_blockOfCase _ _ _ _ hc)
  | loop hd c body =>
    rw [hs] at hc h
    exact .looped hs (rounds_follow (fun above => h above body fun x hx =>
      Step.mem_children_body hx) _ _ _ _ _ _ hc)

/-- **The course of a step goes by the rules.** -/
theorem step_follows (x : Step) : ∀ around above top,
    e.Follows around (.step above top x) (e.stepCourse around above top x) := by
  induction x using Step.childInduction with
  | h x ih =>
    intro around above top s ts r s' hc
    rw [stepCourse_eq] at hc
    rcases Course.bind_cases hc with ⟨us, u, s₁, vs, hd, hrest, rfl⟩ | ⟨signal, hd, rfl⟩
    · obtain ⟨rfl, hp⟩ := deed_cases hd
      have hinside : e.Follows around (.inside ⟨above, top, x, s⟩) _ := inside_follows
        fun above' block hblock => block_follows (fun y hy => ih y (hblock y hy)) _ above' false
      exact .reached hp (hinside _ _ _ _ hrest)
    · obtain ⟨rfl, hp⟩ := deed_cases hd
      exact .barred hp

theorem course_follows (around : List (Occurrence σ)) (act : Activity σ) :
    e.Follows around act (e.courseOf around act) := by
  have block : ∀ steps around above top,
      e.Follows around (.block above top steps) (e.blockCourse around above top steps) :=
    fun _ => block_follows fun x _ => step_follows x
  cases act with
  | step above top x => exact step_follows x around above top
  | block above top steps => exact block steps around above top
  | inside o => exact inside_follows fun above steps _ => block steps _ above false
  | rounds o c body left done =>
    exact rounds_follow (fun above => block body _ above false) left done

/-! ## 5. The rules lead to the courses -/

theorem deed_of {o : Occurrence σ} {d : Deed} {s s' : RunState σ} {r : Except Signal Unit}
    (h : e.perform o d s = (r, s')) : e.deed o around d s = ([⟨o, around, d, s⟩], r, s') := by
  rw [← h]
  rfl

theorem judge_of {o : Occurrence σ} {c : Condition} {s s' : RunState σ} {r : Except Signal Bool}
    (h : e.evaluate c s = (r, s')) :
    e.judge o around c s = ([⟨o, around, .judge c, s⟩], r, s') := by
  rw [← h]
  rfl

/-- **By the rules an activity comes out as its course does**: by induction on the rules. -/
theorem Runs.courseOf_eq {act : Activity σ} {s s' : RunState σ} {ts : List (Turn σ)}
    {r : Except Signal Unit} (h : e.Runs around act s ts r s') :
    e.courseOf around act s = (ts, r, s') := by
  induction h with
  | nil =>
    simp only [courseOf, blockCourse_nil]
    rfl
  | cons _ _ ihx ihr =>
    simp only [courseOf, blockCourse_cons]
    exact Course.bind_of_ok ihx ihr
  | cut _ ih =>
    simp only [courseOf, blockCourse_cons]
    exact Course.bind_of_error ih
  | barred h =>
    simp only [courseOf, stepCourse_eq]
    exact Course.bind_of_error (deed_of h)
  | reached h _ ih =>
    simp only [courseOf, stepCourse_eq]
    exact Course.bind_of_ok (deed_of h) ih
  | leaf hk h =>
    simp only [courseOf, insideCourse_leaf _ hk]
    exact deed_of h
  | unjudged hs hj =>
    simp only [courseOf, insideCourse, hs]
    exact Course.bind_of_error (judge_of hj)
  | stopped hs hj _ ih =>
    simp only [courseOf, insideCourse, hs]
    exact Course.bind_of_ok (judge_of hj) (Course.bind_of_error ih)
  | acted hs hj _ ha ih =>
    simp only [courseOf, insideCourse, hs]
    exact Course.bind_of_ok (judge_of hj) (Course.bind_of_ok ih (deed_of ha))
  | chosen hs _ ih =>
    simp only [courseOf, insideCourse, hs]
    exact ih
  | looped hs _ ih =>
    simp only [courseOf, insideCourse, hs]
    exact ih
  | tired => rfl
  | undecided hj =>
    simp only [courseOf, loopCourse]
    exact Course.bind_of_error (judge_of hj)
  | ceased hj =>
    simp only [courseOf, loopCourse]
    exact Course.bind_of_ok (judge_of hj) rfl
  | capped hj hc hl =>
    simp only [courseOf, loopCourse]
    refine Course.bind_of_ok (judge_of hj) ?_
    simp only [if_true, hc]
    exact deed_of hl
  | @left around o c body left done s s₁ s' ts hj hc _ ih =>
    have hb : Course.leftLoop _ s₁ = (ts, .ok true, s') := Course.leftLoop_of_broken ih
    simp only [courseOf, loopCourse]
    refine Course.bind_of_ok (judge_of hj) ?_
    simp only [if_true, hc]
    rw [← List.append_nil ts]
    exact Course.bind_of_ok hb rfl
  | ended hj hc _ hne ih =>
    simp only [courseOf, loopCourse]
    refine Course.bind_of_ok (judge_of hj) ?_
    simp only [if_true, hc]
    exact Course.bind_of_error (Course.leftLoop_of_error ih hne)
  | again hj hc _ _ ihb ihn =>
    simp only [courseOf, loopCourse]
    refine Course.bind_of_ok (judge_of hj) ?_
    simp only [if_true, hc]
    exact Course.bind_of_ok (Course.leftLoop_of_ok ihb) ihn

/-- **The rules lead to what the course of an activity is, and to nothing else.** -/
theorem runs_iff {act : Activity σ} {s s' : RunState σ} {ts : List (Turn σ)}
    {r : Except Signal Unit} :
    e.Runs around act s ts r s' ↔ e.courseOf around act s = (ts, r, s') :=
  ⟨Runs.courseOf_eq, course_follows around act s ts r s'⟩

end Engine

end Runbook
