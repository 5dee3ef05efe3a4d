import Runbook.Proofs.Run.Opening
import Runbook.Proofs.Run.Rules

/-!
# Executions

Each time a run comes to a step, it executes it. What it does there is an unbroken part of its turns,
and the executions of the steps of a tree lie in each other as the steps do:

* `Engine.Leads`, `Engine.Own`: the activities that one goes through, and the turns that are its own;
* `Runs.each`: what is handed on from activity to activity holds at every turn;
* `Turn.execution`: the turns from one that comes to a step to the end of what it begins;
* `Runs.unfolds`: every turn that comes to a step begins an execution of the step;
* `Runs.within`: a turn at or inside a step is part of an execution of the step;
* `Iterations`, `LoopEnd`, **`execution_of_loop`**: an execution of a loop goes through iterations with
  the numbers 1, 2, 3 and so on, and then ends.
-/

namespace Runbook

variable {σ : Type}

namespace Engine

variable {e : Engine σ} {around : List (Occurrence σ)} {act : Activity σ} {s s' : RunState σ}
  {ts : List (Turn σ)} {r : Except Signal Unit}

/-! ## 1. From activity to activity -/

/-- An activity, inside some occurrences, goes through another one. -/
inductive Leads (e : Engine σ) (around : List (Occurrence σ)) :
    Activity σ → List (Occurrence σ) → Activity σ → Prop
  | first {above : String} {top : Bool} {x : Step} {rest : List Step} :
      Leads e around (.block above top (x :: rest)) around (.step above top x)
  | later {above : String} {top : Bool} {x : Step} {rest : List Step} :
      Leads e around (.block above top (x :: rest)) around (.block above top rest)
  | reached {above : String} {top : Bool} {x : Step} {s : RunState σ} :
      Leads e around (.step above top x) around (.inside ⟨above, top, x, s⟩)
  | taken {o : Occurrence σ} {hd : StepHead} {c : Condition} {t : List Step}
      {el : Option (List Step)} {a : Option Action} {holds : Bool}
      (hs : o.step = .conditional hd c t el a) :
      Leads e around (.inside o) (o :: around)
        (.block (blockPath o.path (Step.blockFor holds t el).1) false (Step.blockFor holds t el).2)
  | chosen {o : Occurrence σ} {hd : StepHead} {v : String} {cases : List (String × List Step)}
      {d : Option (List Step)} (hs : o.step = .branch hd v cases d) :
      Leads e around (.inside o) (o :: around)
        (.block (blockPath o.path (o.choice v cases d).1) false (o.choice v cases d).2)
  | looped {o : Occurrence σ} {hd : StepHead} {c : Condition} {body : List Step}
      (hs : o.step = .loop hd c body) :
      Leads e around (.inside o) around (.rounds o c body e.rounds 0)
  | body {o : Occurrence σ} {c : Condition} {body : List Step} {left done : Nat}
      (hc : e.pastCap (done + 1) = none) :
      Leads e around (.rounds o c body (left + 1) done) (o :: around)
        (.block (blockPath o.path (iterationLabel (done + 1))) false body)
  | again {o : Occurrence σ} {c : Condition} {body : List Step} {left done : Nat}
      (hc : e.pastCap (done + 1) = none) :
      Leads e around (.rounds o c body (left + 1) done) around (.rounds o c body left (done + 1))

/-- A turn that an activity takes itself. -/
inductive Own (e : Engine σ) (around : List (Occurrence σ)) : Activity σ → Turn σ → Prop
  | reach {above : String} {top : Bool} {x : Step} {s : RunState σ} :
      Own e around (.step above top x) ⟨⟨above, top, x, s⟩, around, .reach, s⟩
  | start {o : Occurrence σ} {s : RunState σ} (hk : o.step.kind.isControlFlow = false) :
      Own e around (.inside o) ⟨o, around, .start, s⟩
  | decide {o : Occurrence σ} {s : RunState σ} {hd : StepHead} {c : Condition} {t : List Step}
      {el : Option (List Step)} {a : Option Action} (hs : o.step = .conditional hd c t el a) :
      Own e around (.inside o) ⟨o, around, .judge c, s⟩
  | act {o : Occurrence σ} {s : RunState σ} {hd : StepHead} {c : Condition} {t : List Step}
      {el : Option (List Step)} {a : Option Action} (hs : o.step = .conditional hd c t el a) :
      Own e around (.inside o) ⟨o, around, .act a, s⟩
  | judge {o : Occurrence σ} {s : RunState σ} {c : Condition} {body : List Step}
      {left done : Nat} : Own e around (.rounds o c body left done) ⟨o, around, .judge c, s⟩
  | limit {o : Occurrence σ} {s : RunState σ} {c : Condition} {body : List Step}
      {left done : Nat} {cap : Int} (hc : e.pastCap (done + 1) = some cap) :
      Own e around (.rounds o c body left done) ⟨o, around, .limit cap, s⟩
  | tire {o : Occurrence σ} {s : RunState σ} {c : Condition} {body : List Step} {done : Nat} :
      Own e around (.rounds o c body 0 done) ⟨o, around, .tire, s⟩

theorem Own.around_eq {t : Turn σ} (h : e.Own around act t) : t.around = around := by
  cases h <;> rfl

/-- **What activities hand on to those that they go through, and what it says of the turns of an
activity itself, holds of all its turns.** -/
theorem Runs.each {P : List (Occurrence σ) → Activity σ → Prop} {Q : Turn σ → Prop}
    (hand : ∀ {around around' act act'}, P around act → e.Leads around act around' act' →
      P around' act')
    (own : ∀ {around act t}, P around act → e.Own around act t → Q t)
    (h : e.Runs around act s ts r s') : P around act → ∀ t ∈ ts, Q t := by
  induction h with
  | nil => exact fun _ t ht => absurd ht List.not_mem_nil
  | cons _ _ ihx ihr =>
    intro hp
    exact List.forall_mem_append.mpr ⟨ihx (hand hp .first), ihr (hand hp .later)⟩
  | cut _ ih => exact fun hp => ih (hand hp .first)
  | barred => exact fun hp => List.forall_mem_singleton.mpr (own hp .reach)
  | reached _ _ ih =>
    exact fun hp => List.forall_mem_cons.mpr ⟨own hp .reach, ih (hand hp .reached)⟩
  | leaf hk => exact fun hp => List.forall_mem_singleton.mpr (own hp (.start hk))
  | unjudged hs => exact fun hp => List.forall_mem_singleton.mpr (own hp (.decide hs))
  | stopped hs _ _ ih =>
    exact fun hp => List.forall_mem_cons.mpr ⟨own hp (.decide hs), ih (hand hp (.taken hs))⟩
  | acted hs _ _ _ ih =>
    intro hp
    exact List.forall_mem_cons.mpr ⟨own hp (.decide hs), List.forall_mem_append.mpr
      ⟨ih (hand hp (.taken hs)), List.forall_mem_singleton.mpr (own hp (.act hs))⟩⟩
  | chosen hs _ ih => exact fun hp => ih (hand hp (.chosen hs))
  | looped hs _ ih => exact fun hp => ih (hand hp (.looped hs))
  | tired => exact fun hp => List.forall_mem_singleton.mpr (own hp .tire)
  | undecided | ceased => exact fun hp => List.forall_mem_singleton.mpr (own hp .judge)
  | capped _ hc =>
    exact fun hp => List.forall_mem_cons.mpr
      ⟨own hp .judge, List.forall_mem_singleton.mpr (own hp (.limit hc))⟩
  | left _ hc _ ih =>
    exact fun hp => List.forall_mem_cons.mpr ⟨own hp .judge, ih (hand hp (.body hc))⟩
  | ended _ hc _ _ ih =>
    exact fun hp => List.forall_mem_cons.mpr ⟨own hp .judge, ih (hand hp (.body hc))⟩
  | again _ hc _ _ ihb ihn =>
    intro hp
    exact List.forall_mem_cons.mpr ⟨own hp .judge, List.forall_mem_append.mpr
      ⟨ihb (hand hp (.body hc)), ihn (hand hp (.again hc))⟩⟩

/-- The turns of an activity are inside the occurrences around it. -/
theorem Runs.around_suffix (h : e.Runs around act s ts r s') : ∀ t ∈ ts, around <:+ t.around := by
  refine h.each (P := fun a _ => around <:+ a) ?_ ?_ List.suffix_rfl
  · intro a a' act act' ha hl
    cases hl with
    | first | later | reached | looped | again => exact ha
    | taken | chosen | body => exact ha.trans (List.suffix_cons _ _)
  · intro a act t ha ho
    rw [ho.around_eq]
    exact ha

end Engine

/-! ## 2. Executions -/

/-- What a run does at a step, from a turn that comes to it. -/
def Turn.execution (e : Engine σ) (t : Turn σ) : List (Turn σ) :=
  (e.stepCourse t.around t.here.above t.here.top t.here.step).turns t.here.state

namespace Engine

variable {e : Engine σ} {around : List (Occurrence σ)} {act : Activity σ} {s s' : RunState σ}
  {ts : List (Turn σ)} {r : Except Signal Unit}

/-- An execution goes by the rules. -/
theorem runs_execution (e : Engine σ) (t : Turn σ) : ∃ r s',
    e.Runs t.around (.step t.here.above t.here.top t.here.step) t.here.state (t.execution e) r s' :=
  ⟨_, _, runs_iff.mpr rfl⟩

/-- The turns of a step by the rules are those of its execution. -/
theorem Runs.execution_eq {above : String} {top : Bool} {x : Step} {d : Deed}
    {before : RunState σ} (h : e.Runs around (.step above top x) s ts r s') :
    Turn.execution e ⟨⟨above, top, x, s⟩, around, d, before⟩ = ts := by
  have hc : e.stepCourse around above top x s = (ts, r, s') := h.courseOf_eq
  unfold Turn.execution Course.turns
  rw [hc]

/-- Wherever the turns come to a step, they go on with the execution of the step. -/
def Unfolds (e : Engine σ) : List (Turn σ) → Prop
  | [] => True
  | t :: ts => (t.deed = .reach → t.execution e <+: t :: ts) ∧ Unfolds e ts

theorem Unfolds.append {ts us : List (Turn σ)} (h : Unfolds e ts) (h' : Unfolds e us) :
    Unfolds e (ts ++ us) := by
  induction ts with
  | nil => exact h'
  | cons t ts ih => exact ⟨fun hd => (h.1 hd).trans (List.prefix_append _ _), ih h.2⟩

theorem Unfolds.cons {t : Turn σ} (hd : t.deed ≠ .reach) (h : Unfolds e ts) :
    Unfolds e (t :: ts) :=
  ⟨fun hr => absurd hr hd, h⟩

theorem Unfolds.here {past later : List (Turn σ)} {t : Turn σ}
    (h : Unfolds e (past ++ t :: later)) (hd : t.deed = .reach) :
    t.execution e <+: t :: later := by
  induction past with
  | nil => exact h.1 hd
  | cons u past ih => exact ih h.2

/-- **A run executes every step that it comes to**, without a turn in between. -/
theorem Runs.unfolds (h : e.Runs around act s ts r s') : Unfolds e ts := by
  induction h with
  | nil => trivial
  | cons _ _ ihx ihr => exact ihx.append ihr
  | cut _ ih => exact ih
  | barred h =>
    exact ⟨fun _ => (Runs.barred h).execution_eq ▸ List.prefix_rfl, trivial⟩
  | reached h inner ih =>
    exact ⟨fun _ => (Runs.reached h inner).execution_eq ▸ List.prefix_rfl, ih⟩
  | leaf | unjudged | tired | undecided | ceased => exact .cons nofun trivial
  | stopped _ _ _ ih => exact .cons nofun ih
  | acted _ _ _ _ ih => exact .cons nofun (ih.append (.cons nofun trivial))
  | chosen _ _ ih => exact ih
  | looped _ _ ih => exact ih
  | capped => exact .cons nofun (.cons nofun trivial)
  | left _ _ _ ih => exact .cons nofun ih
  | ended _ _ _ _ ih => exact .cons nofun ih
  | again _ _ _ _ ihb ihn => exact .cons nofun (ihb.append ihn)

/-- The occurrence that an activity goes on at, once the run has come to its step. -/
def host? : Activity σ → Option (Occurrence σ)
  | .step .. => none
  | .block .. => none
  | .inside o => some o
  | .rounds o .. => some o

/-- Each occurrence that a turn is at or inside of is one of those around an activity, or the one that
the activity goes on at, or one of the given turns comes to it and the turn is part of the execution
that begins there. -/
def Within (e : Engine σ) (around : List (Occurrence σ)) (act : Activity σ) (ts : List (Turn σ))
    (t : Turn σ) : Prop :=
  ∀ o a, o :: a <:+ t.here :: t.around → o :: a <:+ around ∨ (o ∈ host? act ∧ a = around) ∨
    ∃ u ∈ ts, u.deed = .reach ∧ u.here = o ∧ u.around = a ∧ t ∈ u.execution e

/-- A turn at the occurrence that an activity goes on at. -/
theorem Within.own {o : Occurrence σ} {d : Deed} {before : RunState σ} (ho : o ∈ host? act) :
    e.Within around act ts ⟨o, around, d, before⟩ := by
  intro o' a h
  rcases List.suffix_cons_iff.mp h with heq | hs
  · obtain ⟨rfl, rfl⟩ := List.cons.inj heq
    exact Or.inr (Or.inl ⟨ho, rfl⟩)
  · exact Or.inl hs

theorem Within.mono {act' : Activity σ} {us : List (Turn σ)} {t : Turn σ}
    (h : e.Within around act ts t) (hh : ∀ o ∈ host? act, o ∈ host? act') (hs : ts ⊆ us) :
    e.Within around act' us t := by
  intro o a ha
  rcases h o a ha with hr | ⟨ho, hr⟩ | ⟨u, hu, hr⟩
  · exact Or.inl hr
  · exact Or.inr (Or.inl ⟨hh o ho, hr⟩)
  · exact Or.inr (Or.inr ⟨u, hs hu, hr⟩)

/-- A turn of a block is inside the step that the block belongs to. -/
theorem Within.of_block {o : Occurrence σ} {above : String} {top : Bool} {block : List Step}
    {us : List (Turn σ)} {t : Turn σ} (h : e.Within (o :: around) (.block above top block) ts t)
    (ho : o ∈ host? act) (hs : ts ⊆ us) : e.Within around act us t := by
  intro o' a ha
  rcases h o' a ha with hr | ⟨ho', -⟩ | ⟨u, hu, hr⟩
  · rcases List.suffix_cons_iff.mp hr with heq | hr
    · obtain ⟨rfl, rfl⟩ := List.cons.inj heq
      exact Or.inr (Or.inl ⟨ho, rfl⟩)
    · exact Or.inl hr
  · cases ho'
  · exact Or.inr (Or.inr ⟨u, hs hu, hr⟩)

/-- A turn of an execution, seen from the turn that begins it. -/
theorem Within.of_inside {above : String} {top : Bool} {x : Step} {us : List (Turn σ)}
    {t u : Turn σ} (h : e.Within around (.inside ⟨above, top, x, s⟩) ts t)
    (hu : u = ⟨⟨above, top, x, s⟩, around, .reach, s⟩) (ht : t ∈ u.execution e) (hm : u ∈ us)
    (hs : ts ⊆ us) : e.Within around (.step above top x) us t := by
  intro o a ha
  rcases h o a ha with hr | ⟨ho, rfl⟩ | ⟨v, hv, hr⟩
  · exact Or.inl hr
  · cases ho
    exact Or.inr (Or.inr ⟨u, hm, by rw [hu], by rw [hu], by rw [hu], ht⟩)
  · exact Or.inr (Or.inr ⟨v, hs hv, hr⟩)

/-- The turn that comes to a step is part of the execution that it begins. -/
theorem Within.of_reach {above : String} {top : Bool} {x : Step} {us : List (Turn σ)} {u : Turn σ}
    (hu : u = ⟨⟨above, top, x, s⟩, around, .reach, s⟩) (ht : u ∈ u.execution e) (hm : u ∈ us) :
    e.Within around (.step above top x) us u := by
  have hown : e.Within around (.inside ⟨above, top, x, s⟩) [] u := by
    rw [hu]
    exact .own rfl
  exact hown.of_inside hu ht hm (List.nil_subset _)

/-- **A turn at or inside a step is part of an execution of the step.** -/
theorem Runs.within (h : e.Runs around act s ts r s') : ∀ t ∈ ts, e.Within around act ts t := by
  induction h with
  | nil => exact fun t ht => absurd ht List.not_mem_nil
  | cons _ _ ihx ihr =>
    exact List.forall_mem_append.mpr
      ⟨fun t ht => (ihx t ht).mono nofun (List.subset_append_left _ _),
        fun t ht => (ihr t ht).mono nofun (List.subset_append_right _ _)⟩
  | cut _ ih => exact fun t ht => (ih t ht).mono nofun (List.Subset.refl _)
  | barred h =>
    refine List.forall_mem_singleton.mpr (.of_reach rfl ?_ List.mem_cons_self)
    rw [(Runs.barred h).execution_eq]
    exact List.mem_cons_self
  | reached h inner ih =>
    refine List.forall_mem_cons.mpr ⟨.of_reach rfl ?_ List.mem_cons_self, fun t ht => ?_⟩
    · rw [(Runs.reached h inner).execution_eq]
      exact List.mem_cons_self
    · refine (ih t ht).of_inside rfl ?_ List.mem_cons_self (List.subset_cons_self _ _)
      rw [(Runs.reached h inner).execution_eq]
      exact List.mem_cons_of_mem _ ht
  | leaf | unjudged | tired | undecided | ceased =>
    exact List.forall_mem_singleton.mpr (.own rfl)
  | stopped _ _ _ ih =>
    exact List.forall_mem_cons.mpr
      ⟨.own rfl, fun t ht => (ih t ht).of_block rfl (List.subset_cons_self _ _)⟩
  | acted _ _ _ _ ih =>
    refine List.forall_mem_cons.mpr ⟨.own rfl, List.forall_mem_append.mpr ⟨fun t ht => ?_,
      List.forall_mem_singleton.mpr (.own rfl)⟩⟩
    exact (ih t ht).of_block rfl (List.subset_cons_of_subset _ (List.subset_append_left _ _))
  | chosen _ _ ih => exact fun t ht => (ih t ht).of_block rfl (List.Subset.refl _)
  | looped _ _ ih => exact fun t ht => (ih t ht).mono (fun _ ho => ho) (List.Subset.refl _)
  | capped => exact List.forall_mem_cons.mpr ⟨.own rfl, List.forall_mem_singleton.mpr (.own rfl)⟩
  | left _ _ _ ih =>
    exact List.forall_mem_cons.mpr
      ⟨.own rfl, fun t ht => (ih t ht).of_block rfl (List.subset_cons_self _ _)⟩
  | ended _ _ _ _ ih =>
    exact List.forall_mem_cons.mpr
      ⟨.own rfl, fun t ht => (ih t ht).of_block rfl (List.subset_cons_self _ _)⟩
  | again _ _ _ _ ihb ihn =>
    refine List.forall_mem_cons.mpr ⟨.own rfl, List.forall_mem_append.mpr ⟨fun t ht => ?_,
      fun t ht => ?_⟩⟩
    · exact (ihb t ht).of_block rfl (List.subset_cons_of_subset _ (List.subset_append_left _ _))
    · exact (ihn t ht).mono (fun _ ho => ho)
        (List.subset_cons_of_subset _ (List.subset_append_right _ _))

/-! ## 3. Loops -/

/-- **Iterations of a loop**: behind `done` of them so many more, with these turns. Before each
iteration the condition holds, and it is the course of the body under its own label. -/
inductive Iterations (e : Engine σ) (around : List (Occurrence σ)) (o : Occurrence σ)
    (c : Condition) (body : List Step) : (done count : Nat) → List (Turn σ) → Prop
  | nil {done : Nat} : Iterations e around o c body done 0 []
  | next {done count : Nat} {s s₁ : RunState σ} {ts : List (Turn σ)}
      (hj : e.evaluate c s = (.ok true, s₁)) (hc : e.pastCap (done + 1) = none)
      (rest : Iterations e around o c body (done + 1) count ts) :
      Iterations e around o c body done (count + 1) (⟨o, around, .judge c, s⟩ ::
        ((e.blockCourse (o :: around) (blockPath o.path (iterationLabel (done + 1))) false
          body).turns s₁ ++ ts))

/-- How a loop ends behind so many iterations: with the last of them, behind a condition that does not
hold or has no outcome, at its cap, or for lack of fuel. -/
inductive LoopEnd (e : Engine σ) (around : List (Occurrence σ)) (o : Occurrence σ)
    (c : Condition) (count : Nat) : List (Turn σ) → Prop
  | inside : LoopEnd e around o c count []
  | ceased {s : RunState σ} (hj : (e.evaluate c s).1 ≠ .ok true) :
      LoopEnd e around o c count [⟨o, around, .judge c, s⟩]
  | capped {s s₁ : RunState σ} {cap : Int} (hj : e.evaluate c s = (.ok true, s₁))
      (hc : e.pastCap (count + 1) = some cap) :
      LoopEnd e around o c count [⟨o, around, .judge c, s⟩, ⟨o, around, .limit cap, s₁⟩]
  | tired {s : RunState σ} (h : count = e.rounds) :
      LoopEnd e around o c count [⟨o, around, .tire, s⟩]

theorem Runs.block_turns {above : String} {top : Bool} {block : List Step}
    (h : e.Runs around (.block above top block) s ts r s') :
    (e.blockCourse around above top block).turns s = ts := by
  have hc : e.blockCourse around above top block s = (ts, r, s') := h.courseOf_eq
  unfold Course.turns
  rw [hc]

/-- A single iteration, with which a loop ends. -/
theorem Iterations.last {o : Occurrence σ} {c : Condition} {body : List Step} {done : Nat}
    {s₁ : RunState σ} (hj : e.evaluate c s = (.ok true, s₁))
    (hc : e.pastCap (done + 1) = none)
    (inner : e.Runs (o :: around) (.block (blockPath o.path (iterationLabel (done + 1))) false
      body) s₁ ts r s') :
    Iterations e around o c body done 1 (⟨o, around, .judge c, s⟩ :: ts) := by
  have h : Iterations e around o c body done 1 _ := .next hj hc .nil
  rw [inner.block_turns, List.append_nil] at h
  exact h

/-- **The rounds of a loop are iterations and then an end.** -/
theorem Runs.iterations {o : Occurrence σ} {c : Condition} {body : List Step} {left done : Nat}
    (h : e.Runs around (.rounds o c body left done) s ts r s') (hr : left + done = e.rounds) :
    ∃ count its tail, ts = its ++ tail ∧ Iterations e around o c body done count its ∧
      LoopEnd e around o c (done + count) tail := by
  generalize ha : Activity.rounds o c body left done = act at h
  induction h generalizing left done with
  | nil | cons | cut | barred | reached | leaf | unjudged | stopped | acted | chosen | looped =>
    cases ha
  | tired =>
    cases ha
    exact ⟨0, [], _, rfl, .nil, .tired (by omega)⟩
  | undecided hj =>
    cases ha
    exact ⟨0, [], _, rfl, .nil, .ceased (by rw [hj]; nofun)⟩
  | ceased hj =>
    cases ha
    exact ⟨0, [], _, rfl, .nil, .ceased (by rw [hj]; nofun)⟩
  | capped hj hc =>
    cases ha
    exact ⟨0, [], _, rfl, .nil, .capped hj hc⟩
  | left hj hc inner =>
    cases ha
    exact ⟨1, _, [], (List.append_nil _).symm, .last hj hc inner, .inside⟩
  | ended hj hc inner =>
    cases ha
    exact ⟨1, _, [], (List.append_nil _).symm, .last hj hc inner, .inside⟩
  | @again around o c body left done s _ _ _ ts _ _ hj hc inner _ _ ih =>
    cases ha
    obtain ⟨count, its, tail, rfl, hi, he⟩ := ih (by omega) rfl
    refine ⟨count + 1, ⟨o, around, .judge c, s⟩ :: (ts ++ its), tail, ?_, ?_, ?_⟩
    · rw [List.cons_append, List.append_assoc]
    · have h : Iterations e around o c body done (count + 1) _ := .next hj hc hi
      rw [inner.block_turns] at h
      exact h
    · rw [← Nat.add_assoc, Nat.add_right_comm]
      exact he

/-- **An execution of a loop comes to the step, goes through iterations, and ends.** -/
theorem execution_of_loop (e : Engine σ) {t : Turn σ} {hd : StepHead} {c : Condition}
    {body : List Step} (hs : t.here.step = .loop hd c body) (hd : t.deed = .reach)
    (hb : t.here.state = t.before) : ∃ count its tail, t.execution e = t :: (its ++ tail) ∧
      Iterations e t.around t.here c body 0 count its ∧ LoopEnd e t.around t.here c count tail := by
  obtain ⟨o, around, d, before⟩ := t
  dsimp only at hs hd hb
  subst hd hb
  obtain ⟨r, s', h⟩ := e.runs_execution ⟨o, around, .reach, o.state⟩
  generalize Turn.execution e ⟨o, around, .reach, o.state⟩ = ts at h
  cases h with
  | barred => exact ⟨0, [], [], rfl, .nil, .inside⟩
  | reached _ inner =>
    cases inner with
    | leaf hk =>
      rw [hs] at hk
      cases hk
    | unjudged hs' | stopped hs' | acted hs' | chosen hs' => cases hs.symm.trans hs'
    | looped hs' inner =>
      cases hs.symm.trans hs'
      obtain ⟨count, its, tail, rfl, hi, he⟩ := inner.iterations (Nat.add_zero _)
      rw [Nat.zero_add] at he
      exact ⟨count, its, tail, rfl, hi, he⟩

end Engine

/-! ## 4. Whole runs -/

namespace Executor

/-- **The turns of a run that gets to its steps go by the rules.** -/
theorem runs_of_begun {x : Executor σ} {w : Workflow} {r : RunRequest} {world : σ}
    {approved : Bool} {s : RunState σ} (h : x.opening w r world = .begun approved s) :
    (x.engineOf w r world).Runs [] (.block "" true w.steps) s (x.turns w r world)
      ((x.engine approved).runBlock "" true w.steps s).1
      ((x.engine approved).runBlock "" true w.steps s).2 := by
  refine Engine.runs_iff.mpr ?_
  rw [engineOf_of_begun h, ← Engine.blockCourse_run (x.engine approved) [] "" true w.steps]
  unfold turns
  rw [h]
  rfl

/-- The turns of a run stand where they belong. -/
theorem place_of_turn {x : Executor σ} {w : Workflow} {r : RunRequest} {world : σ} {t : Turn σ}
    (ht : t ∈ x.turns w r world) :
    t.here.step ∈ w.allSteps ∧ (x.engineOf w r world).Place t.here t.before t.deed := by
  obtain ⟨approved, s, hop, -⟩ := x.begins_of_turn w r world ht
  obtain ⟨earlier, later, hts⟩ := List.append_of_mem ht
  have hfits := (turns_of_begun hop).2
  rw [hts] at hfits
  exact ⟨hfits.here.step, hfits.here.place⟩

/-- A turn is part of executions of all steps that it is at or inside of. -/
theorem execution_of_turn {x : Executor σ} {w : Workflow} {r : RunRequest} {world : σ}
    {t : Turn σ} (ht : t ∈ x.turns w r world) {o : Occurrence σ} {around : List (Occurrence σ)}
    (ha : o :: around <:+ t.here :: t.around) :
    ∃ u ∈ x.turns w r world, u.deed = .reach ∧ u.here = o ∧ u.around = around ∧
      t ∈ u.execution (x.engineOf w r world) := by
  obtain ⟨approved, s, hop, -⟩ := x.begins_of_turn w r world ht
  rcases (runs_of_begun hop).within t ht o around ha with hn | ⟨ho, -⟩ | hu
  · exact absurd (List.suffix_nil.mp hn) (List.cons_ne_nil _ _)
  · cases ho
  · exact hu

/-- **Executions are unbroken parts of a run.** -/
theorem execution_unbroken {x : Executor σ} {w : Workflow} {r : RunRequest} {world : σ}
    {past later : List (Turn σ)} {u : Turn σ} (hts : x.turns w r world = past ++ u :: later)
    (hd : u.deed = .reach) : u.execution (x.engineOf w r world) <+: u :: later := by
  obtain ⟨approved, s, hop, -⟩ := x.begins_of_turn w r world (t := u) (by simp [hts])
  have h := (runs_of_begun hop).unfolds
  rw [hts] at h
  exact h.here hd

theorem turn_of_execution {x : Executor σ} {w : Workflow} {r : RunRequest} {world : σ}
    {u t : Turn σ} (hu : u ∈ x.turns w r world) (hd : u.deed = .reach)
    (ht : t ∈ u.execution (x.engineOf w r world)) : t ∈ x.turns w r world := by
  obtain ⟨past, later, hts⟩ := List.append_of_mem hu
  rw [hts]
  exact List.mem_append_right _ ((execution_unbroken hts hd).subset ht)

end Executor

end Runbook
