import Runbook.Proofs.Run.Record
import Runbook.Proofs.Run.Screened

/-!
# Capped runs end

With a cap on the iterations of loops every run ends, and how many commands it starts can be read off
the step tree:

* `Step.spawnBound`, `blockBound`: how many commands a step and a block can start;
* `Runs.starts_le`: an activity starts no more commands than that;
* `Runs.not_tired`: a capped loop never runs out of rounds;
* `Turn.judgesAt`, `Turn.holdsAt`: the judgings of a loop's own condition, and how many of them hold;
* `Executor.Bounded`, **`runWorkflow_bounded`**: what this says of whole runs.
-/

namespace Runbook

variable {σ : Type}

/-! ## 1. Bounds of steps -/

namespace Step

mutual

/-- How many commands a step can start if no loop runs its body more than `n` times: a command starts
itself, a step with blocks runs one of them, and a loop runs its body up to `n` times. -/
def spawnBound (n : Nat) : Step → Nat
  | .command _ => 1
  | .auth _ => 1
  | .conditional _ _ thenBlock none _ => blockBound n thenBlock
  | .conditional _ _ thenBlock (some elseBlock) _ =>
    max (blockBound n thenBlock) (blockBound n elseBlock)
  | .branch _ _ cases none => casesBound n cases
  | .branch _ _ cases (some fallback) => max (casesBound n cases) (blockBound n fallback)
  | .loop _ _ body => n * blockBound n body

/-- How many commands the steps of a block can start: as many as all of them together. -/
def blockBound (n : Nat) : List Step → Nat
  | [] => 0
  | s :: rest => spawnBound n s + blockBound n rest

/-- How many commands one of the blocks of cases can start. -/
def casesBound (n : Nat) : List (String × List Step) → Nat
  | [] => 0
  | (_, block) :: rest => max (blockBound n block) (casesBound n rest)

end

theorem loop_of_kind {s : Step} (hk : s.kind = .loop) : ∃ hd c body, s = .loop hd c body := by
  cases s with
  | loop hd c body => exact ⟨hd, c, body, rfl⟩
  | command | auth | conditional | branch => cases hk

theorem blockBound_le_casesBound {n : Nat} {cases : List (String × List Step)}
    {entry : String × List Step} (h : entry ∈ cases) :
    blockBound n entry.2 ≤ casesBound n cases := by
  induction cases with
  | nil => cases h
  | cons first rest ih =>
    unfold casesBound
    rcases List.mem_cons.mp h with rfl | h
    · exact Nat.le_max_left _ _
    · exact Nat.le_trans (ih h) (Nat.le_max_right _ _)

theorem blockBound_blockFor (n : Nat) (hd : StepHead) (c : Condition) (t : List Step)
    (el : Option (List Step)) (a : Option Action) (holds : Bool) :
    blockBound n (blockFor holds t el).2 ≤ spawnBound n (.conditional hd c t el a) := by
  cases holds with
  | true =>
    cases el with
    | none => exact Nat.le_refl _
    | some el => exact Nat.le_max_left _ _
  | false =>
    cases el with
    | none => exact Nat.zero_le _
    | some el => exact Nat.le_max_right _ _

theorem blockBound_blockOfCase (n : Nat) (hd : StepHead) (v : String) (context : Context)
    (value : String) (cases : List (String × List Step)) (d : Option (List Step)) :
    blockBound n (blockOfCase context value d cases).2 ≤ spawnBound n (.branch hd v cases d) := by
  rcases blockOfCase_cases context value d cases with ⟨entry, he, -, hr⟩ | hr
  · rw [hr]
    have hle := blockBound_le_casesBound (n := n) he
    cases d with
    | none => exact hle
    | some d => exact Nat.le_trans hle (Nat.le_max_left _ _)
  · rw [hr]
    cases d with
    | none => exact Nat.zero_le _
    | some d => exact Nat.le_max_right _ _

end Step

/-! ## 2. Starts -/

/-- How many commands turns start. -/
def starts (ts : List (Turn σ)) : Nat := ts.countP fun t => t.deed = .start

theorem starts_append (ts us : List (Turn σ)) : starts (ts ++ us) = starts ts + starts us :=
  List.countP_append ..

/-- How many commands an activity can start. -/
def Activity.bound (n : Nat) : Activity σ → Nat
  | .step _ _ s => s.spawnBound n
  | .block _ _ steps => Step.blockBound n steps
  | .inside o => o.step.spawnBound n
  | .rounds _ _ body _ done => (n - done) * Step.blockBound n body

namespace Engine

variable {e : Engine σ} {around : List (Occurrence σ)} {act : Activity σ} {s s' : RunState σ}
  {ts : List (Turn σ)} {r : Except Signal Unit} {n : Nat}

theorem pastCap_eq_none {cap : Int} (h : e.cap = some cap) {k : Nat} :
    e.pastCap k = none ↔ (k : Int) ≤ cap := by
  unfold pastCap
  rw [h, Option.filter_some]
  simp

theorem pastCap_eq_some {cap cap' : Int} (h : e.cap = some cap) {k : Nat} :
    e.pastCap k = some cap' ↔ cap' = cap ∧ cap < k := by
  unfold pastCap
  rw [h, Option.filter_some]
  simp only [decide_eq_true_eq, Option.ite_none_right_eq_some, Option.some.injEq]
  omega

/-- An iteration that the cap `n` does not stop is one of the first `n`. -/
theorem le_of_pastCap (h : e.cap = some (n : Int)) {k : Nat} (hc : e.pastCap k = none) : k ≤ n :=
  Int.ofNat_le.mp ((pastCap_eq_none h).mp hc)

theorem one_le_spawnBound {x : Step} (hk : x.kind.isControlFlow = false) :
    1 ≤ x.spawnBound n := by
  cases x with
  | command | auth => exact Nat.le_refl 1
  | conditional | branch | loop => cases hk

/-- One iteration and those that are left behind it. -/
theorem iteration_bound {done b : Nat} (h : done + 1 ≤ n) :
    b + (n - (done + 1)) * b = (n - done) * b := by
  have hn : n - done = (n - (done + 1)) + 1 := by omega
  rw [hn, Nat.succ_mul, Nat.add_comm]

/-- **An activity starts no more commands than its bound says**: by induction on the rules. -/
theorem Runs.starts_le (hcap : e.cap = some (n : Int)) (h : e.Runs around act s ts r s') :
    starts ts ≤ act.bound n := by
  induction h with
  | nil | barred | unjudged | tired | undecided | ceased | capped => exact Nat.zero_le _
  | cons _ _ ihx ihr =>
    rw [starts_append]
    exact Nat.add_le_add ihx ihr
  | cut _ ih => exact Nat.le_trans ih (Nat.le_add_right _ _)
  | reached _ _ ih => exact ih
  | leaf hk => exact one_le_spawnBound hk
  | @stopped around o s _ _ hd c t el a holds ts _ hs _ _ ih =>
    show starts ts ≤ o.step.spawnBound n
    rw [hs]
    exact Nat.le_trans ih (Step.blockBound_blockFor n hd c t el a holds)
  | @acted around o s _ _ _ hd c t el a holds ts _ hs _ _ _ ih =>
    show starts (ts ++ [_]) ≤ o.step.spawnBound n
    rw [starts_append, hs]
    exact Nat.le_trans ih (Step.blockBound_blockFor n hd c t el a holds)
  | @chosen around o _ _ hd v cases d ts _ hs _ ih =>
    show starts ts ≤ o.step.spawnBound n
    rw [hs]
    exact Nat.le_trans ih (Step.blockBound_blockOfCase n hd v _ _ cases d)
  | @looped around o _ _ hd c body ts _ hs _ ih =>
    show starts ts ≤ o.step.spawnBound n
    rw [hs]
    exact ih
  | @left around o c body left done _ _ _ ts _ hc _ ih =>
    show starts ts ≤ (n - done) * Step.blockBound n body
    rw [← iteration_bound (le_of_pastCap hcap hc)]
    exact Nat.le_trans ih (Nat.le_add_right _ _)
  | @ended around o c body left done _ _ _ ts _ _ hc _ _ ih =>
    show starts ts ≤ (n - done) * Step.blockBound n body
    rw [← iteration_bound (le_of_pastCap hcap hc)]
    exact Nat.le_trans ih (Nat.le_add_right _ _)
  | @again around o c body left done _ _ _ _ ts us _ _ hc _ _ ihb ihn =>
    show starts (ts ++ us) ≤ (n - done) * Step.blockBound n body
    rw [starts_append, ← iteration_bound (le_of_pastCap hcap hc)]
    exact Nat.add_le_add ihb ihn

/-! ## 3. The end of loops -/

/-- A capped loop has as many rounds left as the cap allows, and one more to find that it is past it. -/
def Capped (cap : Int) : Activity σ → Prop
  | .step .. => True
  | .block .. => True
  | .inside _ => True
  | .rounds _ _ _ left done => left + done = cap.toNat + 1 ∧ done ≤ cap.toNat

/-- **A capped loop never runs out of rounds.** -/
theorem Runs.not_tired {cap : Int} (hcap : e.cap = some cap) (h : e.Runs around act s ts r s')
    (ha : Capped cap act) : ∀ t ∈ ts, t.deed ≠ .tire := by
  refine h.each (P := fun _ act => Capped cap act) ?_ ?_ ha
  · intro around around' act act' ha hl
    cases hl with
    | first | later | reached | taken | chosen | body => trivial
    | looped =>
      unfold rounds
      rw [hcap]
      exact ⟨rfl, Nat.zero_le _⟩
    | @again _ _ _ left done hc =>
      obtain ⟨hsum, -⟩ := ha
      have hle := (pastCap_eq_none hcap).mp hc
      exact ⟨by omega, by omega⟩
  · intro around act t ha ho
    cases ho with
    | reach | start | decide | act | judge | limit => nofun
    | tire =>
      obtain ⟨hsum, hle⟩ := ha
      omega

/-- Only a loop that runs out of rounds leaves a run unfinished. -/
theorem Chain.tired (h : e.Chain s ts (.error .unfinished) s') : ∃ t ∈ ts, t.deed = .tire := by
  obtain ⟨⟨o, around, d, before⟩, ht, hp⟩ := h.last_of_error
  refine ⟨_, List.mem_of_getLast? ht, ?_⟩
  cases does_of_perform hp with
  | tired => rfl
  | unanswered _ _ _ _ _ hs => cases hs
  | started _ _ _ _ _ _ _ _ hr =>
    cases hr with
    | well _ _ hr => cases hr _ rfl
  | unjudged _ _ _ hs => rcases hs with hs | ⟨error, hs⟩ <;> cases hs

end Engine

/-! ## 4. Executions of loops -/

/-- How deep inside other steps a turn is. -/
def Turn.depth (t : Turn σ) : Nat := t.around.length

/-- Whether a turn judges a condition at a depth. -/
def Turn.judgesAt (depth : Nat) (t : Turn σ) : Bool :=
  t.depth == depth && match t.deed with
    | .judge _ => true
    | _ => false

/-- Whether a turn judges a condition at a depth, and it holds. -/
def Turn.holdsAt (e : Engine σ) (depth : Nat) (t : Turn σ) : Bool :=
  t.depth == depth && match t.deed with
    | .judge c =>
      match (e.evaluate c t.before).1 with
      | .ok holds => holds
      | .error _ => false
    | _ => false

namespace Engine

variable {e : Engine σ} {around : List (Occurrence σ)} {o : Occurrence σ} {c : Condition}
  {body : List Step} {ts : List (Turn σ)} {n done count : Nat}

/-- The turns of a block inside an occurrence are deeper than the occurrence. -/
theorem depth_of_block {above : String} {block : List Step} {s : RunState σ} :
    ∀ t ∈ (e.blockCourse (o :: around) above false block).turns s, around.length < t.depth := by
  intro t ht
  obtain ⟨r, s', h⟩ : ∃ r s', e.Runs (o :: around) (.block above false block) s
      ((e.blockCourse (o :: around) above false block).turns s) r s' := ⟨_, _, runs_iff.mpr rfl⟩
  exact (h.around_suffix t ht).length_le

theorem countP_of_deeper {p : Turn σ → Bool} {depth : Nat}
    (hp : ∀ t, p t = true → t.depth = depth) (h : ∀ t ∈ ts, depth < t.depth) :
    ts.countP p = 0 := by
  refine List.countP_eq_zero.mpr fun t ht hpt => ?_
  have hd := h t ht
  rw [hp t hpt] at hd
  exact Nat.lt_irrefl _ hd

theorem depth_of_judgesAt {depth : Nat} (t : Turn σ) (h : t.judgesAt depth = true) :
    t.depth = depth :=
  beq_iff_eq.mp (Bool.and_eq_true_iff.mp h).1

theorem depth_of_holdsAt {depth : Nat} (t : Turn σ) (h : t.holdsAt e depth = true) :
    t.depth = depth :=
  beq_iff_eq.mp (Bool.and_eq_true_iff.mp h).1

theorem judgesAt_judge {s : RunState σ} :
    Turn.judgesAt around.length ⟨o, around, .judge c, s⟩ = true := by
  simp [Turn.judgesAt, Turn.depth]

theorem holdsAt_judge {s : RunState σ} :
    Turn.holdsAt e around.length ⟨o, around, .judge c, s⟩ = true ↔
      (e.evaluate c s).1 = .ok true := by
  unfold Turn.holdsAt Turn.depth
  rw [beq_self_eq_true, Bool.true_and]
  dsimp only
  cases (e.evaluate c s).1 <;> simp

/-- **Each iteration begins with a single judging of the condition, which holds**: what counts these, and
nothing deeper, counts the iterations. -/
theorem Iterations.countP_eq {p : Turn σ → Bool}
    (hdeep : ∀ t, p t = true → t.depth = around.length)
    (hp : ∀ s, (e.evaluate c s).1 = .ok true → p ⟨o, around, .judge c, s⟩ = true)
    (h : Iterations e around o c body done count ts) : ts.countP p = count := by
  induction h with
  | nil => rfl
  | next hj hc _ ih =>
    rw [List.countP_cons_of_pos (hp _ (by rw [hj])), List.countP_append,
      countP_of_deeper hdeep depth_of_block, ih, Nat.zero_add]

/-- Iterations stay below the cap. -/
theorem Iterations.le_cap (hcap : e.cap = some (n : Int))
    (h : Iterations e around o c body done count ts) (hn : done ≤ n) : done + count ≤ n := by
  induction h with
  | nil => exact hn
  | next hj hc _ ih =>
    have hle := ih (le_of_pastCap hcap hc)
    omega

/-- No iteration stops its own loop at the cap. -/
theorem Iterations.not_limit {cap : Int} {s : RunState σ}
    (h : Iterations e around o c body done count ts) :
    (⟨o, around, .limit cap, s⟩ : Turn σ) ∉ ts := by
  induction h with
  | nil => exact List.not_mem_nil
  | next hj hc _ ih =>
    intro hmem
    rcases List.mem_cons.mp hmem with heq | hmem
    · cases heq
    · rcases List.mem_append.mp hmem with hmem | hmem
      · exact Nat.lt_irrefl _ (depth_of_block _ hmem)
      · exact ih hmem

/-- A capped loop judges its condition at most once behind its iterations, and it holds then only if
the loop stops at its cap. -/
theorem LoopEnd.counts (hcap : e.cap = some (n : Int)) (hn : count ≤ n)
    (h : LoopEnd e around o c count ts) :
    ts.countP (Turn.judgesAt around.length) ≤ 1 ∧
      ((∃ s, (⟨o, around, .limit n, s⟩ : Turn σ) ∈ ts) ∧ count = n ∧
          ts.countP (Turn.holdsAt e around.length) = 1 ∨
        (∀ s, (⟨o, around, .limit n, s⟩ : Turn σ) ∉ ts) ∧
          ts.countP (Turn.holdsAt e around.length) = 0) := by
  cases h with
  | inside => exact ⟨Nat.zero_le _, Or.inr ⟨by simp, rfl⟩⟩
  | @ceased s hj =>
    refine ⟨List.countP_le_length, Or.inr ⟨by simp, ?_⟩⟩
    exact List.countP_eq_zero.mpr (List.forall_mem_singleton.mpr fun hh => hj (holdsAt_judge.mp hh))
  | @capped s s₁ cap hj hc =>
    obtain ⟨rfl, hlt⟩ := (pastCap_eq_some hcap).mp hc
    refine ⟨?_, Or.inl ⟨⟨s₁, by simp⟩, by omega, ?_⟩⟩
    · rw [List.countP_cons_of_pos judgesAt_judge]
      simp [Turn.judgesAt]
    · rw [List.countP_cons_of_pos (holdsAt_judge.mpr (by rw [hj]))]
      simp [Turn.holdsAt]
  | tired => exact ⟨by simp [Turn.judgesAt], Or.inr ⟨by simp, by simp [Turn.holdsAt]⟩⟩

/-- **How an execution of a loop goes under the cap `n`**: it runs its body at most `n` times and judges
its condition at most once more, and it stops at the cap exactly if the condition held `n + 1` times. -/
structure CappedLoop (e : Engine σ) (n : Nat) (u : Turn σ) (c : Condition) (body : List Step) :
    Prop where
  iterations : ∃ count its tail, u.execution e = u :: (its ++ tail) ∧
    Iterations e u.around u.here c body 0 count its ∧ LoopEnd e u.around u.here c count tail ∧
    count ≤ n
  judgings : (u.execution e).countP (Turn.judgesAt u.depth) ≤ n + 1
  limited : (∃ s, (⟨u.here, u.around, .limit n, s⟩ : Turn σ) ∈ u.execution e) ↔
    (u.execution e).countP (Turn.holdsAt e u.depth) = n + 1

/-- **Executions of loops go as the cap says.** -/
theorem cappedLoop (hcap : e.cap = some (n : Int)) {u : Turn σ} {hd : StepHead}
    (hs : u.here.step = .loop hd c body) (hd : u.deed = .reach) (hb : u.here.state = u.before) :
    CappedLoop e n u c body := by
  obtain ⟨count, its, tail, hx, hi, he⟩ := execution_of_loop e hs hd hb
  have hn : count ≤ n := by
    have hle := hi.le_cap hcap (Nat.zero_le n)
    omega
  have hj := hi.countP_eq (p := Turn.judgesAt u.around.length) depth_of_judgesAt
    fun _ _ => judgesAt_judge
  have hh := hi.countP_eq (p := Turn.holdsAt e u.around.length) depth_of_holdsAt
    fun _ h => holdsAt_judge.mpr h
  obtain ⟨htj, hth⟩ := he.counts hcap hn
  have hcount : ∀ p : Turn σ → Bool, p u = false →
      (u.execution e).countP p = its.countP p + tail.countP p := by
    intro p hp
    rw [hx, List.countP_cons_of_neg (by simp [hp]), List.countP_append]
  have hmem : ∀ s, (⟨u.here, u.around, .limit n, s⟩ : Turn σ) ∈ u.execution e ↔
      (⟨u.here, u.around, .limit n, s⟩ : Turn σ) ∈ tail := by
    intro s
    rw [hx, List.mem_cons, List.mem_append]
    constructor
    · rintro (heq | hmem | hmem)
      · rw [← heq] at hd
        cases hd
      · exact absurd hmem hi.not_limit
      · exact hmem
    · exact fun hmem => Or.inr (Or.inr hmem)
  refine ⟨⟨count, its, tail, hx, hi, he, hn⟩, ?_, ?_⟩
  · rw [hcount _ (by simp [Turn.judgesAt, hd]), Turn.depth, hj]
    omega
  · rw [hcount _ (by simp [Turn.holdsAt, hd]), Turn.depth, hh]
    simp only [hmem]
    rcases hth with ⟨hl, rfl, hone⟩ | ⟨hl, hzero⟩
    · exact ⟨fun _ => by rw [hone], fun _ => hl⟩
    · refine ⟨fun ⟨s, hs⟩ => absurd hs (hl s), fun hc => ?_⟩
      rw [hzero] at hc
      omega

end Engine

/-! ## 5. Whole runs -/

/-- Whether an event is the start of a command. -/
def Event.isSpawned : Event → Bool
  | .spawned _ => true
  | _ => false

/-- Turns request as many commands as they start. -/
theorem countP_isSpawned_requests (e : Engine σ) (ts : List (Turn σ)) :
    (ts.flatMap (Turn.requests e)).countP Event.isSpawned = starts ts := by
  induction ts with
  | nil => rfl
  | cons t ts ih =>
    rw [List.flatMap_cons, List.countP_append, ih, ← List.singleton_append, starts_append]
    congr 1
    unfold Turn.requests starts
    rw [List.countP_singleton]
    cases t.deed with
    | reach => cases e.asks t.here.head <;> simp [Event.isSpawned]
    | start => simp [Event.isSpawned]
    | judge c =>
      dsimp only
      unfold Engine.testsFor
      split <;> simp [Event.isSpawned]
    | act | limit | tire => simp

namespace Executor

/-- **The log of a run has as many commands as its turns start.** -/
theorem countP_isSpawned (x : Executor σ) (w : Workflow) (r : RunRequest) (world : σ) :
    (x.runWorkflow w r world).2.events.countP Event.isSpawned = starts (x.turns w r world) := by
  have hreq : (x.runWorkflow w r world).2.events.countP Event.isSpawned =
      ((x.runWorkflow w r world).2.events.filter Event.isRequest).countP Event.isSpawned := by
    rw [List.countP_filter]
    refine List.countP_congr fun ev _ => ?_
    cases ev <;> simp [Event.isSpawned, Event.isRequest]
  rw [hreq, log_eq, List.countP_append, countP_isSpawned_requests]
  rcases x.upFront_cases w r world with hu | hu <;> rw [hu] <;> exact Nat.zero_add _

/-- **What the cap `n` says of a run.**

* `ends`: the run ends;
* `unbroken`: what an execution of a step consists of is an unbroken part of the run;
* `loops`: every execution of a loop goes as the cap says;
* `recorded`: the trace says that a loop went past its cap exactly for the executions in which its
  condition held `n + 1` times;
* `spawned`: the run starts no more commands than the bound of its steps. -/
structure Bounded (x : Executor σ) (n : Nat) (w : Workflow) (r : RunRequest) (world : σ) :
    Prop where
  ends : (x.runWorkflow w r world).1 ≠ .unfinished
  unbroken : ∀ past u later, x.turns w r world = past ++ u :: later → u.deed = .reach →
    u.execution (x.engineOf w r world) <+: u :: later
  loops : ∀ u ∈ x.turns w r world, u.deed = .reach → ∀ hd c body,
    u.here.step = .loop hd c body → Engine.CappedLoop (x.engineOf w r world) n u c body
  recorded : ∀ path name (cap : Int),
    ⟨path, .error (.loopLimit name cap)⟩ ∈ (x.runWorkflow w r world).2.trace ↔ cap = n ∧
      ∃ u ∈ x.turns w r world, u.deed = .reach ∧ u.here.step.kind = .loop ∧
        u.here.path = path ∧ u.here.step.name = name ∧
        (u.execution (x.engineOf w r world)).countP
          (Turn.holdsAt (x.engineOf w r world) u.depth) = n + 1
  spawned : (x.runWorkflow w r world).2.events.countP Event.isSpawned ≤ Step.blockBound n w.steps

variable {x : Executor σ} {n : Nat} {w : Workflow} {r : RunRequest} {world : σ}

/-- **With a cap every run ends.** -/
theorem ends_of_cap {cap : Int} (hcap : x.cap = some cap) :
    (x.runWorkflow w r world).1 ≠ .unfinished := by
  intro hu
  have hg := x.runWorkflow_goes w r world
  generalize x.runWorkflow w r world = p at hu hg
  cases hg with
  | @begun approved s _ hop hb =>
    rw [runSteps_apply] at hu
    have hchain := (turns_of_begun hop).1
    rcases hr : ((x.engine approved).runBlock "" true w.steps s).1 with signal | u
    · rw [hr] at hu hchain
      cases signal with
      | unfinished =>
        obtain ⟨t, ht, hd⟩ := hchain.tired
        exact (runs_of_begun hop).not_tired hcap trivial t ht hd
      | halted | returned | broken | undecided | missingVariable | raised => cases hu
    · rw [hr] at hu
      cases hu
  | declined => cases hu
  | @stopped signal s _ _ _ hs =>
    rcases outcomeOf_stopped w s hs with ⟨fault, ho⟩ | ⟨name, ho⟩ <;> rw [ho] at hu <;> cases hu

theorem starts_of_cap (hcap : x.cap = some (n : Int)) :
    starts (x.turns w r world) ≤ Step.blockBound n w.steps := by
  obtain ⟨o, hop, ho⟩ := x.exists_opening w r world
  cases o with
  | begun approved s => exact (runs_of_begun hop).starts_le hcap
  | declined s =>
    rw [turns_of_declined hop]
    exact Nat.zero_le _
  | stopped signal s =>
    rw [turns_of_stopped hop]
    exact Nat.zero_le _

theorem cappedLoop_of_reach (hcap : x.cap = some (n : Int)) {u : Turn σ}
    (hu : u ∈ x.turns w r world) (hr : u.deed = .reach) {hd : StepHead} {c : Condition}
    {body : List Step} (hs : u.here.step = .loop hd c body) :
    Engine.CappedLoop (x.engineOf w r world) n u c body :=
  Engine.cappedLoop hcap hs hr (Engine.state_eq_before (place_of_turn hu).2 hr)

/-- **The trace says that a loop went past its cap exactly if the condition held once too often.** -/
theorem recorded_of_cap (hcap : x.cap = some (n : Int)) {path name : String} {cap : Int} :
    ⟨path, .error (.loopLimit name cap)⟩ ∈ (x.runWorkflow w r world).2.trace ↔ cap = n ∧
      ∃ u ∈ x.turns w r world, u.deed = .reach ∧ u.here.step.kind = .loop ∧
        u.here.path = path ∧ u.here.step.name = name ∧
        (u.execution (x.engineOf w r world)).countP
          (Turn.holdsAt (x.engineOf w r world) u.depth) = n + 1 := by
  rw [limit_mem_trace_iff]
  constructor
  · rintro ⟨t, ht, hd, rfl, rfl⟩
    have hp := (place_of_turn ht).2
    rw [hd] at hp
    cases hp with
    | limit _ hk hc =>
      have hcn : cap = n := Option.some.inj (hc.symm.trans hcap)
      subst hcn
      obtain ⟨u, hu, hur, hh, ha, htu⟩ := execution_of_turn ht List.suffix_rfl
      rw [← hh] at hk ⊢
      obtain ⟨head, c, body, hs⟩ := Step.loop_of_kind hk
      refine ⟨rfl, u, hu, hur, hk, rfl, rfl, ?_⟩
      refine (cappedLoop_of_reach hcap hu hur hs).limited.mp ⟨t.before, ?_⟩
      obtain ⟨here, around, d, before⟩ := t
      dsimp only at hd hh ha ⊢
      rw [hh, ha, ← hd]
      exact htu
  · rintro ⟨rfl, u, hu, hur, hk, rfl, rfl, hcount⟩
    obtain ⟨head, c, body, hs⟩ := Step.loop_of_kind hk
    obtain ⟨s, hmem⟩ := (cappedLoop_of_reach hcap hu hur hs).limited.mpr hcount
    exact ⟨_, turn_of_execution hu hur hmem, rfl, rfl, rfl⟩

/-- **Every run under a cap is bounded.** -/
theorem runWorkflow_bounded (x : Executor σ) (n : Nat) (w : Workflow) (r : RunRequest)
    (world : σ) : ({ x with cap := some (n : Int) } : Executor σ).Bounded n w r world where
  ends := ends_of_cap rfl
  unbroken _ _ _ hts hd := execution_unbroken hts hd
  loops _ hu hr _ _ _ hs := cappedLoop_of_reach rfl hu hr hs
  recorded _ _ _ := recorded_of_cap rfl
  spawned := by
    rw [countP_isSpawned]
    exact starts_of_cap rfl

end Executor

end Runbook
