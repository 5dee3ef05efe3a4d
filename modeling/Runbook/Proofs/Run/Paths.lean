import Mathlib.Data.List.Pairwise
import Runbook.Proofs.Run.Coverage
import Runbook.Run.Script

/-!
# Paths identify executions

An entry of a trace is named by the path of its step. Where the names of the steps of each block differ
and hold no slash, no two entries have the same name, whatever the names look like, however loops are
nested and whichever block a branch chooses:

* `Below`, `Under`: what comes below a path; `eq_of_under`: a path is below one name of a block only;
* `iterationLabel_inj`: the iterations of a loop have labels of their own;
* `Step.Distinct`: the names of the steps of each block differ, and hold no slash;
* `Sits`, `Runs.sits`: where the turns of an activity are;
* `Turn.Separate`, `Runs.separate`: turns with the same path are at the same occurrence, and only one of
  them leaves an entry;
* `Executor.TracesApart`, **`runWorkflow_tracesApart`**: what this says of whole runs.
-/

namespace Runbook

variable {σ : Type}

/-! ## 1. Paths below paths -/

/-- A path goes on below another one. -/
def Below (p q : String) : Prop := ∃ rest, q = p ++ "/" ++ rest

/-- A path is another one, or goes on below it. -/
def Under (p q : String) : Prop := q = p ∨ Below p q

theorem Below.ne {p q : String} (h : Below p q) : q ≠ p := by
  obtain ⟨rest, rfl⟩ := h
  intro heq
  have hl := congrArg String.length heq
  rw [String.length_append, String.length_append] at hl
  have hslash : "/".length = 1 := by decide
  omega

theorem Below.append (p rest : String) : Below p (p ++ "/" ++ rest) := ⟨rest, rfl⟩

theorem Below.under {p q q' : String} (hp : Below p q) (h : Under q q') : Below p q' := by
  obtain ⟨rest, rfl⟩ := hp
  rcases h with rfl | ⟨more, rfl⟩
  · exact .append p rest
  · exact ⟨rest ++ "/" ++ more, by simp only [String.append_assoc]⟩

theorem Below.trans {p q q' : String} (hp : Below p q) (hq : Below q q') : Below p q' :=
  hp.under (Or.inr hq)

/-- What comes below `pre ++ name` begins with `pre`, and then goes on with the name and a slash. -/
theorem Under.toList {pre name q : String} (h : Under (pre ++ name) q) :
    ∃ tail, q.toList = pre.toList ++ (name.toList ++ tail) ∧ (tail = [] ∨ tail.head? = some '/') := by
  rcases h with rfl | ⟨rest, rfl⟩
  · exact ⟨[], by simp, Or.inl rfl⟩
  · exact ⟨'/' :: rest.toList, by simp, Or.inr rfl⟩

theorem takeWhile_part {part tail : List Char} (hp : '/' ∉ part)
    (ht : tail = [] ∨ tail.head? = some '/') :
    (part ++ tail).takeWhile (· ≠ '/') = part := by
  have hpart : ∀ c ∈ part, decide (c ≠ '/') = true := by
    intro c hc
    exact decide_eq_true fun h => hp (h ▸ hc)
  rw [List.takeWhile_append_of_pos hpart]
  rcases ht with rfl | ht
  · exact List.append_nil part
  · cases tail with
    | nil => exact List.append_nil part
    | cons c tail =>
      cases ht
      exact List.append_nil part

/-- **A path is at or below one part of a place only**, if parts hold no slash. -/
theorem eq_of_under {pre a b q : String} (ha : '/' ∉ a.toList) (hb : '/' ∉ b.toList)
    (hqa : Under (pre ++ a) q) (hqb : Under (pre ++ b) q) : a = b := by
  obtain ⟨ta, hta, hta'⟩ := hqa.toList
  obtain ⟨tb, htb, htb'⟩ := hqb.toList
  rw [hta] at htb
  have heq := congrArg (List.takeWhile (· ≠ '/')) (List.append_cancel_left htb)
  rw [takeWhile_part ha hta', takeWhile_part hb htb'] at heq
  exact String.toList_inj.mp heq

/-- The paths of the steps of a block differ in the name only. -/
theorem stepPath_split (above : String) : ∃ pre, ∀ name, stepPath above name = pre ++ name := by
  unfold stepPath
  by_cases h : above = ""
  · exact ⟨"", fun name => by rw [if_pos h, String.empty_append]⟩
  · exact ⟨above ++ "/", fun name => by rw [if_neg h]⟩

/-- A step inside a block is below the path of the block. -/
theorem below_stepPath (path label name : String) :
    Below (blockPath path label) (stepPath (blockPath path label) name) := by
  have hne : blockPath path label ≠ "" := by
    intro h
    have hl := congrArg String.length h
    simp [blockPath] at hl
  unfold stepPath
  rw [if_neg hne]
  exact .append _ _

theorem below_blockPath (path label : String) : Below path (blockPath path label) := .append _ _

/-- What is below the path of a block is below the path of its step. -/
theorem Below.of_block {path label q : String} (h : Below (blockPath path label) q) :
    Below path q :=
  (below_blockPath path label).trans h

/-! ## 2. Labels of iterations -/

theorem toList_iterationLabel (n : Nat) :
    (iterationLabel n).toList = "loop[".toList ++ (Nat.toDigits 10 n ++ [']']) := by
  have hdigits : (toString n).toList = Nat.toDigits 10 n := by
    rw [Nat.toString_eq_ofList_toDigits, String.toList_ofList]
  unfold iterationLabel
  rw [String.toList_append, String.toList_append, hdigits, List.append_assoc]
  rfl

theorem slash_not_mem_iterationLabel (n : Nat) : '/' ∉ (iterationLabel n).toList := by
  rw [toList_iterationLabel, List.mem_append, List.mem_append]
  rintro (h | h | h)
  · revert h
    decide
  · have hd := Nat.isDigit_of_mem_toDigits (by decide) (by decide) h
    revert hd
    decide
  · revert h
    decide

/-- **The iterations of a loop have different labels.** -/
theorem iterationLabel_inj {m n : Nat} (h : iterationLabel m = iterationLabel n) : m = n := by
  have hl := congrArg String.toList h
  rw [toList_iterationLabel, toList_iterationLabel] at hl
  have hd := List.append_cancel_right (List.append_cancel_left hl)
  rw [← Nat.ofDigitChars_ten_toDigits (n := m), hd, Nat.ofDigitChars_ten_toDigits]

/-! ## 3. Names that differ -/

/-- **The steps of each block of a tree have different names, and no name holds a slash.** -/
structure Step.Distinct (steps : List Step) : Prop where
  here : (steps.map Step.name).Nodup
  blocks : ∀ s ∈ Step.walkBlock steps, ∀ entry ∈ s.blocks, (entry.2.map Step.name).Nodup
  slashless : ∀ s ∈ Step.walkBlock steps, '/' ∉ s.name.toList

namespace Step.Distinct

theorem nil : Step.Distinct [] := ⟨List.nodup_nil, nofun, nofun⟩

/-- Names differ in a part of a tree if they differ in its own list of steps. -/
theorem part {steps sub : List Step} (h : Step.Distinct steps) (hn : (sub.map Step.name).Nodup)
    (hs : Step.walkBlock sub ⊆ Step.walkBlock steps) : Step.Distinct sub :=
  ⟨hn, fun s hm => h.blocks s (hs hm), fun s hm => h.slashless s (hs hm)⟩

theorem head {x : Step} {rest : List Step} (h : Step.Distinct (x :: rest)) : Step.Distinct [x] := by
  refine h.part (by simp) ?_
  simp [Step.walkBlock]

theorem tail {x : Step} {rest : List Step} (h : Step.Distinct (x :: rest)) :
    Step.Distinct rest := by
  refine h.part (List.nodup_cons.mp h.here).2 ?_
  simp [Step.walkBlock]

theorem slashless_of_mem {steps : List Step} (h : Step.Distinct steps) {x : Step} (hx : x ∈ steps) :
    '/' ∉ x.name.toList :=
  h.slashless x (Step.mem_walkBlock.mpr ⟨x, hx, Step.mem_walk_self x⟩)

/-- Names differ in the blocks of a step. -/
theorem block {x : Step} (h : Step.Distinct [x]) {entry : String × List Step}
    (he : entry ∈ x.blocks) : Step.Distinct entry.2 := by
  have hx : x ∈ Step.walkBlock [x] :=
    Step.mem_walkBlock.mpr ⟨x, List.mem_singleton_self x, Step.mem_walk_self x⟩
  refine h.part (h.blocks x hx entry he) fun y hy => ?_
  obtain ⟨child, hc, hy⟩ := Step.mem_walkBlock.mp hy
  refine Step.mem_walkBlock.mpr ⟨x, List.mem_singleton_self x, ?_⟩
  exact Step.mem_walk_of_child (Step.mem_children_of_blocks entry.1 he hc) hy

theorem blockFor {hd : StepHead} {c : Condition} {t : List Step} {el : Option (List Step)}
    {a : Option Action} (h : Step.Distinct [.conditional hd c t el a]) (holds : Bool) :
    Step.Distinct (Step.blockFor holds t el).2 := by
  rcases hb : (Step.blockFor holds t el).2 with _ | ⟨x, rest⟩
  · exact nil
  · have hx : x ∈ (Step.blockFor holds t el).2 := by simp [hb]
    rw [← hb]
    exact h.block (Step.mem_blocks_of_blockFor hx)

theorem blockOfCase {hd : StepHead} {v : String} {cases : List (String × List Step)}
    {d : Option (List Step)} (h : Step.Distinct [.branch hd v cases d]) (context : Context)
    (value : String) : Step.Distinct (Step.blockOfCase context value d cases).2 := by
  rcases Step.blockOfCase_cases context value d cases with ⟨entry, he, -, hb⟩ | hb
  · rw [hb]
    have hmem : (Step.caseLabel entry.1, entry.2) ∈ (Step.branch hd v cases d).blocks :=
      List.mem_append_left _ (List.mem_map.mpr ⟨entry, he, rfl⟩)
    have hblock := h.block hmem
    exact hblock
  · rw [hb]
    cases d with
    | none => exact nil
    | some d =>
      have hmem : ("default", d) ∈ (Step.branch hd v cases (some d)).blocks :=
        List.mem_append_right _ List.mem_cons_self
      exact h.block hmem

end Step.Distinct

namespace Engine

variable {e : Engine σ} {around : List (Occurrence σ)} {act : Activity σ} {s s' : RunState σ}
  {ts : List (Turn σ)} {r : Except Signal Unit}

/-! ## 4. Where turns are -/

/-- A turn is where an activity goes on at, or below the paths that the activity comes to. -/
def Sits (around : List (Occurrence σ)) : Activity σ → Turn σ → Prop
  | .step above _ x, t => Under (stepPath above x.name) t.here.path
  | .block above _ steps, t => ∃ x ∈ steps, Under (stepPath above x.name) t.here.path
  | .inside o, t => t.here = o ∧ t.around = around ∨ Below o.path t.here.path
  | .rounds o _ _ _ done, t => t.here = o ∧ t.around = around ∨
    ∃ k, done < k ∧ Below (blockPath o.path (iterationLabel k)) t.here.path

/-- The turns of a block are below the path of the block. -/
theorem Sits.below {path label : String} {top : Bool} {block : List Step} {t : Turn σ}
    (h : Sits around (.block (blockPath path label) top block) t) :
    Below (blockPath path label) t.here.path := by
  obtain ⟨x, -, hx⟩ := h
  exact (below_stepPath path label x.name).under hx

theorem Sits.of_leads {around' : List (Occurrence σ)} {act' : Activity σ} {t : Turn σ}
    (hl : e.Leads around act around' act') (h : Sits around' act' t) : Sits around act t := by
  cases hl with
  | first => exact ⟨_, List.mem_cons_self, h⟩
  | later =>
    obtain ⟨x, hx, hu⟩ := h
    exact ⟨x, List.mem_cons_of_mem _ hx, hu⟩
  | reached =>
    rcases h with ⟨hh, -⟩ | hb
    · exact Or.inl (by rw [hh]; rfl)
    · exact Or.inr hb
  | taken => exact Or.inr h.below.of_block
  | chosen => exact Or.inr h.below.of_block
  | looped =>
    rcases h with hh | ⟨k, -, hb⟩
    · exact Or.inl hh
    · exact Or.inr hb.of_block
  | body => exact Or.inr ⟨_, Nat.lt_succ_self _, h.below⟩
  | again =>
    rcases h with hh | ⟨k, hk, hb⟩
    · exact Or.inl hh
    · exact Or.inr ⟨k, Nat.lt_of_succ_lt hk, hb⟩

/-- **Every turn is at or below a path that its activity comes to.** -/
theorem Runs.sits (h : e.Runs around act s ts r s') : ∀ t ∈ ts, Sits around act t := by
  refine h.each (P := fun around' act' => ∀ t, Sits around' act' t → Sits around act t)
    (fun hp hl t ht => hp t (ht.of_leads hl)) ?_ fun _ ht => ht
  intro around' act' t hp ho
  refine hp t ?_
  cases ho with
  | reach => exact Or.inl rfl
  | start | decide | act => exact Or.inl ⟨rfl, rfl⟩
  | judge | limit | tire => exact Or.inl ⟨rfl, rfl⟩

end Engine

/-! ## 5. Turns apart -/

/-- **Two turns with the same path are at the same occurrence, and at most one of them leaves an
entry.** -/
def Turn.Separate (e : Engine σ) (t u : Turn σ) : Prop :=
  t.here.path = u.here.path →
    t.here = u.here ∧ t.around = u.around ∧ (t.entry? e = none ∨ u.entry? e = none)

namespace Engine

variable {e : Engine σ} {around : List (Occurrence σ)} {act : Activity σ} {s s' : RunState σ}
  {ts us : List (Turn σ)} {r : Except Signal Unit} {o : Occurrence σ}

/-- A turn that leaves no entry is apart from what else happens at and below its step. -/
theorem separate_of_silent {t : Turn σ} (hh : t.here = o) (ha : t.around = around)
    (he : t.entry? e = none) (hu : ∀ u ∈ us, Sits around (.inside o) u) :
    ∀ u ∈ us, Turn.Separate e t u := by
  intro u hm heq
  rcases hu u hm with ⟨hu, hua⟩ | hb
  · exact ⟨hh.trans hu.symm, ha.trans hua.symm, Or.inl he⟩
  · rw [hh] at heq
    exact absurd heq.symm hb.ne

/-- Turns of a block are apart from a turn at the step of the block. -/
theorem separate_of_below {label : String} {top : Bool} {block : List Step} {u : Turn σ}
    (hts : ∀ t ∈ ts, Sits (o :: around) (.block (blockPath o.path label) top block) t)
    (hu : u.here = o) : ∀ t ∈ ts, Turn.Separate e t u := by
  intro t ht heq
  rw [hu] at heq
  exact absurd heq (hts t ht).below.of_block.ne

/-- Turns of a step are apart from those of the steps behind it in the block. -/
theorem separate_of_names {above : String} {top : Bool} {x : Step} {rest : List Step}
    (hd : Step.Distinct (x :: rest)) (hts : ∀ t ∈ ts, Sits around (.step above top x) t)
    (hus : ∀ u ∈ us, Sits around (.block above top rest) u) :
    ∀ t ∈ ts, ∀ u ∈ us, Turn.Separate e t u := by
  intro t ht u hu heq
  have hx : Under (stepPath above x.name) t.here.path := hts t ht
  obtain ⟨y, hy, hyu⟩ := hus u hu
  obtain ⟨pre, hpre⟩ := stepPath_split above
  rw [heq, hpre] at hx
  rw [hpre] at hyu
  have hname : x.name = y.name := eq_of_under (hd.slashless_of_mem List.mem_cons_self)
    (hd.slashless_of_mem (List.mem_cons_of_mem _ hy)) hx hyu
  exact absurd (hname ▸ List.mem_map_of_mem hy) (List.nodup_cons.mp hd.here).1

/-- Turns of an iteration are apart from those of the later rounds of the loop. -/
theorem separate_of_rounds {top : Bool} {block body : List Step} {c : Condition} {k left : Nat}
    (hts : ∀ t ∈ ts,
      Sits (o :: around) (.block (blockPath o.path (iterationLabel k)) top block) t)
    (hus : ∀ u ∈ us, Sits around (.rounds o c body left k) u) :
    ∀ t ∈ ts, ∀ u ∈ us, Turn.Separate e t u := by
  intro t ht u hu
  rcases hus u hu with ⟨hh, -⟩ | ⟨j, hj, hb⟩
  · exact separate_of_below hts hh t ht
  · intro heq
    have ht' : Under (o.path ++ "/" ++ iterationLabel k) u.here.path :=
      heq ▸ Or.inr (hts t ht).below
    have hlabel := eq_of_under (slash_not_mem_iterationLabel k) (slash_not_mem_iterationLabel j)
      ht' (Or.inr hb)
    exact absurd (iterationLabel_inj hlabel) (Nat.ne_of_lt hj)

/-- A step that is let in leaves no entry by that. -/
theorem entry?_of_reached {s₁ : RunState σ} (h : e.perform o .reach s = (.ok (), s₁)) :
    Turn.entry? e ⟨o, around, .reach, s⟩ = none := by
  unfold Turn.entry?
  dsimp only
  cases does_of_perform h with
  | free ha => rw [ha]; rfl
  | approved _ _ ha _ hy => rw [ha, hy]; rfl

/-- The names that an activity comes to differ, block by block. -/
def Apart : Activity σ → Prop
  | .step _ _ x => Step.Distinct [x]
  | .block _ _ steps => Step.Distinct steps
  | .inside o => Step.Distinct [o.step]
  | .rounds _ _ body _ _ => Step.Distinct body

theorem Apart.taken {hd : StepHead} {c : Condition} {t : List Step} {el : Option (List Step)}
    {a : Option Action} (h : Apart (.inside o)) (hs : o.step = .conditional hd c t el a)
    (holds : Bool) : Step.Distinct (Step.blockFor holds t el).2 := by
  have h' : Step.Distinct [o.step] := h
  rw [hs] at h'
  exact h'.blockFor holds

theorem Apart.chosen {hd : StepHead} {v : String} {cases : List (String × List Step)}
    {d : Option (List Step)} (h : Apart (.inside o)) (hs : o.step = .branch hd v cases d) :
    Step.Distinct (o.choice v cases d).2 := by
  have h' : Step.Distinct [o.step] := h
  rw [hs] at h'
  exact h'.blockOfCase _ _

theorem Apart.looped {hd : StepHead} {c : Condition} {body : List Step} (h : Apart (.inside o))
    (hs : o.step = .loop hd c body) : Step.Distinct body := by
  have h' : Step.Distinct [o.step] := h
  have hb : ("loop", body) ∈ (Step.loop hd c body).blocks := List.mem_cons_self
  rw [hs] at h'
  exact h'.block hb

/-- **The turns of a run are apart from each other.** -/
theorem Runs.separate (h : e.Runs around act s ts r s') :
    Apart act → ts.Pairwise (Turn.Separate e) := by
  -- what happens inside a step is below its path, so that only turns at the step itself share it, and
  -- of these all but the last are silent
  induction h with
  | nil => exact fun _ => .nil
  | cons first later ihx ihr =>
    intro hd
    exact List.pairwise_append.mpr ⟨ihx (Step.Distinct.head hd), ihr (Step.Distinct.tail hd),
      separate_of_names hd first.sits later.sits⟩
  | cut _ ih => exact fun hd => ih (Step.Distinct.head hd)
  | barred | leaf | unjudged | tired | undecided | ceased =>
    exact fun _ => List.pairwise_singleton _ _
  | reached h inner ih =>
    exact fun hd => List.pairwise_cons.mpr
      ⟨separate_of_silent rfl rfl (entry?_of_reached h) inner.sits,
        ih hd⟩
  | stopped hs hj inner ih =>
    intro hd
    refine List.pairwise_cons.mpr ⟨?_, ih (hd.taken hs _)⟩
    exact separate_of_silent rfl rfl rfl fun u hu => Or.inr (inner.sits u hu).below.of_block
  | acted hs hj inner ha ih =>
    intro hd
    refine List.pairwise_cons.mpr ⟨separate_of_silent rfl rfl rfl ?_, List.pairwise_append.mpr
      ⟨ih (hd.taken hs _), List.pairwise_singleton _ _, ?_⟩⟩
    · exact List.forall_mem_append.mpr
        ⟨fun u hu => Or.inr (inner.sits u hu).below.of_block,
          List.forall_mem_singleton.mpr (Or.inl ⟨rfl, rfl⟩)⟩
    · exact fun t ht => List.forall_mem_singleton.mpr (separate_of_below inner.sits rfl t ht)
  | chosen hs _ ih => exact fun hd => ih (hd.chosen hs)
  | looped hs _ ih => exact fun hd => ih (hd.looped hs)
  | capped =>
    exact fun _ => List.pairwise_cons.mpr
      ⟨separate_of_silent rfl rfl rfl (List.forall_mem_singleton.mpr (Or.inl ⟨rfl, rfl⟩)),
        List.pairwise_singleton _ _⟩
  | left hj hc inner ih =>
    intro hd
    refine List.pairwise_cons.mpr ⟨?_, ih hd⟩
    exact separate_of_silent rfl rfl rfl fun u hu =>
      Or.inr (inner.sits u hu).below.of_block
  | ended hj hc inner hne ih =>
    intro hd
    refine List.pairwise_cons.mpr ⟨?_, ih hd⟩
    exact separate_of_silent rfl rfl rfl fun u hu =>
      Or.inr (inner.sits u hu).below.of_block
  | again hj hc inner next ihb ihn =>
    intro hd
    refine List.pairwise_cons.mpr ⟨separate_of_silent rfl rfl rfl ?_, List.pairwise_append.mpr
      ⟨ihb hd, ihn hd, separate_of_rounds inner.sits next.sits⟩⟩
    refine List.forall_mem_append.mpr ⟨fun u hu => ?_, fun u hu => ?_⟩
    · exact Or.inr (inner.sits u hu).below.of_block
    · rcases next.sits u hu with hh | ⟨k, -, hb⟩
      · exact Or.inl hh
      · exact Or.inr hb.of_block

/-- Turns that are apart leave entries with different names. -/
theorem nodup_names (h : ts.Pairwise (Turn.Separate e)) :
    ((ts.filterMap (Turn.entry? e)).map (·.name)).Nodup := by
  rw [List.Nodup, List.pairwise_map, List.pairwise_filterMap]
  refine h.imp ?_
  intro t u hs a ha b hb heq
  rw [name_of_entry ha, name_of_entry hb] at heq
  rcases (hs heq).2.2 with hn | hn
  · rw [hn] at ha
    cases ha
  · rw [hn] at hb
    cases hb

end Engine

/-! ## 6. Whole runs -/

namespace Executor

variable {x : Executor σ} {w : Workflow} {r : RunRequest} {world : σ}

/-- **Paths identify executions.**

* `identified`: turns with the same path are at the same occurrence, inside the same ones;
* `trace`, `reports`: no two entries of the trace of a run have the same name, nor do those of reports;
* `declined`: a workflow that is turned down as a whole leaves that entry alone. -/
structure TracesApart (x : Executor σ) (w : Workflow) (r : RunRequest) (world : σ) : Prop where
  identified : (x.turns w r world).Pairwise fun t u =>
    t.here.path = u.here.path → t.here = u.here ∧ t.around = u.around
  trace : ((x.runWorkflow w r world).2.trace.map (·.name)).Nodup
  reports : ∀ report ∈ (x.runWorkflow w r world).1.report?, (report.trace.map (·.name)).Nodup
  declined : x.Answered w r world false → (x.runWorkflow w r world).2.trace =
    [⟨w.name, .error (.notApproved .workflow w.name)⟩]

/-- The turns of a run are apart from each other. -/
theorem turns_separate (h : Step.Distinct w.steps) (x : Executor σ) (r : RunRequest) (world : σ) :
    (x.turns w r world).Pairwise (Turn.Separate (x.engineOf w r world)) := by
  obtain ⟨o, hop, ho⟩ := x.exists_opening w r world
  cases ho with
  | begun approved s => exact (runs_of_begun hop).separate h
  | unfilled | unanswered =>
    rw [turns_of_stopped hop]
    exact .nil
  | refused =>
    rw [turns_of_declined hop]
    exact .nil

/-- **Where the names of each block differ and hold no slash, the entries of every run have different
names.** -/
theorem runWorkflow_tracesApart (x : Executor σ) {w : Workflow} (h : Step.Distinct w.steps)
    (r : RunRequest) (world : σ) : x.TracesApart w r world := by
  have hturns := turns_separate h x r world
  have htrace : ((x.runWorkflow w r world).2.trace.map (·.name)).Nodup := by
    rcases x.trace_cases w r world with htr | ⟨-, htr⟩
    · rw [htr]
      exact Engine.nodup_names hturns
    · rw [htr]
      exact List.pairwise_singleton _ _
  refine ⟨hturns.imp fun hs heq => ?_, htrace, fun report hr => ?_, fun hno => ?_⟩
  · exact ⟨(hs heq).1, (hs heq).2.1⟩
  · rw [(report_eq hr).1]
    exact htrace
  · obtain ⟨s, hop⟩ := opening_of_refused hno
    rw [runWorkflow_eq, hop]
    rfl

/-- A loop in a loop and a conditional, with names that look like labels. -/
def labelled : Workflow :=
  ⟨"labels", "", [
    .command ⟨"then", "", "start", false, false⟩,
    .loop ⟨"loop[1]", "", "", false, false⟩ ⟨"[ -f outer ]", none⟩ [
      .loop ⟨"loop[2]", "", "", false, false⟩ ⟨"[ -f inner ]", none⟩
        [.command ⟨"loop[1]", "", "work", false, false⟩],
      .conditional ⟨"then", "", "", false, false⟩ ⟨"[ -f done ]", none⟩
        [.command ⟨"then", "", "report", false, false⟩] none none]],
    [], [], [], 0, none, 0⟩

/-- Through two outer iterations with an inner one each, up to the cap, its entries differ. -/
theorem labelled_tracesApart :
    let x : Executor Script := ⟨Script.world true true, ⟨1000, 3, [], [], []⟩, some 2, 0, false⟩
    let r : RunRequest := ⟨none, [], some [], false⟩
    let world : Script := ⟨[], [("[ -f inner ]", [.decided true, .decided false, .decided true]),
      ("*", [.decided true, .decided true, .decided true, .decided true, .decided true])], [], []⟩
    Step.Distinct labelled.steps ∧
      (x.runWorkflow labelled r world).2.trace.map (·.name) =
        ["then", "loop[1]/loop[1]/loop[2]/loop[1]/loop[1]", "loop[1]/loop[1]/then/then/then",
          "loop[1]/loop[2]/loop[2]/loop[1]/loop[1]", "loop[1]/loop[2]/then/then/then", "loop[1]"] ∧
      x.TracesApart labelled r world := by
  intro x r world
  have hdistinct : Step.Distinct labelled.steps :=
    ⟨by decide +kernel, by decide +kernel, by decide +kernel⟩
  exact ⟨hdistinct, by decide +kernel, runWorkflow_tracesApart x hdistinct r world⟩

end Executor

end Runbook
