import Runbook.Proofs.Definition.Reading
import Runbook.Proofs.StepTree

/-!
# The steps that a definition gives

* `StepRead`: when the fields of a map are read as a step, one rule for each kind;
  **`readStep_eq_valid`**: a step is read if and only if a rule says so;
* `exists_of_mem_block`, `exists_of_mem_cases`: every step of a block was read from a value;
* `Step.Proper`: a step that holds others has no command text, and an action that leaves the run
  carries an exit code;
* **`proper_of_readStep`**: at every depth, a definition gives proper steps only.
-/

namespace Runbook

namespace Definition

/-! ## 1. Rules for reading a step -/

/-- **When the fields of a map are read as a step.** -/
inductive StepRead (fields : Fields) : Step → Prop where
  | command {head : StepHead} (kind : kindOf fields = .ok .command)
      (own : readHead fields = .valid head) : StepRead fields (.command head)
  | auth {head : StepHead} (kind : kindOf fields = .ok .auth)
      (own : readHead fields = .valid head) : StepRead fields (.auth head)
  | conditional {head : StepHead} {payload : Fields} {c : Condition} {t : List Step}
      {el : Option (List Step)} {a : Option Action} (kind : kindOf fields = .ok .conditional)
      (own : readHead fields = .valid head) (silent : head.command = "")
      (carried : Value.lookup "conditional" fields = some (.map payload))
      (condition : required payload "condition" readCondition = .valid c)
      (thenBlock : optional payload "then_block" [] (readListOf readStep) = .valid t)
      (elseBlock : nullable payload "else_block" (readListOf readStep) = .valid el)
      (action : nullable payload "action" readAction = .valid a) :
      StepRead fields (.conditional head c t el a)
  | branch {head : StepHead} {payload : Fields} {selector : String}
      {cs : List (String × List Step)} {d : Option (List Step)}
      (kind : kindOf fields = .ok .branch) (own : readHead fields = .valid head)
      (silent : head.command = "")
      (carried : Value.lookup "branch" fields = some (.map payload))
      (selected : required payload "variable" readText = .valid selector)
      (cases : optional payload "cases" [] readCases = .valid cs)
      (fallback : nullable payload "default_case" (readListOf readStep) = .valid d) :
      StepRead fields (.branch head selector cs d)
  | loop {head : StepHead} {payload : Fields} {c : Condition} {b : List Step}
      (kind : kindOf fields = .ok .loop) (own : readHead fields = .valid head)
      (silent : head.command = "")
      (carried : Value.lookup "loop" fields = some (.map payload))
      (condition : required payload "condition" readCondition = .valid c)
      (body : optional payload "steps" [] (readListOf readStep) = .valid b) :
      StepRead fields (.loop head c b)

/-- A step that holds others is read from its head and its payload, and has no command text. -/
theorem controlStep_eq_valid {kind : StepKind} {name : String} {fields : Fields}
    {read : Value → Checked (StepHead → Step)} {s : Step} :
    controlStep kind fields (match lookupBelow name fields with
      | none => .fault .missing
      | some ⟨v, _⟩ => read v) = .valid s ↔
    ∃ head make payload, readHead fields = .valid head ∧
      Value.lookup name fields = some payload ∧ read payload = .valid make ∧
      s = make head ∧ s.commandText = "" := by
  have hp : ∀ make, (match lookupBelow name fields with
      | none => .fault .missing
      | some ⟨v, _⟩ => read v) = Checked.valid make ↔
      ∃ payload, Value.lookup name fields = some payload ∧ read payload = .valid make := by
    intro make
    rw [← lookupBelow_eq]
    cases lookupBelow name fields <;> simp
  unfold controlStep
  rw [Checked.under_eq_valid, Checked.demand_eq_valid, Checked.both_eq_valid]
  simp only [Checked.under_eq_valid, hp, withoutCommand, ite_eq_left_iff, reduceCtorEq, imp_false,
    not_not]
  constructor
  · rintro ⟨⟨head, make, hh, ⟨payload, hl, hm⟩, rfl⟩, hc⟩
    exact ⟨head, make, payload, hh, hl, hm, rfl, hc⟩
  · rintro ⟨head, make, payload, hh, hl, hm, rfl, hc⟩
    exact ⟨⟨head, make, hh, ⟨payload, hl, hm⟩, rfl⟩, hc⟩

theorem readConditional_eq_valid {v : Value} {make : StepHead → Step} :
    readConditional v = .valid make ↔ ∃ payload c t el a, v = .map payload ∧
      required payload "condition" readCondition = .valid c ∧
      optional payload "then_block" [] (readListOf readStep) = .valid t ∧
      nullable payload "else_block" (readListOf readStep) = .valid el ∧
      nullable payload "action" readAction = .valid a ∧
      make = fun head => .conditional head c t el a := by
  cases v with
  | scalar s => simp [readConditional]
  | list items => simp [readConditional]
  | set members => simp [readConditional]
  | map payload =>
    simp only [readConditional_map, Checked.functor_map_eq, Checked.seq_eq_both,
      Checked.both_eq_valid, Checked.map_eq_valid, Value.map.injEq]
    constructor
    · rintro ⟨_, a, ⟨_, el, ⟨_, t, ⟨c, hc, rfl⟩, ht, rfl⟩, hel, rfl⟩, ha, rfl⟩
      exact ⟨payload, c, t, el, a, rfl, hc, ht, hel, ha, rfl⟩
    · rintro ⟨_, c, t, el, a, rfl, hc, ht, hel, ha, rfl⟩
      exact ⟨_, a, ⟨_, el, ⟨_, t, ⟨c, hc, rfl⟩, ht, rfl⟩, hel, rfl⟩, ha, rfl⟩

theorem readBranch_eq_valid {v : Value} {make : StepHead → Step} :
    readBranch v = .valid make ↔ ∃ payload selector cs d, v = .map payload ∧
      required payload "variable" readText = .valid selector ∧
      optional payload "cases" [] readCases = .valid cs ∧
      nullable payload "default_case" (readListOf readStep) = .valid d ∧
      make = fun head => .branch head selector cs d := by
  cases v with
  | scalar s => simp [readBranch]
  | list items => simp [readBranch]
  | set members => simp [readBranch]
  | map payload =>
    simp only [readBranch_map, Checked.functor_map_eq, Checked.seq_eq_both,
      Checked.both_eq_valid, Checked.map_eq_valid, Value.map.injEq]
    constructor
    · rintro ⟨_, d, ⟨_, cs, ⟨selector, hs, rfl⟩, hcs, rfl⟩, hd, rfl⟩
      exact ⟨payload, selector, cs, d, rfl, hs, hcs, hd, rfl⟩
    · rintro ⟨_, selector, cs, d, rfl, hs, hcs, hd, rfl⟩
      exact ⟨_, d, ⟨_, cs, ⟨selector, hs, rfl⟩, hcs, rfl⟩, hd, rfl⟩

theorem readLoop_eq_valid {v : Value} {make : StepHead → Step} :
    readLoop v = .valid make ↔ ∃ payload c b, v = .map payload ∧
      required payload "condition" readCondition = .valid c ∧
      optional payload "steps" [] (readListOf readStep) = .valid b ∧
      make = fun head => .loop head c b := by
  cases v with
  | scalar s => simp [readLoop]
  | list items => simp [readLoop]
  | set members => simp [readLoop]
  | map payload =>
    simp only [readLoop_map, Checked.functor_map_eq, Checked.seq_eq_both, Checked.both_eq_valid,
      Checked.map_eq_valid, Value.map.injEq]
    constructor
    · rintro ⟨_, b, ⟨c, hc, rfl⟩, hb, rfl⟩
      exact ⟨payload, c, b, rfl, hc, hb, rfl⟩
    · rintro ⟨_, c, b, rfl, hc, hb, rfl⟩
      exact ⟨_, b, ⟨c, hc, rfl⟩, hb, rfl⟩

/-- What is read as a step is a map. -/
theorem exists_map_of_readStep {v : Value} {s : Step} (h : readStep v = .valid s) :
    ∃ fields, v = .map fields := by
  cases v with
  | map fields => exact ⟨fields, rfl⟩
  | scalar s => simp [readStep] at h
  | list items => simp [readStep] at h
  | set members => simp [readStep] at h

/-- **A step is read if and only if a rule says so.** -/
theorem readStep_eq_valid {fields : Fields} {s : Step} :
    readStep (.map fields) = .valid s ↔ StepRead fields s := by
  rw [readStep]
  constructor
  · intro h
    split at h
    · cases h
    · obtain ⟨head, hh, rfl⟩ := Checked.map_eq_valid.mp (Checked.under_eq_valid.mp h)
      exact .command ‹_› hh
    · obtain ⟨head, hh, rfl⟩ := Checked.map_eq_valid.mp (Checked.under_eq_valid.mp h)
      exact .auth ‹_› hh
    · obtain ⟨head, make, payload, hh, hp, hm, rfl, hc⟩ := controlStep_eq_valid.mp h
      obtain ⟨p, c, t, el, a, rfl, hc', ht, hel, ha, rfl⟩ := readConditional_eq_valid.mp hm
      exact .conditional ‹_› hh hc hp hc' ht hel ha
    · obtain ⟨head, make, payload, hh, hp, hm, rfl, hc⟩ := controlStep_eq_valid.mp h
      obtain ⟨p, selector, cs, d, rfl, hs, hcs, hd, rfl⟩ := readBranch_eq_valid.mp hm
      exact .branch ‹_› hh hc hp hs hcs hd
    · obtain ⟨head, make, payload, hh, hp, hm, rfl, hc⟩ := controlStep_eq_valid.mp h
      obtain ⟨p, c, b, rfl, hc', hb, rfl⟩ := readLoop_eq_valid.mp hm
      exact .loop ‹_› hh hc hp hc' hb
  · intro h
    cases h with
    | command hk hh => simp only [hk, hh, Checked.map_valid, Checked.under_valid]
    | auth hk hh => simp only [hk, hh, Checked.map_valid, Checked.under_valid]
    | conditional hk hh hc hp hc' ht hel ha =>
      simp only [hk]
      exact controlStep_eq_valid.mpr ⟨_, _, _, hh, hp, readConditional_eq_valid.mpr
        ⟨_, _, _, _, _, rfl, hc', ht, hel, ha, rfl⟩, rfl, hc⟩
    | branch hk hh hc hp hs hcs hd =>
      simp only [hk]
      exact controlStep_eq_valid.mpr ⟨_, _, _, hh, hp, readBranch_eq_valid.mpr
        ⟨_, _, _, _, rfl, hs, hcs, hd, rfl⟩, rfl, hc⟩
    | loop hk hh hc hp hc' hb =>
      simp only [hk]
      exact controlStep_eq_valid.mpr ⟨_, _, _, hh, hp, readLoop_eq_valid.mpr
        ⟨_, _, _, rfl, hc', hb, rfl⟩, rfl, hc⟩

/-! ## 2. Where the steps of a block come from -/

theorem exists_of_mem_block {v : Value} {block : List Step}
    (h : readListOf readStep v = .valid block) {s : Step} (hs : s ∈ block) :
    ∃ u, readStep u = .valid s := by
  obtain ⟨items, hitems, -⟩ := exists_items_of_readListOf h
  obtain ⟨u, -, hu⟩ := exists_item_of_mem hitems hs
  exact ⟨u, hu⟩

theorem exists_of_mem_optional {fields : Fields} {name : String} {block : List Step}
    (h : optional fields name [] (readListOf readStep) = .valid block) {s : Step} (hs : s ∈ block) :
    ∃ u, readStep u = .valid s := by
  rcases optional_eq_valid.mp h with ⟨-, rfl⟩ | ⟨v, -, h⟩
  · cases hs
  · exact exists_of_mem_block h hs

theorem exists_of_mem_nullable {fields : Fields} {name : String} {block : List Step}
    (h : nullable fields name (readListOf readStep) = .valid (some block)) {s : Step}
    (hs : s ∈ block) : ∃ u, readStep u = .valid s := by
  rcases nullable_eq_valid.mp h with ⟨-, h⟩ | ⟨v, b, -, -, h, hb⟩
  · cases h
  · cases hb
    exact exists_of_mem_block h hs

/-- Listed values that are no cases give none, so there are none of them. -/
theorem looseCases_eq_valid {items? : Option (List Value)} {cs : List (String × List Step)} :
    looseCases items? = .valid cs ↔ items? = some [] ∧ cs = [] := by
  cases items? with
  | none => simp [looseCases]
  | some items =>
    cases items with
    | nil => simp [looseCases, readItems, eq_comm]
    | cons v rest => simp [looseCases, readItems, Checked.both_eq_valid, Checked.under_eq_valid]

/-- What is read as cases is a list of cases, or there is nothing in it. -/
theorem readCases_eq_valid {v : Value} {cs : List (String × List Step)} :
    readCases v = .valid cs ↔
      (∃ items, v = .list items ∧ readItems readCase 0 items = .valid cs) ∨
        (looseItems? v = some [] ∧ cs = []) := by
  cases v with
  | list items => simp [readCases_list, looseItems?]
  | scalar s => simp [readCases, looseCases_eq_valid]
  | set members => simp [readCases, looseCases_eq_valid]
  | map fields => simp [readCases, looseCases_eq_valid]

theorem readCase_eq_valid {v : Value} {entry : String × List Step} :
    readCase v = .valid entry ↔ ∃ fields, v = .map fields ∧
      required fields "value" readText = .valid entry.1 ∧
      optional fields "steps" [] (readListOf readStep) = .valid entry.2 := by
  obtain ⟨value, block⟩ := entry
  simp [readCase_eq, readRecord_eq_valid, Checked.both_eq_valid]

theorem exists_of_mem_cases {fields : Fields} {cs : List (String × List Step)}
    (h : optional fields "cases" [] readCases = .valid cs) {entry : String × List Step}
    (he : entry ∈ cs) {s : Step} (hs : s ∈ entry.2) : ∃ u, readStep u = .valid s := by
  rcases optional_eq_valid.mp h with ⟨-, rfl⟩ | ⟨v, -, h⟩
  · cases he
  rcases readCases_eq_valid.mp h with ⟨items, -, h⟩ | ⟨-, rfl⟩
  · obtain ⟨u, -, hu⟩ := exists_item_of_mem h he
    obtain ⟨fields, -, -, hblock⟩ := readCase_eq_valid.mp hu
    exact exists_of_mem_optional hblock hs
  · cases he

/-- **Every child of a step that was read was read.** -/
theorem exists_of_mem_children {v : Value} {s : Step} (h : readStep v = .valid s) {child : Step}
    (hc : child ∈ s.children) : ∃ u, readStep u = .valid child := by
  obtain ⟨fields, rfl⟩ := exists_map_of_readStep h
  unfold Step.children at hc
  obtain ⟨⟨label, block⟩, hb, hm⟩ := List.mem_flatMap.mp hc
  cases readStep_eq_valid.mp h with
  | command | auth => cases hb
  | @conditional _ _ _ _ el _ _ _ _ _ _ ht hel _ =>
    rcases List.mem_cons.mp hb with hb | hb
    · cases hb
      exact exists_of_mem_optional ht hm
    · cases el with
      | none => cases hb
      | some el =>
        cases List.mem_singleton.mp hb
        exact exists_of_mem_nullable hel hm
  | @branch _ _ _ cs d _ _ _ _ _ hcs hd =>
    rcases List.mem_append.mp hb with hb | hb
    · obtain ⟨entry, he, hb⟩ := List.mem_map.mp hb
      cases hb
      exact exists_of_mem_cases hcs he hm
    · cases d with
      | none => cases hb
      | some d =>
        cases List.mem_singleton.mp hb
        exact exists_of_mem_nullable hd hm
  | loop _ _ _ _ _ hbody =>
    cases List.mem_singleton.mp hb
    exact exists_of_mem_optional hbody hm

end Definition

/-! ## 3. Proper steps -/

/-- A step that holds others has no command text, and an action that leaves the run carries an exit
code. -/
def Step.Proper : Step → Prop
  | .command _ => True
  | .auth _ => True
  | .conditional head _ _ _ action => head.command = "" ∧
    ∀ a, action = some a → a.kind = .leaveRun → a.exitCode ≠ none
  | .branch head _ _ _ => head.command = ""
  | .loop head _ _ => head.command = ""

namespace Definition

theorem exitCode_ne_none_of_readActionFields {fields : Fields} {a : Action}
    (h : readActionFields fields = .valid a) (hk : a.kind = .leaveRun) : a.exitCode ≠ none := by
  have hd := (Checked.demand_eq_valid.mp h).2
  intro hn
  simp [hk, hn] at hd

theorem exitCode_ne_none_of_readAction {v : Value} {a : Action} (h : readAction v = .valid a)
    (hk : a.kind = .leaveRun) : a.exitCode ≠ none := by
  unfold readAction at h
  split at h
  · split at h
    · exact exitCode_ne_none_of_readActionFields h hk
    · cases h
  · unfold readRecord at h
    split at h
    · exact exitCode_ne_none_of_readActionFields h hk
    · cases h

/-- A step that was read is proper. -/
theorem proper_of_read {v : Value} {s : Step} (h : readStep v = .valid s) : s.Proper := by
  obtain ⟨fields, rfl⟩ := exists_map_of_readStep h
  cases readStep_eq_valid.mp h with
  | command | auth => trivial
  | conditional _ _ silent _ _ _ _ ha =>
    refine ⟨silent, ?_⟩
    rintro a rfl
    rcases nullable_eq_valid.mp ha with ⟨-, hn⟩ | ⟨u, b, -, -, hb, he⟩
    · cases hn
    · cases he
      exact exitCode_ne_none_of_readAction hb
  | branch _ _ silent => exact silent
  | loop _ _ silent => exact silent

/-- **A definition gives proper steps only, at every depth.** -/
theorem proper_of_readStep {s : Step} (h : ∃ v, readStep v = .valid s) {t : Step} (ht : t ∈ s.walk) :
    t.Proper := by
  obtain ⟨v, hv⟩ := Step.forall_mem_walk (P := fun s => ∃ v, readStep v = .valid s)
    (fun _ ⟨_, hv⟩ _ hc => exists_of_mem_children hv hc) h t ht
  exact proper_of_read hv

/-- The steps of fields that were read as a workflow are proper. -/
theorem WorkflowRead.proper {now : Int} {fields : Fields} {w : Workflow}
    (h : WorkflowRead now fields w) : ∀ s ∈ w.allSteps, s.Proper := by
  intro s hs
  obtain ⟨b, hb, hs⟩ := Step.mem_walkBlock.mp hs
  exact proper_of_readStep (exists_of_mem_optional h.steps hb) hs

end Definition

end Runbook
