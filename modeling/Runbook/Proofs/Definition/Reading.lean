import Mathlib.Data.List.Forall2
import Runbook.Definition.Reader

/-!
# What a valid reading says

A check that is valid says what its parts were read as, and the readers of steps obey equations
without the bounds that their recursion goes by:

* `both_eq_valid`, `map_eq_valid`, `under_eq_valid`, `demand_eq_valid`: a valid check taken apart;
* `required_eq_valid`, `optional_eq_valid`: a valid field, and what it was read from;
* `readItems_eq_valid`, `readEntries_eq_valid`: the items of a list and the entries of a map, read one
  by one;
* `readBlockField_eq`, `readConditional_map`, `readBranch_map`, `readLoop_map`: the readers of steps
  in terms of the readers of fields;
* `WorkflowRead`, `readWorkflowFields_eq_valid`: when fields are read as a workflow;
* `WorkflowFields`, `Workflow.ofValue_eq_ok`: the fields of a workflow, and when they give one.
-/

namespace Runbook.Definition

/-! ## 1. Checks -/

namespace Checked

variable {α β γ : Type}

@[simp] theorem both_valid (f : α → β → γ) (a : α) (b : β) :
    both f (.valid a) (.valid b) = .valid (f a b) := rfl

@[simp] theorem map_valid (f : α → β) (a : α) : map f (.valid a) = .valid (f a) := rfl

@[simp] theorem under_valid (name : String) (a : α) : under name (.valid a) = .valid a := rfl

@[simp] theorem pure_eq_valid (a : α) : (pure a : Checked α) = .valid a := rfl

@[simp] theorem seq_eq_both (f : Checked (α → β)) (a : Checked α) :
    f <*> a = both (fun f a => f a) f a := rfl

@[simp] theorem functor_map_eq (f : α → β) (a : Checked α) : f <$> a = map f a := by
  cases a <;> rfl

theorem both_eq_valid {f : α → β → γ} {a : Checked α} {b : Checked β} {c : γ} :
    both f a b = .valid c ↔ ∃ x y, a = .valid x ∧ b = .valid y ∧ f x y = c := by
  cases a <;> cases b <;> simp [both]

theorem map_eq_valid {f : α → β} {a : Checked α} {c : β} :
    map f a = .valid c ↔ ∃ x, a = .valid x ∧ f x = c := by
  cases a <;> simp [map]

theorem under_eq_valid {name : String} {a : Checked α} {c : α} :
    under name a = .valid c ↔ a = .valid c := by
  cases a <;> simp [under]

theorem demand_eq_valid {a : Checked α} {problem? : α → Option Problem} {c : α} :
    demand a problem? = .valid c ↔ a = .valid c ∧ problem? c = none := by
  cases a with
  | faulty fs => simp [demand]
  | valid x =>
    cases h : problem? x with
    | none =>
      simp only [demand, h, valid.injEq]
      exact ⟨fun e => ⟨e, e ▸ h⟩, And.left⟩
    | some p =>
      simp only [demand, h, fault, reduceCtorEq, valid.injEq, false_iff, not_and]
      rintro rfl
      simp [h]

@[simp] theorem fault_ne_valid (p : Problem) (a : α) : fault p ≠ .valid a := by
  simp [fault]

end Checked

/-! ## 2. Fields -/

section Fields

variable {α : Type} {fields : Fields} {name : String} {read : Value → Checked α}

theorem required_eq_valid {a : α} : required fields name read = .valid a ↔
    ∃ v, Value.lookup name fields = some v ∧ read v = .valid a := by
  unfold required
  cases Value.lookup name fields with
  | none => simp [Checked.under_eq_valid]
  | some v => simp [Checked.under_eq_valid]

theorem optional_eq_valid {standard a : α} : optional fields name standard read = .valid a ↔
    (Value.lookup name fields = none ∧ standard = a) ∨
      ∃ v, Value.lookup name fields = some v ∧ read v = .valid a := by
  unfold optional
  cases Value.lookup name fields with
  | none => simp
  | some v => simp [Checked.under_eq_valid]

theorem readNullable_of_ne_null {v : Value} (h : v ≠ .null) :
    readNullable read v = (read v).map some := by
  unfold readNullable
  split
  · exact absurd rfl h
  · rfl

/-- A field that may be absent or null is so, or it was read. -/
theorem nullable_eq_valid {a : Option α} : nullable fields name read = .valid a ↔
    ((Value.lookup name fields = none ∨ Value.lookup name fields = some .null) ∧ a = none) ∨
      ∃ v b, Value.lookup name fields = some v ∧ v ≠ .null ∧ read v = .valid b ∧ a = some b := by
  unfold nullable
  rw [optional_eq_valid]
  cases hl : Value.lookup name fields with
  | none => simp [eq_comm]
  | some v =>
    by_cases hv : v = .null
    · subst hv
      simp [readNullable, eq_comm]
    · have hr : ∀ b, readNullable read v = .valid b ↔ ∃ x, read v = .valid x ∧ some x = b := by
        intro b
        rw [readNullable_of_ne_null hv, Checked.map_eq_valid]
      simp [hr, hv, eq_comm]

/-- The value of a field that could be read. -/
theorem eq_valid_of_optional {standard a : α} (h : optional fields name standard read = .valid a)
    {v : Value} (hv : Value.lookup name fields = some v) : read v = .valid a := by
  rcases optional_eq_valid.mp h with ⟨hn, -⟩ | ⟨u, hu, h⟩
  · rw [hn] at hv
    cases hv
  · rw [hu] at hv
    cases hv
    exact h

/-- What is read as a record is a map. -/
theorem readRecord_eq_valid {model : String} {read : Fields → Checked α} {v : Value} {a : α} :
    readRecord model read v = .valid a ↔ ∃ fields, v = .map fields ∧ read fields = .valid a := by
  cases v <;> simp [readRecord]

end Fields

/-! ## 3. Lists and maps -/

section Related

variable {α β : Type} {related : α → β → Prop} {as : List α} {bs : List β}

theorem exists_of_mem_left (h : List.Forall₂ related as bs) {a : α} (ha : a ∈ as) :
    ∃ b ∈ bs, related a b := by
  induction h with
  | nil => cases ha
  | cons hr _ ih =>
    rcases List.mem_cons.mp ha with rfl | ha
    · exact ⟨_, List.mem_cons_self, hr⟩
    · obtain ⟨b, hb, hr⟩ := ih ha
      exact ⟨b, List.mem_cons_of_mem _ hb, hr⟩

theorem exists_of_mem_right (h : List.Forall₂ related as bs) {b : β} (hb : b ∈ bs) :
    ∃ a ∈ as, related a b := by
  have hflip : List.Forall₂ (flip related) bs as := List.Forall₂.flip h
  exact exists_of_mem_left hflip hb

end Related

/-- **Items are read if and only if each of them is read.** -/
theorem readItems_eq_valid {α : Type} {read : Value → Checked α} {n : Nat} {items : List Value}
    {as : List α} : readItems read n items = .valid as ↔
      List.Forall₂ (fun v a => read v = .valid a) items as := by
  induction items generalizing n as with
  | nil =>
    cases as <;> simp [readItems]
  | cons v rest ih =>
    simp only [readItems, Checked.both_eq_valid, Checked.under_eq_valid, ih]
    constructor
    · rintro ⟨a, as, ha, has, rfl⟩
      exact .cons ha has
    · rintro (_ | ⟨ha, has⟩)
      exact ⟨_, _, ha, has, rfl⟩

/-- **Each item of a list was read as a member of the result.** -/
theorem exists_of_mem_items {α : Type} {read : Value → Checked α} {n : Nat} {items : List Value}
    {as : List α} (h : readItems read n items = .valid as) {v : Value} (hv : v ∈ items) :
    ∃ a ∈ as, read v = .valid a :=
  exists_of_mem_left (readItems_eq_valid.mp h) hv

/-- **Each member of the result was read from an item of the list.** -/
theorem exists_item_of_mem {α : Type} {read : Value → Checked α} {n : Nat} {items : List Value}
    {as : List α} (h : readItems read n items = .valid as) {a : α} (ha : a ∈ as) :
    ∃ v ∈ items, read v = .valid a :=
  exists_of_mem_right (readItems_eq_valid.mp h) ha

/-- What is read as a list is a list, or a set read like the list of its members. -/
theorem exists_items_of_readListOf {α : Type} {read : Value → Checked α} {v : Value} {as : List α}
    (h : readListOf read v = .valid as) : ∃ items, readItems read 0 items = .valid as ∧
      (v = .list items ∨ ∃ members, v = .set members ∧ items = members.map .scalar) := by
  cases v with
  | list items => exact ⟨items, h, Or.inl rfl⟩
  | set members => exact ⟨_, h, Or.inr ⟨members, rfl, rfl⟩⟩
  | scalar s => cases h
  | map fields => cases h

/-- **Entries are read if and only if the key and the value of each are read.** -/
theorem readEntries_eq_valid {α : Type} {read : Value → Checked α} {fields : Fields}
    {entries : Assoc String α} : readEntries read fields = .valid entries ↔
      List.Forall₂ (fun field entry => readKey field.1 = .valid entry.1 ∧
        read field.2 = .valid entry.2) fields entries := by
  induction fields generalizing entries with
  | nil => cases entries <;> simp [readEntries]
  | cons field rest ih =>
    simp only [readEntries, Checked.both_eq_valid, Checked.under_eq_valid, ih]
    constructor
    · rintro ⟨_, rest', ⟨key, a, hkey, ha, rfl⟩, hrest, rfl⟩
      exact .cons ⟨hkey, ha⟩ hrest
    · rintro (_ | ⟨⟨hkey, ha⟩, hrest⟩)
      exact ⟨_, _, ⟨_, _, hkey, ha, rfl⟩, hrest, rfl⟩

/-- What is read as a map is a map, and its entries are read. -/
theorem readMapOf_eq_valid {α : Type} {read : Value → Checked α} {v : Value}
    {entries : Assoc String α} : readMapOf read v = .valid entries ↔
      ∃ fields pairs, v = .map fields ∧ readEntries read fields = .valid pairs ∧
        Assoc.ofPairs pairs = entries := by
  cases v <;> simp [readMapOf, Checked.map_eq_valid]

/-- Values that were made of what they are read as. -/
theorem readItems_map {α : Type} {read : Value → Checked α} {write : α → Value} {as : List α}
    (h : ∀ a ∈ as, read (write a) = .valid a) (n : Nat) :
    readItems read n (as.map write) = .valid as := by
  rw [readItems_eq_valid, List.forall₂_map_left_iff, List.forall₂_same]
  exact h

/-! ## 4. The readers of steps -/

theorem lookupBelow_eq (name : String) (fields : Fields) :
    (lookupBelow name fields).map (·.1) = Value.lookup name fields := by
  unfold lookupBelow
  split <;> simp [*]

theorem readBlockItems_eq (n : Nat) (items : List Value) :
    readBlockItems n items = readItems readStep n items := by
  induction items generalizing n with
  | nil => rw [readBlockItems, readItems]
  | cons v rest ih => rw [readBlockItems, readItems, ih]

theorem scalarSteps_eq (members : List Scalar) :
    scalarSteps members = readItems readStep 0 (members.map .scalar) := by
  unfold scalarSteps
  generalize 0 = n
  induction members generalizing n with
  | nil => rfl
  | cons s rest ih => simp only [List.map_cons, readItems, ih, readStep]

/-- **A block is a list of steps.** -/
theorem readBlock_eq (v : Value) : readBlock v = readListOf readStep v := by
  cases v with
  | scalar s => simp only [readBlock, readListOf]
  | list items => simp only [readBlock, readListOf, readBlockItems_eq]
  | set members => simp only [readBlock, readListOf, scalarSteps_eq]
  | map fields => simp only [readBlock, readListOf]

theorem readBlockOrNull_eq (v : Value) :
    readBlockOrNull v = readNullable (readListOf readStep) v := by
  cases v with
  | scalar s => cases s <;> simp [readBlockOrNull, readNullable, readListOf, Checked.fault,
      Checked.map]
  | list items => simp only [readBlockOrNull, readNullable, readListOf, readBlockItems_eq]
  | set members => simp only [readBlockOrNull, readNullable, readListOf, scalarSteps_eq]
  | map fields => simp [readBlockOrNull, readNullable, readListOf, Checked.fault, Checked.map]

theorem readBlockField_eq (name : String) (fields : Fields) :
    readBlockField name fields = optional fields name [] (readListOf readStep) := by
  rw [readBlockField, optional, ← lookupBelow_eq]
  cases lookupBelow name fields with
  | none => rfl
  | some v => exact congrArg (Checked.under name) (readBlock_eq v.1)

theorem readNullableBlock_eq (name : String) (fields : Fields) :
    readNullableBlock name fields = nullable fields name (readListOf readStep) := by
  rw [readNullableBlock, nullable, optional, ← lookupBelow_eq]
  cases lookupBelow name fields with
  | none => rfl
  | some v => exact congrArg (Checked.under name) (readBlockOrNull_eq v.1)

theorem readCasesField_eq (fields : Fields) :
    readCasesField fields = optional fields "cases" [] readCases := by
  rw [readCasesField, optional, ← lookupBelow_eq]
  cases lookupBelow "cases" fields <;> rfl

theorem readCaseItems_eq (n : Nat) (items : List Value) :
    readCaseItems n items = readItems readCase n items := by
  induction items generalizing n with
  | nil => rw [readCaseItems, readItems]
  | cons v rest ih => rw [readCaseItems, readItems, ih]

theorem readCases_list (items : List Value) :
    readCases (.list items) = readItems readCase 0 items := by
  rw [readCases, readCaseItems_eq]

theorem readCase_eq (v : Value) : readCase v = readRecord "BranchCase" (fun fields =>
    Checked.both Prod.mk (required fields "value" readText)
      (optional fields "steps" [] (readListOf readStep))) v := by
  cases v with
  | map fields => simp only [readCase, readRecord, readBlockField_eq]
  | scalar s => simp only [readCase, readRecord]
  | list items => simp only [readCase, readRecord]
  | set members => simp only [readCase, readRecord]

theorem readConditional_map (fields : Fields) : readConditional (.map fields) =
    ((fun c t e a h => Step.conditional h c t e a) <$> required fields "condition" readCondition
      <*> optional fields "then_block" [] (readListOf readStep)
      <*> nullable fields "else_block" (readListOf readStep)
      <*> nullable fields "action" readAction) := by
  rw [readConditional, readBlockField_eq, readNullableBlock_eq]

theorem readBranch_map (fields : Fields) : readBranch (.map fields) =
    ((fun s cs d h => Step.branch h s cs d) <$> required fields "variable" readText
      <*> optional fields "cases" [] readCases
      <*> nullable fields "default_case" (readListOf readStep)) := by
  rw [readBranch, readCasesField_eq, readNullableBlock_eq]

theorem readLoop_map (fields : Fields) : readLoop (.map fields) =
    ((fun c b h => Step.loop h c b) <$> required fields "condition" readCondition
      <*> optional fields "steps" [] (readListOf readStep)) := by
  rw [readLoop, readBlockField_eq]

/-! ## 5. Workflows -/

/-- **When the fields of a map are read as a workflow.** -/
structure WorkflowRead (now : Int) (fields : Fields) (w : Workflow) : Prop where
  name : required fields "name" readText = .valid w.name
  description : optional fields "description" "" readText = .valid w.description
  steps : optional fields "steps" [] (readListOf readStep) = .valid w.steps
  declarations : optional fields "variables" [] (readListOf readVariable) = .valid w.declarations
  profiles : optional fields "profiles" [] (readMapOf readProfile) = .valid w.profiles
  tags : optional fields "tags" [] (readListOf readText) = .valid w.tags
  createdAt : optional fields "created_at" now readWhole = .valid w.createdAt
  lastUsed : nullable fields "last_used" readWhole = .valid w.lastUsed
  useCount : optional fields "use_count" 0 readWhole = .valid w.useCount

theorem readWorkflowFields_eq_valid {now : Int} {fields : Fields} {w : Workflow} :
    readWorkflowFields now fields = .valid w ↔ WorkflowRead now fields w := by
  have hblock : readBlock = readListOf readStep := funext readBlock_eq
  simp only [readWorkflowFields, Checked.functor_map_eq, Checked.seq_eq_both, Checked.both_eq_valid,
    Checked.map_eq_valid, hblock]
  constructor
  · rintro ⟨_, useCount, ⟨_, lastUsed, ⟨_, createdAt, ⟨_, tags, ⟨_, profiles, ⟨_, declarations,
      ⟨_, steps, ⟨_, description, ⟨name, hname, rfl⟩, hdescription, rfl⟩, hsteps, rfl⟩,
      hdeclarations, rfl⟩, hprofiles, rfl⟩, htags, rfl⟩, hcreated, rfl⟩, hlast, rfl⟩, hcount, rfl⟩
    exact ⟨hname, hdescription, hsteps, hdeclarations, hprofiles, htags, hcreated, hlast, hcount⟩
  · intro h
    exact ⟨_, _, ⟨_, _, ⟨_, _, ⟨_, _, ⟨_, _, ⟨_, _, ⟨_, _, ⟨_, _, ⟨_, h.name, rfl⟩, h.description,
      rfl⟩, h.steps, rfl⟩, h.declarations, rfl⟩, h.profiles, rfl⟩, h.tags, rfl⟩, h.createdAt, rfl⟩,
      h.lastUsed, rfl⟩, h.useCount, rfl⟩

/-- The fields of a workflow: those of a map, or those of the map under its key `workflow`. -/
inductive WorkflowFields : Value → Fields → Prop where
  | flat {fields : Fields} (h : Value.lookup "workflow" fields = none) :
      WorkflowFields (.map fields) fields
  | nested {fields inner : Fields} (h : Value.lookup "workflow" fields = some (.map inner)) :
      WorkflowFields (.map fields) inner

/-- The fields of a workflow are determined by the value. -/
theorem WorkflowFields.unique {v : Value} {fields fields' : Fields} (h : WorkflowFields v fields)
    (h' : WorkflowFields v fields') : fields = fields' := by
  cases h with
  | flat h =>
    cases h' with
    | flat => rfl
    | nested h' => rw [h] at h'; cases h'
  | nested h =>
    cases h' with
    | flat h' => rw [h] at h'; cases h'
    | nested h' => rw [h] at h'; cases h'; rfl

end Runbook.Definition

namespace Runbook

open Definition

/-- A workflow is made of fields with a name that counts as given, in which the steps can be gone
through. -/
theorem Workflow.ofFields_eq_ok {now : Int} {fields : Fields} {w : Workflow} :
    Workflow.ofFields now fields = .ok w ↔
      (∃ name, Value.lookup "name" fields = some name ∧ name.isTruthy = true) ∧
        stepsListed fields = true ∧ readWorkflowFields now fields = .valid w := by
  unfold Workflow.ofFields
  cases Value.lookup "name" fields with
  | none => simp
  | some name =>
    cases ht : name.isTruthy <;> cases hs : stepsListed fields <;>
      cases readWorkflowFields now fields <;> simp [ht]

/-- A value is read as a workflow from its fields, or it is no map where there should be one. -/
theorem Workflow.ofValue_cases (now : Int) (v : Value) :
    (∃ fields, WorkflowFields v fields ∧ Workflow.ofValue now v = Workflow.ofFields now fields) ∨
      (∀ fields, ¬ WorkflowFields v fields) ∧
        (Workflow.ofValue now v = .error .notMap ∨ Workflow.ofValue now v = .error .innerNotMap) := by
  cases v with
  | scalar s | list items | set members =>
    refine Or.inr ⟨fun fields h => ?_, Or.inl rfl⟩
    cases h
  | map fields =>
    cases hl : Value.lookup "workflow" fields with
    | none => exact Or.inl ⟨fields, .flat hl, by simp [Workflow.ofValue, hl]⟩
    | some inner =>
      cases inner with
      | map inner => exact Or.inl ⟨inner, .nested hl, by simp [Workflow.ofValue, hl]⟩
      | scalar s | list items | set members =>
        refine Or.inr ⟨?_, Or.inr (by simp [Workflow.ofValue, hl])⟩
        rintro _ (h | h) <;> rw [hl] at h <;> cases h

theorem Workflow.ofValue_eq_ok {now : Int} {v : Value} {w : Workflow} :
    Workflow.ofValue now v = .ok w ↔
      ∃ fields, WorkflowFields v fields ∧ Workflow.ofFields now fields = .ok w := by
  rcases Workflow.ofValue_cases now v with ⟨fields, hf, he⟩ | ⟨hf, he⟩
  · rw [he]
    constructor
    · exact fun h => ⟨fields, hf, h⟩
    · rintro ⟨fields', hf', h⟩
      cases hf.unique hf'
      exact h
  · constructor
    · rcases he with he | he <;> simp [he]
    · rintro ⟨fields, h, -⟩
      exact absurd h (hf fields)

end Runbook
