import Runbook.Proofs.Definition.Steps

/-!
# Looking through the steps of a definition

Before a block is read, the cases of all branches in it are gone through, whatever the kinds of the
steps above them are. This comes to an end with an answer unless some cases are a single value:

* `Carries`: the blocks that the payloads of a step carry; `Within`: the steps at any depth of a
  block, through payloads of given kinds;
* `SingleCases`: a step with the payload of a branch whose cases are a single value;
* **`blockListed_iff`**: a block is gone through if and only if no step in it has such cases.
-/

namespace Runbook

/-- A value that nothing can be listed of: null, a truth value, a number, a date, a moment. -/
def Value.IsSingle : Value → Prop
  | .scalar (.text _) => False
  | .scalar (.brokenText _) => False
  | .scalar (.bytes _) => False
  | .scalar _ => True
  | .list _ => False
  | .set _ => False
  | .map _ => False

/-- A text or a collection other than a list with nothing in it. -/
def Value.IsBare : Value → Prop
  | .scalar (.text s) => s = ""
  | .scalar (.brokenText codes) => codes = []
  | .scalar (.bytes data) => data = []
  | .scalar _ => False
  | .list _ => False
  | .set members => members = []
  | .map fields => fields = []

namespace Definition

/-! ## 1. Steps in a block -/

/-- **The blocks that a payload of a step carries**, by the kind whose payload it is. -/
inductive Carries (fields : Fields) : StepKind → Value → Prop where
  | thenBlock {payload : Fields} {block : Value}
      (here : Value.lookup "conditional" fields = some (.map payload))
      (found : Value.lookup "then_block" payload = some block) : Carries fields .conditional block
  | elseBlock {payload : Fields} {block : Value}
      (here : Value.lookup "conditional" fields = some (.map payload))
      (found : Value.lookup "else_block" payload = some block) : Carries fields .conditional block
  | case {payload entry : Fields} {entries : List Value} {block : Value}
      (here : Value.lookup "branch" fields = some (.map payload))
      (listed : Value.lookup "cases" payload = some (.list entries))
      (member : .map entry ∈ entries)
      (found : Value.lookup "steps" entry = some block) : Carries fields .branch block
  | fallback {payload : Fields} {block : Value}
      (here : Value.lookup "branch" fields = some (.map payload))
      (found : Value.lookup "default_case" payload = some block) : Carries fields .branch block
  | body {payload : Fields} {block : Value}
      (here : Value.lookup "loop" fields = some (.map payload))
      (found : Value.lookup "steps" payload = some block) : Carries fields .loop block

/-- **The steps at any depth of a block.** `through` says which payloads lead further down. -/
inductive Within (through : Fields → StepKind → Prop) : Value → Fields → Prop where
  | here {items : List Value} {fields : Fields} (member : .map fields ∈ items) :
      Within through (.list items) fields
  | deeper {items : List Value} {above fields : Fields} {kind : StepKind} {block : Value}
      (member : .map above ∈ items) (leads : through above kind) (carried : Carries above kind block)
      (inside : Within through block fields) : Within through (.list items) fields

/-- Every payload leads further down, whatever the kind of its step. -/
def AnyPayload (_ : Fields) (_ : StepKind) : Prop := True

/-- Only the payload of its kind leads further down from a step. -/
def OwnPayload (fields : Fields) (kind : StepKind) : Prop := kindOf fields = .ok kind

/-- The cases in the payload of a branch, if there are any. -/
def Cases (fields : Fields) (cases : Value) : Prop :=
  ∃ payload, Value.lookup "branch" fields = some (.map payload) ∧
    Value.lookup "cases" payload = some cases

/-- A step with cases that are a single value. -/
def SingleCases (fields : Fields) : Prop :=
  ∃ cases, Cases fields cases ∧ cases.IsSingle

/-! ## 2. Going through a block -/

theorem isSome_looseItems?_iff {v : Value} :
    (looseItems? v).isSome = true ↔ ¬ v.IsSingle ∧ ∀ items, v ≠ .list items := by
  cases v with
  | scalar s => cases s <;> simp [looseItems?, Value.IsSingle]
  | list items => simp [looseItems?]
  | set members => simp [looseItems?, Value.IsSingle]
  | map fields => simp [looseItems?, Value.IsSingle]

theorem looseItems?_eq_nil_iff {v : Value} : looseItems? v = some [] ↔ v.IsBare := by
  cases v with
  | scalar s => cases s <;> simp [looseItems?, Value.IsBare]
  | list items => simp [looseItems?, Value.IsBare]
  | set members => simp [looseItems?, Value.IsBare]
  | map fields => simp [looseItems?, Value.IsBare]

/-- What is no list is no block that could be gone through. -/
theorem blockListed_of_ne_list {v : Value} (h : ∀ items, v ≠ .list items) :
    blockListed v = true := by
  rw [blockListed]
  exact h

/-- What is no map is no step that could be gone through. -/
theorem stepListed_of_ne_map {v : Value} (h : ∀ fields, v ≠ .map fields) :
    stepListed v = true := by
  rw [stepListed]
  exact h

theorem fieldListed_iff {name : String} {fields : Fields} : fieldListed name fields = true ↔
    ∀ block, Value.lookup name fields = some block → blockListed block = true := by
  rw [fieldListed, ← lookupBelow_eq]
  cases lookupBelow name fields <;> simp

theorem itemsListed_iff {items : List Value} :
    itemsListed items = true ↔ ∀ v ∈ items, stepListed v = true := by
  induction items with
  | nil => simp [itemsListed]
  | cons v rest ih => simp [itemsListed, ih]

theorem caseItemsListed_iff {items : List Value} : caseItemsListed items = true ↔
    ∀ entry, .map entry ∈ items → fieldListed "steps" entry = true := by
  induction items with
  | nil => simp [caseItemsListed]
  | cons v rest ih => cases v <;> simp [caseItemsListed, ih]

theorem casesListed_iff {v : Value} : casesListed v = true ↔
    ¬ v.IsSingle ∧ ∀ entries, v = .list entries →
      ∀ entry, .map entry ∈ entries → fieldListed "steps" entry = true := by
  cases v with
  | list items => simp [casesListed, caseItemsListed_iff, Value.IsSingle]
  | scalar s => simp [casesListed, isSome_looseItems?_iff]
  | set members => simp [casesListed, isSome_looseItems?_iff]
  | map fields => simp [casesListed, isSome_looseItems?_iff]

theorem conditionalListed_iff {v : Value} : conditionalListed v = true ↔
    ∀ payload, v = .map payload →
      fieldListed "then_block" payload = true ∧ fieldListed "else_block" payload = true := by
  cases v <;> simp [conditionalListed]

theorem branchListed_iff {v : Value} : branchListed v = true ↔ ∀ payload, v = .map payload →
    (∀ cases, Value.lookup "cases" payload = some cases → casesListed cases = true) ∧
      fieldListed "default_case" payload = true := by
  cases v with
  | map payload =>
    simp only [branchListed, Value.map.injEq, forall_eq']
    rw [← lookupBelow_eq]
    cases lookupBelow "cases" payload <;> simp
  | scalar s => simp [branchListed]
  | list items => simp [branchListed]
  | set members => simp [branchListed]

theorem loopListed_iff {v : Value} : loopListed v = true ↔
    ∀ payload, v = .map payload → fieldListed "steps" payload = true := by
  cases v <;> simp [loopListed]

theorem stepListed_map {fields : Fields} : stepListed (.map fields) = true ↔
    (∀ v, Value.lookup "conditional" fields = some v → conditionalListed v = true) ∧
    (∀ v, Value.lookup "branch" fields = some v → branchListed v = true) ∧
    (∀ v, Value.lookup "loop" fields = some v → loopListed v = true) := by
  rw [stepListed, ← lookupBelow_eq, ← lookupBelow_eq, ← lookupBelow_eq]
  cases lookupBelow "conditional" fields <;> cases lookupBelow "branch" fields <;>
    cases lookupBelow "loop" fields <;> simp [and_assoc]

/-- **A step is gone through if its cases are no single value and the blocks that it carries are gone
through.** -/
theorem stepListed_map_iff {fields : Fields} : stepListed (.map fields) = true ↔
    ¬ SingleCases fields ∧ ∀ kind block, Carries fields kind block → blockListed block = true := by
  rw [stepListed_map]
  simp only [conditionalListed_iff, branchListed_iff, loopListed_iff, casesListed_iff,
    fieldListed_iff]
  constructor
  · rintro ⟨hc, hb, hl⟩
    refine ⟨?_, fun kind block h => ?_⟩
    · rintro ⟨cases, ⟨payload, hp, hcs⟩, hsingle⟩
      exact ((hb _ hp payload rfl).1 cases hcs).1 hsingle
    · cases h with
      | thenBlock here found => exact (hc _ here _ rfl).1 block found
      | elseBlock here found => exact (hc _ here _ rfl).2 block found
      | case here listed member found =>
        exact ((hb _ here _ rfl).1 _ listed).2 _ rfl _ member block found
      | fallback here found => exact (hb _ here _ rfl).2 block found
      | body here found => exact hl _ here _ rfl block found
  · rintro ⟨hs, hall⟩
    refine ⟨?_, ?_, ?_⟩
    · rintro _ hp payload rfl
      exact ⟨fun block hb => hall _ _ (.thenBlock hp hb), fun block hb => hall _ _ (.elseBlock hp hb)⟩
    · rintro _ hp payload rfl
      refine ⟨fun cases hc => ⟨fun hsingle => hs ⟨cases, ⟨payload, hp, hc⟩, hsingle⟩, ?_⟩,
        fun block hb => hall _ _ (.fallback hp hb)⟩
      rintro entries rfl entry he block hb
      exact hall _ _ (.case hp hc he hb)
    · rintro _ hp payload rfl block hb
      exact hall _ _ (.body hp hb)

/-! ## 3. Blocks -/

theorem sizeOf_lt_of_lookup {name : String} {fields : Fields} {v : Value}
    (h : Value.lookup name fields = some v) : sizeOf v < sizeOf (Value.map fields) := by
  have := lookup_lt h
  simp only [Value.map.sizeOf_spec]
  omega

/-- A block that a step carries is smaller than the step. -/
theorem Carries.sizeOf_lt {fields : Fields} {kind : StepKind} {block : Value}
    (h : Carries fields kind block) : sizeOf block < sizeOf (Value.map fields) := by
  cases h with
  | thenBlock here found | elseBlock here found | fallback here found | body here found =>
    exact Nat.lt_trans (sizeOf_lt_of_lookup found) (sizeOf_lt_of_lookup here)
  | case here listed member found =>
    have hentry := sizeOf_lt_of_lookup found
    have hmember := List.sizeOf_lt_of_mem member
    have hlisted := sizeOf_lt_of_lookup listed
    have hhere := sizeOf_lt_of_lookup here
    simp only [Value.list.sizeOf_spec] at hlisted
    omega

/-- **A block is gone through if and only if no step in it has cases that are a single value.** -/
theorem blockListed_iff {block : Value} :
    blockListed block = true ↔ ∀ fields, Within AnyPayload block fields → ¬ SingleCases fields := by
  constructor
  · intro h fields hin
    induction hin with
    | here member =>
      rw [blockListed, itemsListed_iff] at h
      exact (stepListed_map_iff.mp (h _ member)).1
    | deeper member _ carried _ ih =>
      rw [blockListed, itemsListed_iff] at h
      exact ih ((stepListed_map_iff.mp (h _ member)).2 _ _ carried)
  · -- on the size of the block: the blocks that its steps carry are smaller
    induction hn : sizeOf block using Nat.strongRecOn generalizing block with
    | ind n ih =>
      intro h
      cases block with
      | scalar s => exact blockListed_of_ne_list fun _ => by simp
      | set members => exact blockListed_of_ne_list fun _ => by simp
      | map fields => exact blockListed_of_ne_list fun _ => by simp
      | list items =>
        rw [blockListed, itemsListed_iff]
        intro v hv
        cases v with
        | scalar s => exact stepListed_of_ne_map fun _ => by simp
        | set members => exact stepListed_of_ne_map fun _ => by simp
        | list items => exact stepListed_of_ne_map fun _ => by simp
        | map fields =>
          refine stepListed_map_iff.mpr ⟨h fields (.here hv), fun kind block hc => ?_⟩
          have hlt : sizeOf block < n := by
            have := hc.sizeOf_lt
            have := List.sizeOf_lt_of_mem hv
            simp only [Value.list.sizeOf_spec] at hn
            omega
          exact ih _ hlt rfl fun inner hin => h inner (.deeper hv trivial hc hin)

end Definition

end Runbook
