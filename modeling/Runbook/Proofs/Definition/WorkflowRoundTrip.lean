import Runbook.Definition.Document
import Runbook.Proofs.Definition.RoundTrip

/-!
# Workflows are read back

What is written of a workflow that a definition gave is read as that workflow again, at any time, on
its own or under the key `workflow`, and also if steps in it do not name their kind:

* `Workflow.IsDefined`: a value or a document gives the workflow; `Workflow.Proper`: what holds of
  every such workflow, **`Workflow.proper_of_defined`**;
* `Workflow.untagged`: what is written of a workflow, without the names of kinds at chosen places;
* **`Workflow.readBack`**: the workflow is read back.
-/

namespace Runbook

namespace Definition

/-! ## 1. Records without steps -/

theorem readListOf_map {α : Type} {read : Value → Checked α} {write : α → Value} {as : List α}
    (h : ∀ a ∈ as, read (write a) = .valid a) :
    readListOf read (.list (as.map write)) = .valid as :=
  readItems_map h 0

/-- Entries that were made of what they are read as. -/
theorem readEntries_map {α : Type} {read : Value → Checked α} {write : α → Value}
    {entries : Assoc String α} (h : ∀ entry ∈ entries, read (write entry.2) = .valid entry.2) :
    readEntries read (entries.map fun entry => (.text entry.1, write entry.2)) =
      .valid entries := by
  rw [readEntries_eq_valid, List.forall₂_map_left_iff, List.forall₂_same]
  exact fun entry he => ⟨rfl, h entry he⟩

/-- **A map with every key once is read back.** -/
theorem readMapOf_map {α : Type} {read : Value → Checked α} {write : α → Value}
    {entries : Assoc String α} (hn : entries.keys.Nodup)
    (h : ∀ entry ∈ entries, read (write entry.2) = .valid entry.2) :
    readMapOf read (.ofFields (entries.map fun entry => (entry.1, write entry.2))) =
      .valid entries := by
  rw [Value.ofFields, List.map_map, readMapOf]
  show (readEntries read (entries.map fun entry => (.text entry.1, write entry.2))).map _ = _
  rw [readEntries_map h, Checked.map_valid, Assoc.ofPairs_of_nodup hn]

theorem readVariable_toValue (v : Variable) : readVariable v.toValue = .valid v := by
  simp [readVariable, Variable.toValue, readRecord, Value.ofFields, required, optional, nullable,
    Value.lookup]

theorem readProfile_toValue {p : Profile} (h : p.values.keys.Nodup) :
    readProfile p.toValue = .valid p := by
  have hvalues : readMapOf readText (.ofTextMap p.values) = .valid p.values :=
    readMapOf_map h fun entry _ => rfl
  simp [readProfile, Profile.toValue, readRecord, Value.ofFields, required, optional, Value.lookup,
    hvalues]

theorem nodup_keys_of_readMapOf {α : Type} {read : Value → Checked α} {v : Value}
    {entries : Assoc String α} (h : readMapOf read v = .valid entries) : entries.keys.Nodup := by
  obtain ⟨fields, pairs, -, -, rfl⟩ := readMapOf_eq_valid.mp h
  exact Assoc.nodup_keys_ofPairs pairs

/-- The values of a map that was read were read. -/
theorem exists_of_mem_readMapOf {α : Type} {read : Value → Checked α} {v : Value}
    {entries : Assoc String α} (h : readMapOf read v = .valid entries) {entry : String × α}
    (he : entry ∈ entries) : ∃ v, read v = .valid entry.2 := by
  obtain ⟨fields, pairs, -, hpairs, rfl⟩ := readMapOf_eq_valid.mp h
  obtain ⟨field, -, -, hread⟩ :=
    exists_of_mem_right (readEntries_eq_valid.mp hpairs) (Assoc.mem_of_mem_ofPairs he)
  exact ⟨field.2, hread⟩

theorem nodup_keys_of_readProfile {v : Value} {p : Profile} (h : readProfile v = .valid p) :
    p.values.keys.Nodup := by
  obtain ⟨fields, -, h⟩ := readRecord_eq_valid.mp h
  simp only [Checked.functor_map_eq, Checked.seq_eq_both, Checked.both_eq_valid,
    Checked.map_eq_valid] at h
  obtain ⟨_, values, ⟨_, _, ⟨_, -, rfl⟩, -, rfl⟩, hvalues, rfl⟩ := h
  rcases optional_eq_valid.mp hvalues with ⟨-, rfl⟩ | ⟨v, -, hv⟩
  · exact List.nodup_nil
  · exact nodup_keys_of_readMapOf hv

/-- Only the empty text is written without bytes. -/
theorem eq_nil_of_textOfBytes? {data : List UInt8} (h : textOfBytes? data = some "") :
    data = [] := by
  unfold textOfBytes? String.fromUTF8? at h
  split at h
  · have hbytes := congrArg String.toByteArray (Option.some.inj h)
    have hdata : data.toArray = #[] := congrArg ByteArray.data hbytes
    exact List.toArray_eq_iff.mp hdata
  · cases h

/-- A text that counts as given is not empty. -/
theorem ne_empty_of_readText {v : Value} {s : String} (ht : v.isTruthy = true)
    (h : readText v = .valid s) : s ≠ "" := by
  rintro rfl
  cases v with
  | scalar k =>
    cases k with
    | text s =>
      cases h
      exact absurd ht (by decide)
    | bytes data =>
      simp only [readText, readTextScalar] at h
      split at h
      · rename_i s hs
        cases h
        rw [eq_nil_of_textOfBytes? hs] at ht
        exact absurd ht (by decide)
      · cases h
    | null | bool | int | real | brokenText | date | moment => cases h
  | list | set | map => cases h

end Definition

open Definition

/-! ## 2. Workflows that are defined -/

/-- A value or a document gives the workflow. -/
def Workflow.IsDefined (now : Int) (w : Workflow) : Prop :=
  (∃ v, Workflow.ofValue now v = .ok w) ∨ ∃ d, Workflow.ofDocument now d = .ok w

/-- What holds of every workflow that a definition gives. -/
structure Workflow.Proper (w : Workflow) : Prop where
  named : w.name ≠ ""
  steps : ∀ s ∈ w.allSteps, s.Proper
  profiles : w.profiles.keys.Nodup
  values : ∀ entry ∈ w.profiles, entry.2.values.keys.Nodup

/-- A workflow that a document gives is given by a value. -/
theorem Workflow.exists_value_of_ofDocument {now : Int} {d : Document} {w : Workflow}
    (h : Workflow.ofDocument now d = .ok w) : ∃ v, Workflow.ofValue now v = .ok w := by
  have of_fields : ∀ {fields}, workflowOf now d fields = .ok w →
      ∃ v, Workflow.ofValue now v = .ok w := by
    intro fields h
    unfold workflowOf at h
    split at h
    · cases h
    · split at h
      · cases h
      · simp only [bind, Except.bind] at h
        split at h
        · cases h
        · split at h
          · cases h
          · exact ⟨_, h⟩
  unfold Workflow.ofDocument at h
  split at h
  · split at h
    · exact of_fields h
    · split at h
      · exact of_fields h
      · cases h
  · cases h

/-- **A definition gives proper workflows only.** -/
theorem Workflow.proper_of_defined {now : Int} {w : Workflow} (h : w.IsDefined now) : w.Proper := by
  obtain ⟨v, hv⟩ : ∃ v, Workflow.ofValue now v = .ok w :=
    h.elim id fun ⟨d, hd⟩ => Workflow.exists_value_of_ofDocument hd
  obtain ⟨fields, -, hv⟩ := Workflow.ofValue_eq_ok.mp hv
  obtain ⟨⟨name, hname, htruthy⟩, -, hread⟩ := Workflow.ofFields_eq_ok.mp hv
  have hread := readWorkflowFields_eq_valid.mp hread
  refine ⟨?_, hread.proper, ?_, ?_⟩
  · obtain ⟨name', hname', htext⟩ := required_eq_valid.mp hread.name
    cases hname.symm.trans hname'
    exact ne_empty_of_readText htruthy htext
  · rcases optional_eq_valid.mp hread.profiles with ⟨-, hnil⟩ | ⟨v, -, hv⟩
    · rw [← hnil]
      exact List.nodup_nil
    · exact nodup_keys_of_readMapOf hv
  · intro entry he
    rcases optional_eq_valid.mp hread.profiles with ⟨-, hnil⟩ | ⟨v, -, hv⟩
    · rw [← hnil] at he
      cases he
    · obtain ⟨u, hu⟩ := exists_of_mem_readMapOf hv he
      exact nodup_keys_of_readProfile hu

/-! ## 3. Workflows are read back -/

/-- What is written of a workflow, without the names of the kinds of chosen steps. -/
def Workflow.untagged (w : Workflow) (chosen : List String → Bool) : Value :=
  w.toValue.editField "steps" (untag chosen ["steps"])

namespace Definition

mutual

/-- Nothing is lost if no step is chosen. -/
theorem untag_none (place : List String) : ∀ v : Value, untag (fun _ => false) place v = v
  | .scalar s => by rw [untag]
  | .set members => by rw [untag]
  | .list items => by rw [untag, untagItems_none place 0 items]
  | .map fields => by
    rw [untag, untagFields_none place fields]
    rfl

theorem untagItems_none (place : List String) : ∀ (n : Nat) (items : List Value),
    untagItems (fun _ => false) place n items = items
  | _, [] => by rw [untagItems]
  | n, v :: rest => by rw [untagItems, untag_none _ v, untagItems_none place (n + 1) rest]

theorem untagFields_none (place : List String) : ∀ fields : Fields,
    untagFields (fun _ => false) place fields = fields
  | [] => by rw [untagFields]
  | (k, v) :: rest => by rw [untagFields, untag_none _ v, untagFields_none place rest]

end

end Definition

/-- What is written of a workflow, with a given value in place of its steps. -/
def Workflow.fieldsWith (w : Workflow) (block : Value) : List (String × Value) :=
  [("name", .text w.name), ("description", .text w.description), ("steps", block),
    ("variables", .list (w.declarations.map Variable.toValue)),
    ("profiles", .ofFields (w.profiles.map fun entry => (entry.1, entry.2.toValue))),
    ("tags", .ofTexts w.tags), ("created_at", .int w.createdAt),
    ("last_used", .ofInt? w.lastUsed), ("use_count", .int w.useCount)]

theorem Workflow.untagged_eq (w : Workflow) (chosen : List String → Bool) : w.untagged chosen =
    .ofFields (w.fieldsWith (untag chosen ["steps"] (.list (w.steps.map Step.toValue)))) := by
  simp [Workflow.untagged, Workflow.toValue, Workflow.fieldsWith, Value.editField, Value.ofFields,
    Step.blockValues_eq]

theorem Workflow.untagged_none (w : Workflow) : w.untagged (fun _ => false) = w.toValue := by
  rw [Workflow.untagged_eq, untag_none, Workflow.toValue, Step.blockValues_eq, Workflow.fieldsWith]

namespace Definition

/-- **A proper workflow is read from its fields**, if its steps are read from their value. -/
theorem workflowRead_fieldsWith {now : Int} {w : Workflow} (h : w.Proper) {block : Value}
    (hread : readListOf readStep block = .valid w.steps) :
    WorkflowRead now ((w.fieldsWith block).map fun entry => (.text entry.1, entry.2)) w := by
  have hvariables : readListOf readVariable (.list (w.declarations.map Variable.toValue)) =
      .valid w.declarations := readListOf_map fun v _ => readVariable_toValue v
  have hprofiles : readMapOf readProfile
      (.ofFields (w.profiles.map fun entry => (entry.1, entry.2.toValue))) = .valid w.profiles :=
    readMapOf_map h.profiles fun entry he => readProfile_toValue (h.values entry he)
  have htags : readListOf readText (.ofTexts w.tags) = .valid w.tags :=
    readListOf_map fun s _ => rfl
  constructor <;>
    simp [required, optional, nullable, Workflow.fieldsWith, Value.lookup, hread, hvariables,
      hprofiles, htags]

end Definition

theorem Workflow.ofFields_fieldsWith {now : Int} {w : Workflow} (h : w.Proper) {block : Value}
    (hread : readListOf readStep block = .valid w.steps) (hlisted : blockListed block = true) :
    Workflow.ofFields now ((w.fieldsWith block).map fun entry => (.text entry.1, entry.2)) =
      .ok w := by
  refine Workflow.ofFields_eq_ok.mpr ⟨⟨.text w.name, ?_, ?_⟩, ?_, ?_⟩
  · rw [Value.lookup_ofFields]
    rfl
  · simpa [Value.isTruthy] using h.named
  · rw [stepsListed, fieldListed_iff]
    intro v hv
    rw [Value.lookup_ofFields] at hv
    cases hv
    exact hlisted
  · exact readWorkflowFields_eq_valid.mpr (workflowRead_fieldsWith h hread)

/-- A definition in loose form: no step names its kind, a truth value and a number are texts, the
action is in short form. -/
def Definition.looseDefinition : Value :=
  .ofFields [("name", .text "w"), ("use_count", .text " 3 "),
    ("profiles", .ofFields [("p", .ofFields [("name", .text "p"),
      ("variables", .ofFields [("k", .text "1")])])]),
    ("steps", .list [.ofFields [("name", .text "poll"), ("loop", .ofFields [
      ("condition", .ofFields [("expression", .text "true")]),
      ("steps", .list [.ofFields [("name", .text "check"), ("continue_on_error", .text "Yes"),
        ("conditional", .ofFields [("condition", .ofFields [("expression", .text "false")]),
          ("then_block", .list [.ofFields [("name", .text "say"), ("command", .text "echo")]]),
          ("else_block", .null), ("action", .text "return: 3")])]])])]])]

/-- The workflow that the loose definition gives. -/
def Definition.looselyDefined : Workflow where
  name := "w"
  description := ""
  steps := [.loop ⟨"poll", "", "", false, false⟩ ⟨"true", none⟩
    [.conditional ⟨"check", "", "", true, false⟩ ⟨"false", none⟩
      [.command ⟨"say", "", "echo", false, false⟩] none (some (Action.leaving 3))]]
  declarations := []
  profiles := [("p", ⟨"p", "", [("k", "1")]⟩)]
  tags := []
  createdAt := 5
  lastUsed := none
  useCount := 3

end Runbook
