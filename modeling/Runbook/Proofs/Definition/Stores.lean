import Runbook.Proofs.Definition.Reading

/-!
# The workflows of a store

A store reads each of its workflows as the workflow would be read on its own:

* `readMapOf_ofFields_eq_valid`: a map of texts is read entry by entry;
* `IsFlat`: fields that make a workflow of their own, with a name that counts as given;
* `Workflow.ofValue_flat_eq_ok`, `Store.ofValue_map_eq_ok`: the two readers in terms of their parts;
* `ReadOneByOne`: what comes of a store, in terms of its workflows read alone and of its commands;
* **`Store.ofValue_readOneByOne`**.

Both readers look through the steps before they read anything; so a store can be refused for steps
that cannot be looked through, and then one of its workflows is refused for them on its own.
-/

namespace Runbook

namespace Definition

/-! ## 1. Maps of texts -/

/-- Members can be found for all members of a list if one can be found for each. -/
theorem exists_forall₂_iff {α β : Type} {related : α → β → Prop} {as : List α} :
    (∃ bs, List.Forall₂ related as bs) ↔ ∀ a ∈ as, ∃ b, related a b := by
  constructor
  · rintro ⟨bs, h⟩ a ha
    obtain ⟨b, -, hb⟩ := exists_of_mem_left h ha
    exact ⟨b, hb⟩
  · intro h
    induction as with
    | nil => exact ⟨[], .nil⟩
    | cons a rest ih =>
      obtain ⟨b, hb⟩ := h a List.mem_cons_self
      obtain ⟨bs, hbs⟩ := ih fun a ha => h a (List.mem_cons_of_mem _ ha)
      exact ⟨b :: bs, .cons hb hbs⟩

/-- Related entries have the same keys if only entries with one key are related. -/
theorem keys_eq_of_forall₂ {α β : Type} {related : String × α → String × β → Prop}
    (hk : ∀ e e', related e e' → e.1 = e'.1) {entries : Assoc String α} {entries' : Assoc String β}
    (h : List.Forall₂ related entries entries') : entries.keys = entries'.keys := by
  induction h with
  | nil => rfl
  | cons hr _ ih =>
    rw [Assoc.keys, List.map_cons, hk _ _ hr]
    exact congrArg (_ :: ·) ih

/-- **A map of texts, no two of them the same, is read entry by entry.** -/
theorem readMapOf_ofFields_eq_valid {α : Type} {read : Value → Checked α}
    {fields : Assoc String Value} (hn : fields.keys.Nodup) {entries : Assoc String α} :
    readMapOf read (.ofFields fields) = .valid entries ↔
      List.Forall₂ (fun field entry => field.1 = entry.1 ∧ read field.2 = .valid entry.2)
        fields entries := by
  have hread : ∀ pairs, readEntries read (fields.map fun (k, v) => (.text k, v)) = .valid pairs ↔
      List.Forall₂ (fun field entry => field.1 = entry.1 ∧ read field.2 = .valid entry.2)
        fields pairs := by
    intro pairs
    rw [readEntries_eq_valid, List.forall₂_map_left_iff]
    simp only [readKey, readTextScalar, Checked.under_valid, Checked.valid.injEq]
  have hofPairs : ∀ pairs, readEntries read (fields.map fun (k, v) => (.text k, v)) = .valid pairs →
      Assoc.ofPairs pairs = pairs := by
    intro pairs h
    have hkeys := keys_eq_of_forall₂ (fun _ _ => And.left) ((hread pairs).mp h)
    exact Assoc.ofPairs_of_nodup (hkeys ▸ hn)
  rw [Value.ofFields, readMapOf_eq_valid, ← hread entries]
  constructor
  · rintro ⟨_, pairs, he, hpairs, rfl⟩
    cases he
    rwa [hofPairs pairs hpairs]
  · intro h
    exact ⟨_, entries, rfl, h, hofPairs entries h⟩

/-! ## 2. The two readers -/

/-- Fields that make a workflow of their own, and not one under the key `workflow`, with a name that
counts as given. -/
def IsFlat (fields : Fields) : Prop :=
  Value.lookup "workflow" fields = none ∧
    (Value.lookup "name" fields).any Value.isTruthy = true

instance : DecidablePred IsFlat := fun fields =>
  inferInstanceAs (Decidable (Value.lookup "workflow" fields = none ∧
    (Value.lookup "name" fields).any Value.isTruthy = true))

/-- What stands under the key `workflows` of a store with the given definitions. -/
def workflowsValue (definitions : Assoc String Fields) : Value :=
  .ofFields (definitions.map fun d => (d.1, .map d.2))

theorem workflowsListed_iff {fields : Fields} {definitions : Assoc String Fields}
    (hw : Value.lookup "workflows" fields = some (workflowsValue definitions)) :
    workflowsListed fields = true ↔ ∀ d ∈ definitions, stepsListed d.2 = true := by
  simp [workflowsListed, hw, workflowsValue, Value.ofFields]

end Definition

open Definition

/-- Flat fields make a workflow if their steps can be looked through and they are read as one. -/
theorem Workflow.ofValue_flat_eq_ok {now : Int} {fields : Fields} (h : IsFlat fields)
    {w : Workflow} : Workflow.ofValue now (.map fields) = .ok w ↔
      stepsListed fields = true ∧ readWorkflow now (.map fields) = .valid w := by
  have hname : ∃ name, Value.lookup "name" fields = some name ∧ name.isTruthy = true := by
    simpa [Option.any_eq_true] using h.2
  rw [Workflow.ofValue, h.1]
  exact Workflow.ofFields_eq_ok.trans (and_iff_right hname)

/-- A store is made of fields in which the steps of workflows can be looked through. -/
theorem Store.ofValue_map_eq_ok {now : Int} {fields : Fields} {s : Store} :
    Store.ofValue now (.map fields) = .ok s ↔ workflowsListed fields = true ∧
      optional fields "commands" [] (readMapOf (readSavedCommand now)) = .valid s.commands ∧
        optional fields "workflows" [] (readMapOf (readWorkflow now)) = .valid s.workflows := by
  have hread : readStoreFields now fields = .valid s ↔
      optional fields "commands" [] (readMapOf (readSavedCommand now)) = .valid s.commands ∧
        optional fields "workflows" [] (readMapOf (readWorkflow now)) = .valid s.workflows := by
    rw [readStoreFields, Checked.both_eq_valid]
    constructor
    · rintro ⟨commands, workflows, hc, hw, rfl⟩
      exact ⟨hc, hw⟩
    · rintro ⟨hc, hw⟩
      exact ⟨_, _, hc, hw, rfl⟩
  rw [← hread, Store.ofValue]
  cases workflowsListed fields <;> cases readStoreFields now fields <;> simp

/-! ## 3. Stores read one by one -/

namespace Definition

/-- The workflows that definitions give on their own, under the same keys and in the same order. -/
def ReadAlone (now : Int) : Assoc String Fields → Assoc String Workflow → Prop :=
  List.Forall₂ fun d entry => d.1 = entry.1 ∧ Workflow.ofValue now (.map d.2) = .ok entry.2

/-- The saved commands that the fields of a map are read as. -/
def ReadCommands (now : Int) : Fields → Assoc String SavedCommand → Prop :=
  List.Forall₂ fun field entry =>
    readKey field.1 = .valid entry.1 ∧ readSavedCommand now field.2 = .valid entry.2

/-- **What comes of a store with the given definitions of workflows and commands.** -/
structure ReadOneByOne (now : Int) (definitions : Assoc String Fields) (commands : Fields)
    (answer : Except DefinitionError Store) : Prop where
  /-- There is a store if each definition gives a workflow on its own and each command is one. -/
  succeeds : (∃ s, answer = .ok s) ↔
    (∀ d ∈ definitions, ∃ w, Workflow.ofValue now (.map d.2) = .ok w) ∧
      ∀ c ∈ commands, (∃ key, readKey c.1 = .valid key) ∧
        ∃ command, readSavedCommand now c.2 = .valid command
  /-- The workflows are those that the definitions give on their own, whatever the commands are. -/
  workflows : ∀ s, answer = .ok s → ReadAlone now definitions s.workflows
  /-- The commands are those of the commands' map. -/
  commands : ∀ s, answer = .ok s → ∃ pairs, ReadCommands now commands pairs ∧
    Assoc.ofPairs pairs = s.commands

/-- Definitions that are flat are read as a map of workflows if their steps can be looked through. -/
theorem readAlone_iff {now : Int} {definitions : Assoc String Fields}
    (hn : definitions.keys.Nodup) (hflat : ∀ d ∈ definitions, IsFlat d.2)
    {workflows : Assoc String Workflow} : ReadAlone now definitions workflows ↔
      (∀ d ∈ definitions, stepsListed d.2 = true) ∧
        readMapOf (readWorkflow now) (workflowsValue definitions) = .valid workflows := by
  have hkeys : Assoc.keys (definitions.map fun d => (d.1, Value.map d.2)) = definitions.keys := by
    simp [Assoc.keys]
  rw [workflowsValue, readMapOf_ofFields_eq_valid (hkeys ▸ hn), List.forall₂_map_left_iff]
  constructor
  · intro h
    have hall := (List.forall₂_and_left _ _).mpr ⟨hflat, h⟩
    refine (List.forall₂_and_left _ _).mp (hall.imp ?_)
    rintro d entry ⟨hf, hkey, hw⟩
    obtain ⟨hs, hr⟩ := (Workflow.ofValue_flat_eq_ok hf).mp hw
    exact ⟨hs, hkey, hr⟩
  · intro h
    have hall := (List.forall₂_and_left _ _).mpr ⟨hflat, (List.forall₂_and_left _ _).mpr h⟩
    refine hall.imp ?_
    rintro d entry ⟨hf, hs, hkey, hr⟩
    exact ⟨hkey, (Workflow.ofValue_flat_eq_ok hf).mpr ⟨hs, hr⟩⟩

/-- The commands of a store, of which there are none without a map of them. -/
theorem commands_eq_valid {now : Int} {fields : Fields} {commands : Option Fields}
    (hc : Value.lookup "commands" fields = commands.map .map) {entries : Assoc String SavedCommand} :
    optional fields "commands" [] (readMapOf (readSavedCommand now)) = .valid entries ↔
      ∃ pairs, ReadCommands now (commands.getD []) pairs ∧ Assoc.ofPairs pairs = entries := by
  rw [optional_eq_valid, hc]
  cases commands with
  | none => simp [ReadCommands, Assoc.ofPairs, Assoc.overlay]
  | some cs => simp [ReadCommands, readMapOf_eq_valid, readEntries_eq_valid]

/-- The workflows of a store, if there is something under their key. -/
theorem workflows_eq_valid {now : Int} {fields : Fields} {definitions : Assoc String Fields}
    (hw : Value.lookup "workflows" fields = some (workflowsValue definitions))
    {workflows : Assoc String Workflow} :
    optional fields "workflows" [] (readMapOf (readWorkflow now)) = .valid workflows ↔
      readMapOf (readWorkflow now) (workflowsValue definitions) = .valid workflows := by
  rw [optional_eq_valid, hw]
  simp

end Definition

/-- **A store reads each of its workflows as the workflow is read on its own, and the commands beside
them make no difference to that: the store is read unless a workflow or a command is not.** -/
theorem Store.ofValue_readOneByOne (now : Int) (definitions : Assoc String Fields)
    (commands : Option Fields) (hn : definitions.keys.Nodup)
    (hflat : ∀ d ∈ definitions, IsFlat d.2) {fields : Fields}
    (hw : Value.lookup "workflows" fields = some (workflowsValue definitions))
    (hc : Value.lookup "commands" fields = commands.map .map) :
    ReadOneByOne now definitions (commands.getD []) (Store.ofValue now (.map fields)) := by
  have hok : ∀ s, Store.ofValue now (.map fields) = .ok s ↔
      ReadAlone now definitions s.workflows ∧
        ∃ pairs, ReadCommands now (commands.getD []) pairs ∧ Assoc.ofPairs pairs = s.commands := by
    intro s
    rw [Store.ofValue_map_eq_ok, workflowsListed_iff hw, commands_eq_valid hc,
      workflows_eq_valid hw, readAlone_iff hn hflat]
    tauto
  have halone : (∃ workflows, ReadAlone now definitions workflows) ↔
      ∀ d ∈ definitions, ∃ w, Workflow.ofValue now (.map d.2) = .ok w := by
    rw [ReadAlone, exists_forall₂_iff]
    simp
  have hcommands : (∃ pairs, ReadCommands now (commands.getD []) pairs) ↔
      ∀ c ∈ commands.getD [], (∃ key, readKey c.1 = .valid key) ∧
        ∃ command, readSavedCommand now c.2 = .valid command := by
    rw [ReadCommands, exists_forall₂_iff]
    simp
  refine ⟨?_, fun s hs => ((hok s).mp hs).1, fun s hs => ((hok s).mp hs).2⟩
  rw [← halone, ← hcommands]
  constructor
  · rintro ⟨s, hs⟩
    obtain ⟨ha, pairs, hp, -⟩ := (hok s).mp hs
    exact ⟨⟨_, ha⟩, pairs, hp⟩
  · rintro ⟨⟨workflows, ha⟩, pairs, hp⟩
    exact ⟨⟨Assoc.ofPairs pairs, workflows⟩, (hok _).mpr ⟨ha, pairs, hp, rfl⟩⟩

/-- Two definitions, of which one has a loop over a step that does not name its kind. -/
def Definition.twoDefinitions : Assoc String Fields :=
  [("poll", [(.text "name", .text "Poll"), (.text "steps", .list [.ofFields
      [("name", .text "wait"), ("loop", .ofFields
        [("condition", .ofFields [("expression", .text "[ -f lock ]")]),
         ("steps", .list [.ofFields [("name", .text "tick"), ("command", .text "sleep 1")]])])]])]),
   ("rest", [(.text "name", .text "Rest")])]

/-- A saved command under its key. -/
def Definition.oneCommand : Fields :=
  [(.text "up", .ofFields [("name", .text "Up"), ("command", .text "uptime")])]

/-- A store of two workflows and a command is read, and each workflow as on its own. -/
theorem Store.twoDefinitions_readOneByOne :
    let answer := Store.ofValue 0 (.map [(.text "workflows", workflowsValue twoDefinitions),
      (.text "commands", .map oneCommand)])
    ReadOneByOne 0 twoDefinitions oneCommand answer ∧ answer.toOption.isSome = true :=
  ⟨Store.ofValue_readOneByOne 0 twoDefinitions (some oneCommand) (by decide) (by decide) rfl rfl,
    by decide +kernel⟩

end Runbook
