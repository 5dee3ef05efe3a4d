import Runbook.Definition.Writer
import Runbook.Proofs.Definition.Listing

/-!
# Steps are read back

What is written of a proper step is read back as that step, wherever it stands, and also if steps in
it do not name their kind:

* `untag`: a value in which steps at chosen places have lost the key that names their kind;
* `lookup_untagged`, `kindOf_untagged`: the fields and the kind of a step are found all the same;
* `ReadsBack`, **`readsBack_of_proper`**: proper steps are read back;
* `GoneThrough`, **`goneThrough`**: steps that were written are gone through.
-/

namespace Runbook

namespace Value

/-- The value of a text key among fields with text keys. -/
theorem lookup_ofFields (name : String) (fields : List (String × Value)) :
    lookup name (fields.map fun entry => (.text entry.1, entry.2)) = Assoc.get? fields name := by
  induction fields with
  | nil => rfl
  | cons entry rest ih =>
    obtain ⟨k, v⟩ := entry
    simp only [List.map_cons, lookup, Assoc.get?, ih]

theorem lookup_eq_none_iff {α : Type} {name : String} {fields : List (Scalar × α)} :
    lookup name fields = none ↔ ∀ v, (.text name, v) ∉ fields := by
  induction fields with
  | nil => simp [lookup]
  | cons entry rest ih =>
    obtain ⟨k, v⟩ := entry
    cases k with
    | text s =>
      by_cases hs : s = name
      · simp only [lookup, hs, if_true, reduceCtorEq, false_iff]
        exact fun h => h v List.mem_cons_self
      · simp [lookup, hs, ih, Ne.symm hs]
    | null | bool | int | real | brokenText | date | moment | bytes => simp [lookup, ih]

/-- The map with the value under a text key changed. -/
def editField (name : String) (edit : Value → Value) : Value → Value
  | .map fields => .map (fields.map fun entry =>
      if entry.1 = .text name then (entry.1, edit entry.2) else entry)
  | v => v

end Value

namespace Definition

/-! ## 1. Steps that do not name their kind -/

/-- The fields without the key that names the kind of a step, unless the kind is authentication. -/
def withoutTag (fields : Fields) : Fields :=
  fields.filter fun entry => entry.1 ≠ .text "step_type" ∨ entry.2 = .text "auth"

mutual

/-- The value in which the steps at chosen places have lost the key that names their kind. A place is
made of the names of fields and the positions in lists that lead to it. -/
def untag (chosen : List String → Bool) (place : List String) : Value → Value
  | .scalar s => .scalar s
  | .list items => .list (untagItems chosen place 0 items)
  | .set members => .set members
  | .map fields =>
    .map (if chosen place then withoutTag (untagFields chosen place fields)
      else untagFields chosen place fields)

/-- The same for the items of a list from a position on. -/
def untagItems (chosen : List String → Bool) (place : List String) : Nat → List Value → List Value
  | _, [] => []
  | n, v :: rest =>
    untag chosen (place ++ [toString n]) v :: untagItems chosen place (n + 1) rest

/-- The same for the values of fields. -/
def untagFields (chosen : List String → Bool) (place : List String) :
    List (Scalar × Value) → List (Scalar × Value)
  | [] => []
  | (k, v) :: rest =>
    (k, untag chosen (place ++ [keyText k]) v) :: untagFields chosen place rest

end

variable {chosen : List String → Bool} {place : List String}

theorem lookup_withoutTag {name : String} (h : name ≠ "step_type") (fields : Fields) :
    Value.lookup name (withoutTag fields) = Value.lookup name fields := by
  induction fields with
  | nil => rfl
  | cons entry rest ih =>
    obtain ⟨k, v⟩ := entry
    unfold withoutTag at ih ⊢
    rw [List.filter_cons]
    split
    · cases k <;> simp only [Value.lookup, ih]
    · rename_i hk
      have hk : k = .text "step_type" := by
        simp only [decide_eq_true_eq, not_or, not_not] at hk
        exact hk.1
      subst hk
      rw [ih, Value.lookup, if_neg (Ne.symm h)]

theorem lookup_untagFields (name : String) (fields : Fields) :
    Value.lookup name (untagFields chosen place fields) =
      (Value.lookup name fields).map (untag chosen (place ++ [name])) := by
  induction fields with
  | nil => rfl
  | cons entry rest ih =>
    obtain ⟨k, v⟩ := entry
    cases k with
    | text s =>
      simp only [untagFields, Value.lookup, keyText]
      split
      · rename_i hs
        rw [hs, Option.map_some]
      · exact ih
    | null | bool | int | real | brokenText | date | moment | bytes =>
      simp only [untagFields, Value.lookup, ih]

/-- The fields of a map in which steps at chosen places have lost the name of their kind. -/
def untagged (chosen : List String → Bool) (place : List String) (fields : List (String × Value)) :
    Fields :=
  let fields := untagFields chosen place (fields.map fun entry => (.text entry.1, entry.2))
  if chosen place then withoutTag fields else fields

theorem untag_ofFields (fields : List (String × Value)) :
    untag chosen place (.ofFields fields) = .map (untagged chosen place fields) := by
  rw [Value.ofFields, untag, untagged]

/-- **A field that does not name a kind is found as it was written.** -/
theorem lookup_untagged {name : String} (h : name ≠ "step_type") (fields : List (String × Value)) :
    Value.lookup name (untagged chosen place fields) =
      (Assoc.get? fields name).map (untag chosen (place ++ [name])) := by
  unfold untagged
  simp only []
  split
  · rw [lookup_withoutTag h, lookup_untagFields, Value.lookup_ofFields]
  · rw [lookup_untagFields, Value.lookup_ofFields]

/-! ## 2. Parts without steps -/

@[simp] theorem readText_text (s : String) : readText (.text s) = .valid s := rfl

@[simp] theorem readTruth_bool (b : Bool) : readTruth (.bool b) = .valid b := rfl

@[simp] theorem readWhole_int (i : Int) : readWhole (.int i) = .valid i := rfl

@[simp] theorem untag_scalar (s : Scalar) : untag chosen place (.scalar s) = .scalar s := by
  rw [untag]

@[simp] theorem untag_ofText? (s? : Option String) :
    untag chosen place (.ofText? s?) = .ofText? s? := by
  cases s? <;> exact untag_scalar _

@[simp] theorem untag_ofInt? (i? : Option Int) :
    untag chosen place (.ofInt? i?) = .ofInt? i? := by
  cases i? <;> exact untag_scalar _

@[simp] theorem readNullable_ofText? (s? : Option String) :
    readNullable readText (.ofText? s?) = .valid s? := by
  cases s? <;> rfl

@[simp] theorem readNullable_ofInt? (i? : Option Int) :
    readNullable readWhole (.ofInt? i?) = .valid i? := by
  cases i? <;> rfl

theorem readHead_untagged (head : StepHead) (kind : StepKind) (payload : List (String × Value)) :
    readHead (untagged chosen place (head.fields kind ++ payload)) = .valid head := by
  simp [readHead, required, optional, lookup_untagged, StepHead.fields, Assoc.get?]

theorem readCondition_untag (c : Condition) :
    readCondition (untag chosen place c.toValue) = .valid c := by
  simp [Condition.toValue, untag_ofFields, readCondition, readRecord, required, nullable, optional,
    lookup_untagged, Assoc.get?]

theorem ofName?_name (kind : ActionKind) : ActionKind.ofName? kind.name = some kind := by
  cases kind <;> decide

theorem readAction_untag {a : Action} (h : a.kind = .leaveRun → a.exitCode ≠ none) :
    readAction (untag chosen place a.toValue) = .valid a := by
  have hread : readActionFields (untagged chosen place
      [("type", .text a.kind.name), ("exit_code", .ofInt? a.exitCode)]) = .valid a := by
    rw [readActionFields, Checked.demand_eq_valid]
    refine ⟨?_, ?_⟩
    · simp [required, nullable, optional, lookup_untagged, Assoc.get?, readActionKind, ofName?_name]
    · rw [if_neg]
      exact fun hn => h hn.1 hn.2
  rw [Action.toValue, untag_ofFields, readAction]
  · exact hread
  · intro s h
    cases h

/-- The kind is found where a step names it. -/
theorem kindOf_of_tag {fields : Fields} {kind : StepKind}
    (h : Value.lookup "step_type" fields = some (.text kind.name)) : kindOf fields = .ok kind := by
  rw [kindOf, h]
  cases kind <;> rfl

/-- The kind of a step without a name for it follows from the payload that it carries. -/
theorem kindOf_of_payload {fields : Fields} {kind : StepKind}
    (h : Value.lookup "step_type" fields = none) (hk : kind ≠ .auth)
    (hp : ∀ k ∈ payloadKinds, (Value.lookup k.name fields).isSome = decide (k = kind)) :
    kindOf fields = .ok kind := by
  have hc := hp .conditional (by decide)
  have hb := hp .branch (by decide)
  have hl := hp .loop (by decide)
  rw [kindOf, h]
  simp only [payloadKinds, List.find?, hc, hb, hl]
  cases kind <;> first | rfl | exact absurd rfl hk

/-- **A chosen step has lost the name of its kind**, unless it is an authentication. -/
theorem lookup_tag_untagged (head : StepHead) (kind : StepKind) {payload : List (String × Value)}
    (hp : Assoc.get? payload "step_type" = none) :
    Value.lookup "step_type" (untagged chosen place (head.fields kind ++ payload)) =
      if chosen place ∧ kind ≠ .auth then none else some (.text kind.name) := by
  have hnone : Value.lookup "step_type"
      (untagFields chosen place (payload.map fun entry => (.text entry.1, entry.2))) = none := by
    rw [lookup_untagFields, Value.lookup_ofFields, hp, Option.map_none]
  have hfilter : ∀ p, Value.lookup "step_type" (List.filter p (untagFields chosen place
      (payload.map fun entry => (.text entry.1, entry.2)))) = none := by
    intro p
    rw [Value.lookup_eq_none_iff] at hnone ⊢
    exact fun v hv => hnone v (List.mem_filter.mp hv).1
  cases hc : chosen place <;> cases kind <;>
    simp [untagged, hc, StepHead.fields, untagFields, withoutTag, Value.lookup, StepKind.name,
      hfilter]

/-- **The kind of a step is found whether it is named or not.** -/
theorem kindOf_untagged (head : StepHead) (kind : StepKind) {payload : List (String × Value)}
    (ht : Assoc.get? payload "step_type" = none)
    (hp : ∀ k ∈ payloadKinds, (Assoc.get? payload k.name).isSome = decide (k = kind)) :
    kindOf (untagged chosen place (head.fields kind ++ payload)) = .ok kind := by
  have htag : Value.lookup "step_type" (untagged chosen place (head.fields kind ++ payload)) = _ :=
    lookup_tag_untagged head kind ht
  by_cases hc : chosen place ∧ kind ≠ .auth
  · rw [if_pos hc] at htag
    refine kindOf_of_payload htag hc.2 fun k hk => ?_
    rw [← hp k hk]
    revert k
    simp [payloadKinds, StepKind.name, lookup_untagged, StepHead.fields, Assoc.get?]
  · rw [if_neg hc] at htag
    exact kindOf_of_tag htag

/-- The payload of a step is found under the name of its kind. -/
theorem lookup_payload_untagged (head : StepHead) (kind : StepKind) {name : String}
    (hn : name ≠ "step_type") (hfree : Assoc.get? (head.fields kind) name = none)
    (fields : List (String × Value)) :
    Value.lookup name (untagged chosen place (head.fields kind ++ [(name, .ofFields fields)])) =
      some (.map (untagged chosen (place ++ [name]) fields)) := by
  rw [lookup_untagged hn, Assoc.get?_append, hfree, Option.none_or, Assoc.get?, if_pos rfl,
    Option.map_some, untag_ofFields]

/-! ## 3. Steps -/

/-- Items that are read wherever they are. -/
theorem readItems_untagItems {α : Type} {read : Value → Checked α} {write : α → Value} {as : List α}
    (h : ∀ a ∈ as, ∀ place, read (untag chosen place (write a)) = .valid a) (m n : Nat) :
    readItems read m (untagItems chosen place n (as.map write)) = .valid as := by
  induction as generalizing m n with
  | nil => rfl
  | cons a rest ih =>
    have hrest := ih (fun b hb => h b (List.mem_cons_of_mem _ hb)) (m + 1) (n + 1)
    rw [List.map_cons, untagItems, readItems, hrest, h a List.mem_cons_self]
    rfl

theorem readListOf_untag {α : Type} {read : Value → Checked α} {write : α → Value} {as : List α}
    (h : ∀ a ∈ as, ∀ place, read (untag chosen place (write a)) = .valid a) :
    readListOf read (untag chosen place (.list (as.map write))) = .valid as := by
  rw [untag, readListOf, readItems_untagItems h]

end Definition

namespace Step

theorem blockValues_eq (block : List Step) : blockValues block = block.map toValue := by
  induction block with
  | nil => rfl
  | cons s rest ih => rw [blockValues, ih, List.map_cons]

/-- A case with its fields. -/
def caseValue (entry : String × List Step) : Value :=
  .ofFields [("value", .text entry.1), ("steps", .list (entry.2.map toValue))]

theorem caseValuesList_eq (cases : List (String × List Step)) :
    caseValuesList cases = cases.map caseValue := by
  induction cases with
  | nil => rfl
  | cons entry rest ih =>
    obtain ⟨value, block⟩ := entry
    rw [caseValuesList, ih, List.map_cons, blockValues_eq]
    rfl

/-- A block, or null. -/
def blockValue? : Option (List Step) → Value
  | some block => .list (block.map toValue)
  | none => .null

theorem toValue_conditional (h : StepHead) (c : Condition) (t : List Step) (el : Option (List Step))
    (a : Option Action) : toValue (.conditional h c t el a) =
      .ofFields (h.fields .conditional ++ [("conditional", .ofFields
        [("condition", c.toValue), ("then_block", .list (t.map toValue)),
         ("else_block", blockValue? el), ("action", Action.toValue? a)])]) := by
  cases el <;> simp only [toValue, blockValues_eq, blockValue?]

theorem toValue_branch (h : StepHead) (selector : String) (cs : List (String × List Step))
    (d : Option (List Step)) : toValue (.branch h selector cs d) =
      .ofFields (h.fields .branch ++ [("branch", .ofFields
        [("variable", .text selector), ("cases", .list (cs.map caseValue)),
         ("default_case", blockValue? d)])]) := by
  cases d <;> simp only [toValue, blockValues_eq, caseValuesList_eq, blockValue?]

theorem toValue_loop (h : StepHead) (c : Condition) (b : List Step) : toValue (.loop h c b) =
      .ofFields (h.fields .loop ++ [("loop", .ofFields
        [("condition", c.toValue), ("steps", .list (b.map toValue))])]) := by
  simp only [toValue, blockValues_eq]

end Step

namespace Definition

/-- A step is read back wherever it stands, whether the chosen steps name their kind or not. -/
def ReadsBack (chosen : List String → Bool) (s : Step) : Prop :=
  ∀ place, readStep (untag chosen place s.toValue) = .valid s

theorem readNullable_untag_block {block? : Option (List Step)}
    (h : ∀ block, block? = some block → ∀ s ∈ block, ReadsBack chosen s) :
    readNullable (readListOf readStep) (untag chosen place (Step.blockValue? block?)) =
      .valid block? := by
  cases block? with
  | none => rw [Step.blockValue?, untag_scalar]; rfl
  | some block =>
    rw [readNullable_of_ne_null, Step.blockValue?, readListOf_untag (h block rfl)]
    · rfl
    · simp [Step.blockValue?, untag]

theorem readNullable_untag_action {a? : Option Action}
    (h : ∀ a, a? = some a → a.kind = .leaveRun → a.exitCode ≠ none) :
    readNullable readAction (untag chosen place (Action.toValue? a?)) = .valid a? := by
  cases a? with
  | none => rw [Action.toValue?, untag_scalar]; rfl
  | some a =>
    rw [readNullable_of_ne_null, Action.toValue?, readAction_untag (h a rfl)]
    · rfl
    · simp [Action.toValue?, Action.toValue, untag_ofFields]

theorem readCase_untag {entry : String × List Step} (h : ∀ s ∈ entry.2, ReadsBack chosen s) :
    readCase (untag chosen place (Step.caseValue entry)) = .valid entry := by
  rw [Step.caseValue, untag_ofFields, readCase_eq_valid]
  refine ⟨_, rfl, ?_, ?_⟩
  · simp [required, lookup_untagged, Assoc.get?]
  · simp [optional, lookup_untagged, Assoc.get?, readListOf_untag h]

theorem readCases_untag {cs : List (String × List Step)}
    (h : ∀ entry ∈ cs, ∀ s ∈ entry.2, ReadsBack chosen s) :
    readCases (untag chosen place (.list (cs.map Step.caseValue))) = .valid cs := by
  rw [untag, readCases_list]
  exact readItems_untagItems (fun entry he _ => readCase_untag (h entry he)) 0 0

/-- **Proper steps are read back**, whether they name their kind or not. -/
theorem readsBack_of_proper (s : Step) (hs : ∀ t ∈ s.walk, t.Proper) : ReadsBack chosen s := by
  induction s using Step.childInduction with
  | h s ih =>
    have hproper := hs s (Step.mem_walk_self s)
    replace ih : ∀ c ∈ s.children, ReadsBack chosen c :=
      fun c hc => ih c hc fun t ht => hs t (Step.mem_walk_of_child hc ht)
    intro place
    cases s with
    | command head =>
      have hfields : (Step.command head).toValue = .ofFields (head.fields .command ++ []) := by
        rw [Step.toValue, List.append_nil]
      rw [hfields, untag_ofFields, readStep_eq_valid]
      exact .command (kindOf_untagged head .command rfl (by simp [payloadKinds]))
        (readHead_untagged head .command [])
    | auth head =>
      have hfields : (Step.auth head).toValue = .ofFields (head.fields .auth ++ []) := by
        rw [Step.toValue, List.append_nil]
      rw [hfields, untag_ofFields, readStep_eq_valid]
      exact .auth (kindOf_untagged head .auth rfl (by simp [payloadKinds]))
        (readHead_untagged head .auth [])
    | conditional head c t el a =>
      have ht : ∀ s ∈ t, ReadsBack chosen s := fun s hs => ih s (Step.mem_children_then hs)
      have hel : ∀ block, el = some block → ∀ s ∈ block, ReadsBack chosen s := by
        rintro block rfl s hs
        exact ih s (Step.mem_children_else hs)
      rw [Step.toValue_conditional, untag_ofFields, readStep_eq_valid]
      refine .conditional (kindOf_untagged head .conditional rfl
          (by simp [payloadKinds, StepKind.name, Assoc.get?]))
        (readHead_untagged head .conditional _) hproper.1
        (lookup_payload_untagged head .conditional (by decide) rfl _) ?_ ?_ ?_ ?_
      · simp [required, lookup_untagged, Assoc.get?, readCondition_untag]
      · simp [optional, lookup_untagged, Assoc.get?, readListOf_untag ht]
      · simp [nullable, optional, lookup_untagged, Assoc.get?, readNullable_untag_block hel]
      · simp [nullable, optional, lookup_untagged, Assoc.get?,
          readNullable_untag_action hproper.2]
    | branch head selector cs d =>
      have hcs : ∀ entry ∈ cs, ∀ s ∈ entry.2, ReadsBack chosen s :=
        fun entry he s hs => ih s (Step.mem_children_case he hs)
      have hd : ∀ block, d = some block → ∀ s ∈ block, ReadsBack chosen s := by
        rintro block rfl s hs
        exact ih s (Step.mem_children_default hs)
      rw [Step.toValue_branch, untag_ofFields, readStep_eq_valid]
      refine .branch (kindOf_untagged head .branch rfl
          (by simp [payloadKinds, StepKind.name, Assoc.get?]))
        (readHead_untagged head .branch _) hproper
        (lookup_payload_untagged head .branch (by decide) rfl _) ?_ ?_ ?_
      · simp [required, lookup_untagged, Assoc.get?]
      · simp [optional, lookup_untagged, Assoc.get?, readCases_untag hcs]
      · simp [nullable, optional, lookup_untagged, Assoc.get?, readNullable_untag_block hd]
    | loop head c b =>
      have hb : ∀ s ∈ b, ReadsBack chosen s := fun s hs => ih s (Step.mem_children_body hs)
      rw [Step.toValue_loop, untag_ofFields, readStep_eq_valid]
      refine .loop (kindOf_untagged head .loop rfl
          (by simp [payloadKinds, StepKind.name, Assoc.get?]))
        (readHead_untagged head .loop _) hproper
        (lookup_payload_untagged head .loop (by decide) rfl _) ?_ ?_
      · simp [required, lookup_untagged, Assoc.get?, readCondition_untag]
      · simp [optional, lookup_untagged, Assoc.get?, readListOf_untag hb]

/-! ## 4. Going through what was written -/

/-- A step is gone through wherever it stands, whether the chosen steps name their kind or not. -/
def GoneThrough (chosen : List String → Bool) (s : Step) : Prop :=
  ∀ place, stepListed (untag chosen place s.toValue) = true

theorem exists_of_mem_untagItems {α : Type} {write : α → Value} {as : List α} {n : Nat} {v : Value}
    (h : v ∈ untagItems chosen place n (as.map write)) :
    ∃ a ∈ as, ∃ place, v = untag chosen place (write a) := by
  induction as generalizing n with
  | nil => cases h
  | cons a rest ih =>
    rw [List.map_cons, untagItems, List.mem_cons] at h
    rcases h with rfl | h
    · exact ⟨a, List.mem_cons_self, _, rfl⟩
    · obtain ⟨b, hb, place, hv⟩ := ih h
      exact ⟨b, List.mem_cons_of_mem _ hb, place, hv⟩

theorem blockListed_untag {block : List Step} (h : ∀ s ∈ block, GoneThrough chosen s) :
    blockListed (untag chosen place (.list (block.map Step.toValue))) = true := by
  rw [untag, blockListed, itemsListed_iff]
  intro v hv
  obtain ⟨s, hs, place, rfl⟩ := exists_of_mem_untagItems hv
  exact h s hs place

theorem blockListed_untag_block? {block? : Option (List Step)}
    (h : ∀ block, block? = some block → ∀ s ∈ block, GoneThrough chosen s) :
    blockListed (untag chosen place (Step.blockValue? block?)) = true := by
  cases block? with
  | none =>
    rw [Step.blockValue?, untag_scalar]
    exact blockListed_of_ne_list fun _ => by simp
  | some block => exact blockListed_untag (h block rfl)

theorem casesListed_untag {cs : List (String × List Step)}
    (h : ∀ entry ∈ cs, ∀ s ∈ entry.2, GoneThrough chosen s) :
    casesListed (untag chosen place (.list (cs.map Step.caseValue))) = true := by
  rw [untag, casesListed_iff]
  refine ⟨id, ?_⟩
  rintro _ ⟨⟩ fields hfields
  obtain ⟨entry, he, place, hv⟩ := exists_of_mem_untagItems hfields
  rw [Step.caseValue, untag_ofFields] at hv
  cases hv
  simp [fieldListed_iff, lookup_untagged, Assoc.get?, blockListed_untag (h entry he)]

/-- **Steps that were written are gone through.** -/
theorem goneThrough (s : Step) : GoneThrough chosen s := by
  induction s using Step.childInduction with
  | h s ih =>
    intro place
    cases s with
    | command head =>
      rw [Step.toValue, untag_ofFields, stepListed_map]
      simp [lookup_untagged, StepHead.fields, Assoc.get?]
    | auth head =>
      rw [Step.toValue, untag_ofFields, stepListed_map]
      simp [lookup_untagged, StepHead.fields, Assoc.get?]
    | conditional head c t el a =>
      have hel : ∀ block, el = some block → ∀ s ∈ block, GoneThrough chosen s := by
        rintro block rfl s hs
        exact ih s (Step.mem_children_else hs)
      rw [Step.toValue_conditional, untag_ofFields, stepListed_map]
      simp [lookup_untagged, StepHead.fields, Assoc.get?, untag_ofFields, conditionalListed_iff,
        fieldListed_iff, blockListed_untag_block? hel,
        blockListed_untag fun s hs => ih s (Step.mem_children_then hs)]
    | branch head selector cs d =>
      have hd : ∀ block, d = some block → ∀ s ∈ block, GoneThrough chosen s := by
        rintro block rfl s hs
        exact ih s (Step.mem_children_default hs)
      rw [Step.toValue_branch, untag_ofFields, stepListed_map]
      simp [lookup_untagged, StepHead.fields, Assoc.get?, untag_ofFields, branchListed_iff,
        fieldListed_iff, blockListed_untag_block? hd,
        casesListed_untag fun entry he s hs => ih s (Step.mem_children_case he hs)]
    | loop head c b =>
      rw [Step.toValue_loop, untag_ofFields, stepListed_map]
      simp [lookup_untagged, StepHead.fields, Assoc.get?, untag_ofFields, loopListed_iff,
        fieldListed_iff, blockListed_untag fun s hs => ih s (Step.mem_children_body hs)]

end Definition

end Runbook
