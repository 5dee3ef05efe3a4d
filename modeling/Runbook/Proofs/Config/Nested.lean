import Runbook.Proofs.Config.Merging

/-!
# Nested maps put over one another

Given entries are put over others at every depth at which both have a map:

* `Value.WellKeyed`: no map in a value has a key twice; **`Value.WellKeyed.mergeOver`**: merging keeps it so;
* `Value.mergeOver_map`, `Value.deepMerge_of_settled`: what is put over nothing, and what changes nothing;
  **`Value.mergeOver_again`**: merging a second time changes nothing;
* `Value.at?`: the value at a path of keys; `Value.Overrules`: a value has something at a path, or something
  that is no map on the way there;
* **`Value.at?_mergeOver`**: what stands at the paths of merged values;
* `Value.KeptApart`, **`Value.deepMerge_keepsApart`**: all that is said of merged maps.
-/

namespace Runbook.Value

variable {base upper fields : List (Scalar × Value)} {old : Option Value} {v w : Value}

/-! ## 1. Maps at every depth -/

/-- **No map in a value has a key twice**, at any depth of maps. -/
inductive WellKeyed : Value → Prop
  | leaf {v : Value} (h : v.isMap = false) : WellKeyed v
  | map {fields : List (Scalar × Value)} (differ : KeysDiffer fields)
      (inside : ∀ entry ∈ fields, WellKeyed entry.2) : WellKeyed (.map fields)

theorem wellKeyed_map :
    WellKeyed (.map fields) ↔ KeysDiffer fields ∧ ∀ entry ∈ fields, WellKeyed entry.2 := by
  constructor
  · intro h
    cases h with
    | leaf h => cases h
    | map differ inside => exact ⟨differ, inside⟩
  · exact fun h => .map h.1 h.2

mutual

/-- Whether a key is there twice can be decided. -/
def WellKeyed.decide : (v : Value) → Decidable (WellKeyed v)
  | .scalar _ | .list _ | .set _ => isTrue (.leaf rfl)
  | .map fields =>
    match WellKeyed.decideAll fields with
    | isTrue h => decidable_of_iff (KeysDiffer fields) (wellKeyed_map.trans (and_iff_left h)).symm
    | isFalse h => isFalse fun hm => h (wellKeyed_map.mp hm).2

/-- Whether a key is there twice in one of the values of entries can be decided. -/
def WellKeyed.decideAll :
    (fields : List (Scalar × Value)) → Decidable (∀ entry ∈ fields, WellKeyed entry.2)
  | [] => isTrue (List.forall_mem_nil _)
  | (_, v) :: rest =>
    match WellKeyed.decide v, WellKeyed.decideAll rest with
    | isTrue h, isTrue hrest => isTrue (List.forall_mem_cons.mpr ⟨h, hrest⟩)
    | isFalse h, _ => isFalse fun hall => h (List.forall_mem_cons.mp hall).1
    | _, isFalse hrest => isFalse fun hall => hrest (List.forall_mem_cons.mp hall).2

end

instance : DecidablePred WellKeyed := WellKeyed.decide

theorem WellKeyed.putField (h : WellKeyed (.map fields)) (key : Scalar) (hv : WellKeyed v) :
    WellKeyed (.map (putField key v fields)) := by
  obtain ⟨differ, inside⟩ := wellKeyed_map.mp h
  refine .map (differ.putField key v) fun ⟨k, u⟩ hin => ?_
  rcases (mem_putField hin).2 with rfl | ⟨l, hl⟩
  · exact hv
  · exact inside (l, u) hl

/-! ## 2. What is put over nothing, and what changes nothing -/

/-- The entries of a map, if there is one. -/
def entriesOf : Option Value → List (Scalar × Value)
  | some (.map fields) => fields
  | _ => []

theorem putField_of_differ {key : Scalar} (v : Value)
    (h : ∀ entry ∈ fields, sameKey entry.1 key = false) :
    putField key v fields = fields ++ [(key, v)] := by
  induction fields with
  | nil => rfl
  | cons entry rest ih =>
    obtain ⟨hk, hrest⟩ := List.forall_mem_cons.mp h
    rw [putField, if_neg (ne_true_of_eq_false hk), ih hrest, List.cons_append]

theorem deepMerge_of_differ (h : KeysDiffer (base ++ upper)) : deepMerge base upper = base ++ upper := by
  induction upper generalizing base with
  | nil => rw [deepMerge, List.append_nil]
  | cons entry rest ih =>
    obtain ⟨k, v⟩ := entry
    have hfront : ∀ entry ∈ base, sameKey entry.1 k = false := fun entry hin =>
      (List.pairwise_append.mp h).2.2 entry hin (k, v) List.mem_cons_self
    have hnone : fieldUnder? k base = none :=
      fieldUnder?_eq_none fun entry hin => sameKey_comm k entry.1 ▸ hfront entry hin
    have hcut : base ++ (k, v) :: rest = base ++ [(k, v)] ++ rest := by simp
    rw [deepMerge, hnone, mergeOver_none, putField_of_differ v hfront, ih (hcut ▸ h), hcut]

/-- A map is put over anything as over the entries that are there. -/
theorem mergeOver_map (h : KeysDiffer fields) (old : Option Value) :
    mergeOver old (.map fields) = .map (deepMerge (entriesOf old) fields) := by
  have hnothing : deepMerge [] fields = fields := deepMerge_of_differ h
  cases old with
  | none => exact (mergeOver_none _).trans (congrArg Value.map hnothing.symm)
  | some v =>
    cases v with
    | map base => rw [mergeOver, entriesOf]
    | scalar | list | set =>
      rw [mergeOver_of_not_map (by simp [isMap])]
      exact congrArg Value.map hnothing.symm

theorem putField_of_fieldUnder? {key : Scalar} (h : fieldUnder? key fields = some v) :
    putField key v fields = fields := by
  induction fields with
  | nil => cases h
  | cons entry rest ih =>
    obtain ⟨k, u⟩ := entry
    rw [fieldUnder?] at h
    rw [Value.putField]
    by_cases hk : sameKey k key = true
    · rw [if_pos hk] at h ⊢
      rw [Option.some.inj h]
    · rw [if_neg hk] at h ⊢
      rw [ih h]

/-- Entries that find their values already there change nothing. -/
theorem deepMerge_of_settled (h : ∀ entry ∈ upper, ∃ v, fieldUnder? entry.1 base = some v ∧
    mergeOver (some v) entry.2 = v) : deepMerge base upper = base := by
  induction upper with
  | nil => rw [deepMerge]
  | cons entry rest ih =>
    obtain ⟨k, u⟩ := entry
    obtain ⟨⟨v, hv, hsettled⟩, hrest⟩ := List.forall_mem_cons.mp h
    rw [deepMerge, hv, hsettled, putField_of_fieldUnder? hv, ih hrest]

/-! ## 3. Merging keeps keys apart, and is done once -/

theorem wellKeyed_entriesOf (h : ∀ v ∈ old, WellKeyed v) : WellKeyed (.map (entriesOf old)) := by
  unfold entriesOf
  split
  · exact h _ rfl
  · exact .map List.Pairwise.nil (List.forall_mem_nil _)

/-- Entries are put over well-keyed ones one by one, if each value merges well. -/
theorem WellKeyed.deepMerge_of (hbase : WellKeyed (.map base))
    (h : ∀ entry ∈ upper, ∀ old : Option Value, (∀ v ∈ old, WellKeyed v) →
      WellKeyed (mergeOver old entry.2)) : WellKeyed (.map (deepMerge base upper)) := by
  induction upper generalizing base with
  | nil =>
    rw [deepMerge]
    exact hbase
  | cons entry rest ih =>
    obtain ⟨k, u⟩ := entry
    obtain ⟨hu, hrest⟩ := List.forall_mem_cons.mp h
    rw [deepMerge]
    refine ih (hbase.putField k (hu _ fun v hv => ?_)) hrest
    obtain ⟨l, hl⟩ := mem_of_fieldUnder? hv
    exact (wellKeyed_map.mp hbase).2 (l, v) hl

/-- **A well-keyed value put over a well-keyed one is well-keyed.** -/
theorem WellKeyed.mergeOver (hv : WellKeyed v) {old : Option Value} (hold : ∀ u ∈ old, WellKeyed u) :
    WellKeyed (mergeOver old v) := by
  induction hv generalizing old with
  | leaf h =>
    rw [mergeOver_of_leaf h]
    exact .leaf h
  | map differ _ ih =>
    rw [mergeOver_map differ]
    exact (wellKeyed_entriesOf hold).deepMerge_of fun entry hin _ => ih entry hin

/-- **Putting a value over an old one a second time changes nothing.** -/
theorem mergeOver_again (hv : WellKeyed v) (old : Option Value) :
    mergeOver (some (mergeOver old v)) v = mergeOver old v := by
  induction hv generalizing old with
  | leaf h => rw [mergeOver_of_leaf h, mergeOver_of_leaf h]
  | @map fields differ inside ih =>
    rw [mergeOver_map differ, mergeOver_map differ, entriesOf]
    refine congrArg Value.map (deepMerge_of_settled fun ⟨k, u⟩ hin => ?_)
    have hmerged : fieldUnder? k (deepMerge (entriesOf old) fields) = _ :=
      fieldUnder?_deepMerge k differ
    rw [differ.fieldUnder?_eq hin] at hmerged
    exact ⟨_, hmerged, ih (k, u) hin _⟩

/-! ## 4. Paths -/

/-- The value at a path of keys. -/
def at? : Value → List Scalar → Option Value
  | v, [] => some v
  | .map fields, key :: path => (fieldUnder? key fields).bind fun v => v.at? path
  | _, _ :: _ => none

theorem at?_map_cons (fields : List (Scalar × Value)) (key : Scalar) (path : List Scalar) :
    (Value.map fields).at? (key :: path) = (fieldUnder? key fields).bind fun v => v.at? path := rfl

theorem at?_cons_of_leaf (h : v.isMap = false) (key : Scalar) (path : List Scalar) :
    v.at? (key :: path) = none := by
  cases v with
  | map fields => cases h
  | scalar | list | set => rfl

/-- **A value overrules what others have at a path**: it has something there, or something that is no map at
a proper start of the path. -/
def Overrules (v : Value) (path : List Scalar) : Prop :=
  (v.at? path).isSome ∨ ∃ start, start <+: path ∧ start ≠ path ∧
    ∃ u, v.at? start = some u ∧ u.isMap = false

theorem overrules_nil (v : Value) : v.Overrules [] := Or.inl rfl

theorem overrules_of_leaf (h : v.isMap = false) (path : List Scalar) : v.Overrules path := by
  cases path with
  | nil => exact overrules_nil v
  | cons key path => exact Or.inr ⟨[], List.nil_prefix, nofun, v, rfl, h⟩

theorem overrules_map_cons {key : Scalar} {path : List Scalar} :
    (Value.map fields).Overrules (key :: path) ↔
      ∃ u, fieldUnder? key fields = some u ∧ u.Overrules path := by
  unfold Overrules
  rw [at?_map_cons]
  constructor
  · rintro (hthere | ⟨start, hstart, hne, u, hu, hleaf⟩)
    · obtain ⟨v, hv⟩ := Option.isSome_iff_exists.mp hthere
      obtain ⟨u, hu, hpath⟩ := Option.bind_eq_some_iff.mp hv
      exact ⟨u, hu, Or.inl (Option.isSome_iff_exists.mpr ⟨v, hpath⟩)⟩
    · cases start with
      | nil =>
        cases hu
        cases hleaf
      | cons k start =>
        obtain ⟨rfl, hbelow⟩ := List.cons_prefix_cons.mp hstart
        rw [at?_map_cons] at hu
        obtain ⟨v, hv, hpath⟩ := Option.bind_eq_some_iff.mp hu
        exact ⟨v, hv, Or.inr ⟨start, hbelow, fun he => hne (he ▸ rfl), u, hpath, hleaf⟩⟩
  · rintro ⟨v, hv, hthere | ⟨start, hstart, hne, u, hu, hleaf⟩⟩
    · rw [hv]
      exact Or.inl hthere
    · refine Or.inr ⟨key :: start, List.cons_prefix_cons.mpr ⟨rfl, hstart⟩,
        fun he => hne (List.cons.inj he).2, u, ?_, hleaf⟩
      rw [at?_map_cons, hv]
      exact hu

theorem bind_at?_cons (old : Option Value) (key : Scalar) (path : List Scalar) :
    (old.bind fun v => v.at? (key :: path)) =
      (fieldUnder? key (entriesOf old)).bind fun v => v.at? path := by
  cases old with
  | none => rfl
  | some v => cases v <;> rfl

/-- **What is no map at a path of merged values is what the upper value has there, or else what the old one
has there and the upper one does not overrule.** -/
theorem at?_mergeOver (hv : WellKeyed v) (hw : w.isMap = false) (old : Option Value)
    (path : List Scalar) : (mergeOver old v).at? path = some w ↔
      v.at? path = some w ∨ (old.bind fun u => u.at? path) = some w ∧ ¬ v.Overrules path := by
  induction path generalizing v old with
  | nil =>
    rw [or_iff_left fun hold => hold.2 (overrules_nil v)]
    cases hv with
    | leaf h => rw [mergeOver_of_leaf h]
    | @map fields differ _ =>
      have hne : ∀ entries, (Value.map entries).at? [] ≠ some w := by
        rintro entries he
        cases he
        cases hw
      rw [mergeOver_map differ]
      exact iff_of_false (hne _) (hne _)
  | cons key path ih =>
    cases hv with
    | leaf h =>
      rw [mergeOver_of_leaf h, iff_comm, or_iff_left]
      exact fun hold => hold.2 (overrules_of_leaf h _)
    | @map fields differ inside =>
      rw [mergeOver_map differ, at?_map_cons, at?_map_cons, fieldUnder?_deepMerge key differ,
        overrules_map_cons, bind_at?_cons]
      cases hkey : fieldUnder? key fields with
      | none => simp
      | some u =>
        obtain ⟨k, hk⟩ := mem_of_fieldUnder? hkey
        simpa using ih (inside (k, u) hk) (fieldUnder? key (entriesOf old))

/-! ## 5. Merged maps -/

/-- **What is said of a map `upper` that is put over a map `base`.** What is no map stays where it is given
in `upper`, and where it was in `base` if `upper` does not overrule it; nothing else in the merged map is
no map. Putting `upper` over it a second time changes nothing, and no key is in it twice. -/
structure KeptApart (base upper : List (Scalar × Value)) : Prop where
  given : ∀ path v, (Value.map upper).at? path = some v → v.isMap = false →
    (Value.map (deepMerge base upper)).at? path = some v
  kept : ∀ path v, (Value.map base).at? path = some v → v.isMap = false →
    ¬ (Value.map upper).Overrules path → (Value.map (deepMerge base upper)).at? path = some v
  nothingElse : ∀ path v, (Value.map (deepMerge base upper)).at? path = some v → v.isMap = false →
    (Value.map upper).at? path = some v ∨
      (Value.map base).at? path = some v ∧ ¬ (Value.map upper).Overrules path
  again : deepMerge (deepMerge base upper) upper = deepMerge base upper
  wellKeyed : WellKeyed (.map (deepMerge base upper))

theorem mergeOver_map_map (base upper : List (Scalar × Value)) :
    mergeOver (some (.map base)) (.map upper) = .map (deepMerge base upper) := by
  rw [mergeOver]

/-- What is no map at a path of merged maps, in one place or the other. -/
theorem at?_deepMerge (hupper : WellKeyed (.map upper)) (hw : w.isMap = false) (path : List Scalar) :
    (Value.map (deepMerge base upper)).at? path = some w ↔ (Value.map upper).at? path = some w ∨
      (Value.map base).at? path = some w ∧ ¬ (Value.map upper).Overrules path := by
  rw [← mergeOver_map_map]
  exact at?_mergeOver hupper hw (some (.map base)) path

/-- **Merging maps keeps what was there and what is given apart.** -/
theorem deepMerge_keepsApart (hbase : WellKeyed (.map base)) (hupper : WellKeyed (.map upper)) :
    KeptApart base upper := by
  refine ⟨?_, ?_, ?_, ?_, ?_⟩
  · exact fun path v hgiven hv => (at?_deepMerge hupper hv path).mpr (Or.inl hgiven)
  · exact fun path v hold hv hfree => (at?_deepMerge hupper hv path).mpr (Or.inr ⟨hold, hfree⟩)
  · exact fun path v hthere hv => (at?_deepMerge hupper hv path).mp hthere
  · have hagain := mergeOver_again hupper (some (.map base))
    rw [mergeOver_map_map, mergeOver_map_map] at hagain
    exact Value.map.inj hagain
  · rw [← mergeOver_map_map]
    exact hupper.mergeOver fun v hv => Option.mem_some.mp hv ▸ hbase

/-- Settings for a section and in place of one, and a map in the place of a list. -/
def mixedSettings : List (Scalar × Value) :=
  [(.text "security", .ofFields
      [("max_command_length", .int 80), ("dangerous_commands", .ofFields [("rm", .bool true)])]),
   (.text "execution", .int 5),
   (.text "notes", .ofFields [("by", .text "hand")])]

/-- Over the standard entries, a map meets a map and a list, and a number meets a number and a map. -/
theorem mixedSettings_keptApart :
    WellKeyed (.map Config.standardEntries) ∧ WellKeyed (.map mixedSettings) ∧
      KeptApart Config.standardEntries mixedSettings :=
  have hstandard : WellKeyed (.map Config.standardEntries) := by decide
  have hmixed : WellKeyed (.map mixedSettings) := by decide
  ⟨hstandard, hmixed, deepMerge_keepsApart hstandard hmixed⟩

end Runbook.Value
