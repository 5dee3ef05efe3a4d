import Runbook.Config
import Runbook.Proofs.Entries
import Runbook.Proofs.Fallible

/-!
# Settings in force

Given entries are put over standard ones, map by map:

* `Value.fieldUnder?_putField`, **`Value.fieldUnder?_deepMerge`**: what a key of merged entries has;
  `Value.lookup_deepMerge`: the same of a text key;
* `Config.setting`: a setting in a section of entries;
* **`Config.setting_deepMerge`**: a setting in force is the given one, or else the standard one;
* `Config.Accepted`, `Config.accepted_of_ofValue`: the settings of a configuration, read off its
  entries;
* **`Config.setting_of_ofValue`**: they are the given ones, or else the standard ones.
-/

namespace Runbook

namespace Value

/-! ## 1. Keys of merged entries -/

section Lookup

variable {α : Type}

theorem lookup_cons (name : String) (k : Scalar) (v : α) (rest : List (Scalar × α)) :
    lookup name ((k, v) :: rest) = if k = .text name then some v else lookup name rest := by
  cases k <;> simp [lookup]

theorem mem_of_lookup {name : String} {v : α} {fields : List (Scalar × α)}
    (h : lookup name fields = some v) : (.text name, v) ∈ fields := by
  induction fields with
  | nil => cases h
  | cons entry rest ih =>
    obtain ⟨k, u⟩ := entry
    rw [lookup_cons] at h
    split at h
    · rename_i hk
      cases h
      exact hk ▸ List.mem_cons_self
    · exact List.mem_cons_of_mem _ (ih h)

end Lookup

theorem fieldUnder?_text (name : String) (fields : List (Scalar × Value)) :
    fieldUnder? (.text name) fields = lookup name fields := by
  induction fields with
  | nil => rfl
  | cons entry rest ih =>
    obtain ⟨k, v⟩ := entry
    rw [fieldUnder?, lookup_cons, ih]
    simp only [sameKey_text]

/-- What is one key has one value. -/
theorem fieldUnder?_congr {k key : Scalar} (h : sameKey k key = true)
    (fields : List (Scalar × Value)) : fieldUnder? k fields = fieldUnder? key fields := by
  induction fields with
  | nil => rfl
  | cons entry rest ih =>
    obtain ⟨l, v⟩ := entry
    rw [fieldUnder?, fieldUnder?, ih, sameKey_comm l k, sameKey_comm l key, sameKey_congr h]

theorem fieldUnder?_eq_none {key : Scalar} {fields : List (Scalar × Value)}
    (h : ∀ entry ∈ fields, sameKey key entry.1 = false) : fieldUnder? key fields = none := by
  induction fields with
  | nil => rfl
  | cons entry rest ih =>
    obtain ⟨hk, hrest⟩ := List.forall_mem_cons.mp h
    rw [fieldUnder?, sameKey_comm, hk, ih hrest]
    rfl

theorem mem_of_fieldUnder? {key : Scalar} {v : Value} {fields : List (Scalar × Value)}
    (h : fieldUnder? key fields = some v) : ∃ k, (k, v) ∈ fields := by
  induction fields with
  | nil => cases h
  | cons entry rest ih =>
    obtain ⟨k, u⟩ := entry
    rw [fieldUnder?] at h
    split at h
    · cases h
      exact ⟨k, List.mem_cons_self⟩
    · obtain ⟨l, hl⟩ := ih h
      exact ⟨l, List.mem_cons_of_mem _ hl⟩

/-- An entry is the one under its key. -/
theorem KeysDiffer.fieldUnder?_eq {fields : List (Scalar × Value)} (h : KeysDiffer fields)
    {k : Scalar} {v : Value} (hv : (k, v) ∈ fields) : fieldUnder? k fields = some v := by
  induction fields with
  | nil => cases hv
  | cons entry rest ih =>
    obtain ⟨l, u⟩ := entry
    obtain ⟨hl, hrest⟩ := List.pairwise_cons.mp h
    rw [fieldUnder?]
    rcases List.mem_cons.mp hv with heq | hin
    · obtain ⟨rfl, rfl⟩ := Prod.mk.inj heq
      rw [if_pos (sameKey_self k)]
    · rw [if_neg (ne_true_of_eq_false (hl _ hin)), ih hrest hin]

theorem fieldUnder?_putField (key k : Scalar) (v : Value) (fields : List (Scalar × Value)) :
    fieldUnder? key (putField k v fields) =
      if sameKey k key then some v else fieldUnder? key fields := by
  induction fields with
  | nil => rfl
  | cons entry rest ih =>
    obtain ⟨l, u⟩ := entry
    rw [putField]
    by_cases hl : sameKey l k = true
    · rw [if_pos hl, fieldUnder?, fieldUnder?, sameKey_congr hl]
      split <;> rfl
    · rw [if_neg hl, fieldUnder?, fieldUnder?, ih]
      by_cases hk : sameKey k key = true
      · have hne : ¬ sameKey l key = true := fun h =>
          hl (sameKey_comm k l ▸ sameKey_congr hk l ▸ sameKey_comm l key ▸ h)
        rw [if_pos hk, if_pos hk, if_neg hne]
      · rw [if_neg hk, if_neg hk]

/-- What is put over no map takes its place. -/
theorem mergeOver_of_not_map {old : Option Value} (h : ∀ v ∈ old, v.isMap = false) (v : Value) :
    mergeOver old v = v := by
  cases v with
  | map upper =>
    cases old with
    | none => simp [mergeOver]
    | some base =>
      cases base with
      | map fields => cases h _ rfl
      | scalar | list | set => simp [mergeOver]
  | scalar | list | set => simp [mergeOver]

theorem mergeOver_none (v : Value) : mergeOver none v = v :=
  mergeOver_of_not_map (by simp) v

/-- What is no map takes the place of an old value. -/
theorem mergeOver_of_leaf {v : Value} (h : v.isMap = false) (old : Option Value) :
    mergeOver old v = v := by
  cases v with
  | map fields => cases h
  | scalar | list | set => simp [mergeOver]

theorem isMap_mergeOver (old : Option Value) (v : Value) : (mergeOver old v).isMap = v.isMap := by
  cases v with
  | map upper =>
    cases old with
    | none => simp [mergeOver, isMap]
    | some base => cases base <;> simp [mergeOver, isMap]
  | scalar | list | set => simp [mergeOver]

/-- **Under a key, merged entries have what is given there, put over what was there before, or else the
latter alone.** -/
theorem fieldUnder?_deepMerge (key : Scalar) {base upper : List (Scalar × Value)}
    (h : KeysDiffer upper) : fieldUnder? key (deepMerge base upper) =
      match fieldUnder? key upper with
      | none => fieldUnder? key base
      | some v => some (mergeOver (fieldUnder? key base) v) := by
  induction upper generalizing base with
  | nil => rw [deepMerge, fieldUnder?]
  | cons entry rest ih =>
    obtain ⟨k, v⟩ := entry
    obtain ⟨hk, hrest⟩ := List.pairwise_cons.mp h
    rw [deepMerge, ih hrest, fieldUnder?_putField, fieldUnder?]
    by_cases hkey : sameKey k key = true
    · rw [← fieldUnder?_congr hkey rest, fieldUnder?_eq_none hk, if_pos hkey, if_pos hkey,
        fieldUnder?_congr hkey]
    · rw [if_neg hkey, if_neg hkey]

theorem lookup_deepMerge (name : String) {base upper : List (Scalar × Value)}
    (h : KeysDiffer upper) : lookup name (deepMerge base upper) =
      match lookup name upper with
      | none => lookup name base
      | some v => some (mergeOver (lookup name base) v) := by
  simp only [← fieldUnder?_text]
  exact fieldUnder?_deepMerge (.text name) h

end Value

namespace Config

/-! ## 2. Settings -/

open Value

/-- The value of a setting in a section of entries. -/
def setting (entries : List (Scalar × Value)) (name key : String) : Option Value :=
  (lookup name entries).bind fun v => v.field? key

/-- Entries that are a map of sections: no key is there twice, in them or in one of their sections. -/
structure Keyed (entries : List (Scalar × Value)) : Prop where
  differ : KeysDiffer entries
  inside : ∀ name fields, lookup name entries = some (.map fields) → KeysDiffer fields

/-- **A setting in force is the given one, or else the standard one**, if both are in sections and the
standard one is not a map. -/
theorem setting_deepMerge {base given : List (Scalar × Value)} (hg : Keyed given)
    {name key : String} (hb : ∃ fields, lookup name base = some (.map fields))
    (hs : ∀ v, lookup name given = some v → v.isMap = true)
    (hv : ∀ v ∈ setting base name key, v.isMap = false) :
    setting (deepMerge base given) name key =
      (setting given name key).or (setting base name key) := by
  obtain ⟨old, hold⟩ := hb
  unfold setting at hv ⊢
  rw [lookup_deepMerge name hg.differ]
  cases hgiven : lookup name given with
  | none => simp
  | some v =>
    cases v with
    | scalar | list | set => cases hs _ hgiven
    | map fields =>
      rw [hold] at hv ⊢
      simp only [Option.bind_some, field?] at hv ⊢
      rw [mergeOver]
      simp only [lookup_deepMerge key (hg.inside name fields hgiven)]
      cases lookup key fields with
      | none => simp
      | some u => simp [mergeOver_of_not_map hv]

/-! ## 3. The settings of a configuration -/

/-- **What a configuration has from the entries that it is made of.** -/
structure Accepted (entries : List (Scalar × Value)) (config : Config) : Prop where
  /-- What stands in the place of a section is a map. -/
  sections : ∀ name ∈ ["security", "execution", "validation"], ∀ v,
    lookup name entries = some v → v.isMap = true
  approvalPatterns : setting entries "security" "require_approval_patterns" =
    some (.list config.approvalPatterns)
  dangerousCommands : setting entries "security" "dangerous_commands" =
    some (.list config.dangerousCommands)
  builtinVariables : setting entries "validation" "builtin_variables" =
    some (.list config.builtinVariables)
  callPrefix : (setting entries "validation" "workflow_call_prefix").getD .null = config.callPrefix

theorem readSection_eq_ok {entries fields : List (Scalar × Value)} {name : String}
    (h : readSection entries name = .ok fields) :
    (∀ v, lookup name entries = some v → v.isMap = true) ∧
      ∀ key, setting entries name key = lookup key fields := by
  unfold readSection at h
  unfold setting
  split at h
  · rename_i hnone
    cases h
    simp [hnone, lookup]
  · rename_i hsome
    cases h
    simp [hsome, field?, isMap]
  · cases h

theorem readList_eq_ok {name key : String} {fields : List (Scalar × Value)} {items : List Value}
    (h : readList name fields key = .ok items) : lookup key fields = some (.list items) := by
  unfold readList at h
  split at h
  · cases h
    assumption
  · cases h

/-- A configuration is made of sections that are maps and has its settings from them. -/
theorem accepted_of_ofEntries {entries : List (Scalar × Value)} {config : Config}
    (h : ofEntries entries = .ok config) : Accepted entries config := by
  unfold ofEntries at h
  obtain ⟨security, hsecurity, h⟩ := ok_of_bind h
  obtain ⟨execution, hexecution, h⟩ := ok_of_bind h
  obtain ⟨validation, hvalidation, h⟩ := ok_of_bind h
  obtain ⟨cap, -, h⟩ := ok_of_bind h
  obtain ⟨maxLength, -, h⟩ := ok_of_bind h
  obtain ⟨maxChained, -, h⟩ := ok_of_bind h
  obtain ⟨patterns, hpatterns, h⟩ := ok_of_bind h
  obtain ⟨dangerous, hdangerous, h⟩ := ok_of_bind h
  obtain ⟨builtins, hbuiltins, h⟩ := ok_of_bind h
  cases h
  obtain ⟨hmap, hset⟩ := readSection_eq_ok hsecurity
  obtain ⟨hmap', -⟩ := readSection_eq_ok hexecution
  obtain ⟨hmap'', hset''⟩ := readSection_eq_ok hvalidation
  constructor
  · intro name hname
    simp only [List.mem_cons, List.not_mem_nil, or_false] at hname
    rcases hname with rfl | rfl | rfl
    · exact hmap
    · exact hmap'
    · exact hmap''
  · rw [hset, readList_eq_ok hpatterns]
  · rw [hset, readList_eq_ok hdangerous]
  · rw [hset'', readList_eq_ok hbuiltins]
  · rw [hset'']

/-- What is given for a section is a map if the merged entries are accepted. -/
theorem Accepted.isMap_given {base given : List (Scalar × Value)} {config : Config}
    (h : Accepted (deepMerge base given) config) (hg : KeysDiffer given) {name : String}
    (hname : name ∈ ["security", "execution", "validation"]) {v : Value}
    (hv : lookup name given = some v) : v.isMap = true := by
  have hmerged : lookup name (deepMerge base given) = _ := lookup_deepMerge name hg
  rw [hv] at hmerged
  rw [← isMap_mergeOver (lookup name base) v]
  exact h.sections name hname _ hmerged

theorem accepted_of_ofValue {given : List (Scalar × Value)} {config : Config}
    (h : ofValue (.map given) = .ok config) : Accepted (deepMerge standardEntries given) config := by
  refine accepted_of_ofEntries ?_
  cases given with
  | nil =>
    rw [deepMerge]
    exact h
  | cons entry rest => exact h

/-- The standard settings are no maps. -/
theorem isMap_of_mem_standard {name key : String} (hname : name ∈ ["security", "validation"]) :
    ∀ v ∈ setting standardEntries name key, v.isMap = false := by
  intro v hv
  have inSection : ∀ fields : List (Scalar × Value), setting standardEntries name key =
      lookup key fields → (∀ entry ∈ fields, entry.2.isMap = false) → v.isMap = false :=
    fun fields hset hfields => hfields _ (mem_of_lookup (hset ▸ hv))
  simp only [List.mem_cons, List.not_mem_nil, or_false] at hname
  rcases hname with rfl | rfl
  · exact inSection _ rfl (by decide)
  · exact inSection _ rfl (by decide)

/-- A setting of a configuration is the given one, or else the standard one. -/
theorem setting_of_ofValue {given : List (Scalar × Value)} {config : Config} (hg : Keyed given)
    (h : ofValue (.map given) = .ok config) {name key : String}
    (hname : name ∈ ["security", "validation"]) :
    setting (deepMerge standardEntries given) name key =
      (setting given name key).or (setting standardEntries name key) := by
  refine setting_deepMerge hg ?_ (fun v hs => ?_) (isMap_of_mem_standard hname)
  · simp only [List.mem_cons, List.not_mem_nil, or_false] at hname
    rcases hname with rfl | rfl <;> exact ⟨_, rfl⟩
  · refine (accepted_of_ofValue h).isMap_given hg.differ ?_ hs
    simp only [List.mem_cons, List.not_mem_nil, or_false] at hname ⊢
    exact hname.imp id Or.inr

end Config

end Runbook
