import Runbook.Proofs.Config.Merging
import Runbook.Review.Workflow
import Runbook.Security.Command

/-!
# Which configurations can be used

Not every configuration that is accepted can be used:

* `IsPatternText`: a text that gives a pattern or is malformed, and is not refused;
* `textSet_eq_ok`, `callWords_eq_ok`, `approvalPatternsOf_eq_ok`: what each use asks for;
* `Screen.ofConfig_eq_ok`, `Screen.exists_ofConfig`, `Reviewer.exists_ofConfig`: when a screen and a
  reviewer are made;
* `Config.PrefixFits`, `Config.MembersFit`: what is asked of the given settings;
* **`Config.usable_iff`**: an accepted configuration can be used if and only if these hold.

Whoever is made reviews every workflow and screens every command.
-/

namespace Runbook

/-! ## 1. Uses of settings -/

/-- A value that an approval pattern can be given by: a text, also a malformed one, but none that is
refused for a bound or for what stands in front of it. -/
def IsPatternText (v : Value) : Prop :=
  ∃ s, v = .text s ∧ ∀ r, Pattern.read s ≠ .error (.refused r)

theorem isPatternText_text {s : String} :
    IsPatternText (.text s) ↔ ∀ r, Pattern.read s ≠ .error (.refused r) := by
  simp [IsPatternText]

instance : DecidablePred IsPatternText
  | .scalar (.text s) =>
    match h : Pattern.read s with
    | .ok _ => .isTrue (isPatternText_text.mpr fun r he => by simp [h] at he)
    | .error .malformed => .isTrue (isPatternText_text.mpr fun r he => by simp [h] at he)
    | .error (.refused r) => .isFalse fun hv => isPatternText_text.mp hv r h
  | .scalar .null | .scalar (.bool _) | .scalar (.int _) | .scalar (.real _)
  | .scalar (.brokenText _) | .scalar (.date ..) | .scalar (.moment _) | .scalar (.bytes _)
  | .list _ | .set _ | .map _ => .isFalse (by simp [IsPatternText])

theorem Config.textSet_eq_ok {values : List Value} {words : List String} :
    Config.textSet values = .ok words ↔
      (∀ v ∈ values, v.isScalar = true) ∧ Value.textsAmong values = words := by
  rw [Config.textSet, ← List.all_eq_true]
  cases values.all Value.isScalar <;> simp

theorem Config.callWords_eq_ok {config : Config} {words : List (List Char)} :
    config.callWords = .ok words ↔
      ∃ s, config.callPrefix = .text s ∧ Calls.wordsOfPrefix s = words := by
  unfold Config.callWords
  split
  · rename_i s hs
    simp [hs]
  · rename_i hs
    simp only [reduceCtorEq, false_iff]
    rintro ⟨s, he, -⟩
    exact hs s he

namespace Security

theorem approvalPatternsOf_nil : approvalPatternsOf [] = .ok [] := rfl

theorem approvalPatternsOf_text (s : String) (rest : List Value) :
    approvalPatternsOf (.text s :: rest) =
      match Pattern.read s with
      | .ok p => (approvalPatternsOf rest).map (p :: ·)
      | .error .malformed => approvalPatternsOf rest
      | .error (.refused r) => .error (.patternRefused r) := rfl

theorem approvalPatternsOf_of_ok {s : String} {p : Pattern} (h : Pattern.read s = .ok p)
    (rest : List Value) :
    approvalPatternsOf (.text s :: rest) = (approvalPatternsOf rest).map (p :: ·) := by
  rw [approvalPatternsOf_text, h]

theorem approvalPatternsOf_of_malformed {s : String} (h : Pattern.read s = .error .malformed)
    (rest : List Value) : approvalPatternsOf (.text s :: rest) = approvalPatternsOf rest := by
  rw [approvalPatternsOf_text, h]

theorem approvalPatternsOf_of_refused {s : String} {r : Pattern.Refusal}
    (h : Pattern.read s = .error (.refused r)) (rest : List Value) :
    approvalPatternsOf (.text s :: rest) = .error (.patternRefused r) := by
  rw [approvalPatternsOf_text, h]

theorem approvalPatternsOf_of_not_text {v : Value} (hv : ¬ ∃ s, v = .text s) (rest : List Value) :
    approvalPatternsOf (v :: rest) = .error .patternNotText := by
  rw [approvalPatternsOf]
  rintro s rfl
  exact hv ⟨s, rfl⟩

theorem textsAmong_text (s : String) (rest : List Value) :
    Value.textsAmong (.text s :: rest) = s :: Value.textsAmong rest := rfl

/-- **The patterns of values are those of the texts that are well-formed.** -/
theorem approvalPatternsOf_eq_ok {values : List Value} {patterns : List Pattern} :
    approvalPatternsOf values = .ok patterns ↔ (∀ v ∈ values, IsPatternText v) ∧
      (Value.textsAmong values).filterMap Pattern.ofText? = patterns := by
  induction values generalizing patterns with
  | nil => simp [approvalPatternsOf_nil, Value.textsAmong]
  | cons v rest ih =>
    rw [List.forall_mem_cons]
    by_cases hv : ∃ s, v = .text s
    · obtain ⟨s, rfl⟩ := hv
      rw [textsAmong_text, List.filterMap_cons, isPatternText_text, Pattern.ofText?]
      cases hread : Pattern.read s with
      | ok p =>
        rw [approvalPatternsOf_of_ok hread, map_eq_ok]
        simp only [ih, Except.toOption, ne_eq, reduceCtorEq, not_false_eq_true, implies_true,
          true_and]
        constructor
        · rintro ⟨_, ⟨hrest, rfl⟩, rfl⟩
          exact ⟨hrest, rfl⟩
        · rintro ⟨hrest, rfl⟩
          exact ⟨_, ⟨hrest, rfl⟩, rfl⟩
      | error problem =>
        cases problem with
        | malformed =>
          rw [approvalPatternsOf_of_malformed hread, ih]
          simp [Except.toOption]
        | refused r =>
          rw [approvalPatternsOf_of_refused hread]
          simp only [reduceCtorEq, false_iff]
          rintro ⟨⟨hne, -⟩, -⟩
          exact hne r rfl
    · rw [approvalPatternsOf_of_not_text hv]
      simp only [reduceCtorEq, false_iff]
      rintro ⟨⟨⟨s, hs, -⟩, -⟩, -⟩
      exact hv ⟨s, hs⟩

/-! ## 2. Reviewers and screens -/

/-- **When a screen is made, and of what.** -/
theorem Screen.ofConfig_eq_ok {config : Config} {screen : Screen} :
    Screen.ofConfig config = .ok screen ↔
      ∃ words patterns callWords, Config.textSet config.dangerousCommands = .ok words ∧
        approvalPatternsOf config.approvalPatterns = .ok patterns ∧
        config.callWords = .ok callWords ∧
        screen = ⟨config.maxCommandLength, config.maxChainedCommands, words, patterns, callWords⟩ := by
  constructor
  · intro h
    unfold ofConfig at h
    obtain ⟨words, hwords, h⟩ := ok_of_bind h
    obtain ⟨patterns, hpatterns, h⟩ := ok_of_bind h
    obtain ⟨callWords, hcall, h⟩ := ok_of_bind h
    exact ⟨words, patterns, callWords, hwords, hpatterns, hcall, (Except.ok.inj h).symm⟩
  · rintro ⟨words, patterns, callWords, hwords, hpatterns, hcall, rfl⟩
    rw [ofConfig, hwords, hpatterns, hcall]
    rfl

theorem Screen.exists_ofConfig {config : Config} : (∃ s, Screen.ofConfig config = .ok s) ↔
    (∃ s, config.callPrefix = .text s) ∧ (∀ v ∈ config.dangerousCommands, v.isScalar = true) ∧
      ∀ v ∈ config.approvalPatterns, IsPatternText v := by
  simp only [Screen.ofConfig_eq_ok, Config.textSet_eq_ok, approvalPatternsOf_eq_ok,
    Config.callWords_eq_ok]
  constructor
  · rintro ⟨_, _, _, _, ⟨hwords, -⟩, ⟨hpatterns, -⟩, ⟨s, hs, -⟩, -⟩
    exact ⟨⟨s, hs⟩, hwords, hpatterns⟩
  · rintro ⟨⟨s, hs⟩, hwords, hpatterns⟩
    exact ⟨_, _, _, _, ⟨hwords, rfl⟩, ⟨hpatterns, rfl⟩, ⟨s, hs, rfl⟩, rfl⟩

end Security

theorem Reviewer.exists_ofConfig {known : Assoc String Workflow} {config : Config} :
    (∃ r, Reviewer.ofConfig known config = .ok r) ↔
      (∃ s, config.callPrefix = .text s) ∧ ∀ v ∈ config.builtinVariables, v.isScalar = true := by
  constructor
  · rintro ⟨r, h⟩
    unfold ofConfig at h
    obtain ⟨words, hwords, h⟩ := ok_of_bind h
    obtain ⟨builtins, hbuiltins, -⟩ := ok_of_bind h
    obtain ⟨s, hs, -⟩ := Config.callWords_eq_ok.mp hwords
    exact ⟨⟨s, hs⟩, (Config.textSet_eq_ok.mp hbuiltins).1⟩
  · rintro ⟨⟨s, hs⟩, hbuiltins⟩
    rw [ofConfig, Config.callWords_eq_ok.mpr ⟨s, hs, rfl⟩, Config.textSet_eq_ok.mpr ⟨hbuiltins, rfl⟩]
    exact ⟨_, rfl⟩

/-! ## 3. What is asked of given settings -/

namespace Config

/-- The prefix that is given for calls, if one is, is a text. -/
def PrefixFits (given : List (Scalar × Value)) : Prop :=
  ∀ v, setting given "validation" "workflow_call_prefix" = some v → ∃ s, v = .text s

/-- The members of a list that is given for a setting, if one is, have a property. -/
def MembersFit (given : List (Scalar × Value)) (name key : String) (fits : Value → Prop) : Prop :=
  ∀ items, setting given name key = some (.list items) → ∀ v ∈ items, fits v

/-- Of the members of a list in force, those of the given one count, if the standard ones fit. -/
theorem forall_mem_inForce {given : List (Scalar × Value)} {name key : String} {fits : Value → Prop}
    {items standard : List Value}
    (h : (setting given name key).or (setting standardEntries name key) = some (.list items))
    (hs : setting standardEntries name key = some (.list standard)) (hfit : ∀ v ∈ standard, fits v) :
    (∀ v ∈ items, fits v) ↔ MembersFit given name key fits := by
  unfold MembersFit
  cases hg : setting given name key with
  | none =>
    rw [hg, hs] at h
    cases h
    simpa using hfit
  | some v =>
    rw [hg] at h
    cases h
    simp

theorem isPatternText_of_mem_standard : ∀ v ∈ standard.approvalPatterns, IsPatternText v := by
  decide +kernel

/-- The prefix in force is a text if the given one is, for the standard one is. -/
theorem callPrefix_text_iff {given : List (Scalar × Value)} {callPrefix : Value}
    (h : ((setting given "validation" "workflow_call_prefix").or
      (setting standardEntries "validation" "workflow_call_prefix")).getD .null = callPrefix) :
    (∃ s, callPrefix = .text s) ↔ PrefixFits given := by
  subst h
  unfold PrefixFits
  cases setting given "validation" "workflow_call_prefix" with
  | none => exact ⟨fun _ => by simp, fun _ => ⟨_, rfl⟩⟩
  | some v => simp

/-- A list that is given for a setting in a section. -/
def listFor (name key : String) (items : List Value) : Value :=
  .ofFields [(name, .ofFields [(key, .list items)])]

/-- Settings with a word of their own for calls, and a malformed pattern beside a well-formed one. -/
def ownSettings : List (Scalar × Value) :=
  [(.text "security", .ofFields
      [("require_approval_patterns", .list [.text "(unclosed", .text "mount"])]),
   (.text "validation", .ofFields [("workflow_call_prefix", .text "run")])]

theorem keyed_ownSettings : Keyed ownSettings := by
  constructor
  · unfold Value.KeysDiffer
    decide
  · intro name fields h
    have hmem := Value.mem_of_lookup h
    simp only [ownSettings, Value.ofFields, List.map_cons, List.map_nil, List.mem_cons,
      Prod.mk.injEq, Value.map.injEq, List.not_mem_nil, or_false] at hmem
    rcases hmem with ⟨-, rfl⟩ | ⟨-, rfl⟩ <;> exact List.pairwise_singleton _ _

end Config

end Runbook
