import Runbook.Proofs.Json.Soundness
import Runbook.Sanitize.Input

/-!
# JSON that is let through

A JSON document is let through if no script content stands in its text. What that says of the document:

* `scriptContent`, `Mentions`: script content, in a string at any depth of a value;
* `json_eq_ok_iff`: which texts are let through;
* **`escaped_of_mentions`**: script content in the document is written with escapes;
* `JsonChecked`, **`json_checked`**: what is said of every text that is offered as a document.
-/

namespace Runbook.Sanitize

/-- What no document is to hold. -/
def scriptContent : List (List Char) := ["javascript:".toList, "<script".toList]

/-- **A text stands in a string of a value**: in a key or a value, at any depth. -/
def Mentions (v : Value) (f : List Char) : Prop :=
  ∃ s codes, v.Holds s ∧ s.codes? = some codes ∧ Text.codesOf f <:+: codes

theorem json_eq_ok_iff {s y : List Char} : json s = .ok y ↔ y = s ∧ s.length ≤ 10000 ∧
    (∃ v, Json.read s = .ok v) ∧ ∀ f ∈ scriptContent, ¬ f <:+: s := by
  have hcontent : (∀ f ∈ scriptContent, ¬ f <:+: s) ↔
      ¬ (Text.occursIn "javascript:".toList s || Text.occursIn "<script".toList s) = true := by
    rw [Bool.or_eq_true, Text.occursIn_iff, Text.occursIn_iff]
    simp [scriptContent]
  rw [hcontent]
  unfold json
  by_cases hlong : s.length > 10000
  · rw [if_pos hlong]
    exact iff_of_false nofun fun h => by omega
  · rw [if_neg hlong]
    cases hread : Json.read s with
    | error fault => exact iff_of_false nofun fun h => by simp at h
    | ok v =>
      dsimp only
      by_cases hscript : (Text.occursIn "javascript:".toList s ||
          Text.occursIn "<script".toList s) = true
      · rw [if_pos hscript]
        exact iff_of_false nofun fun h => h.2.2.2 hscript
      · rw [if_neg hscript, Except.ok.injEq]
        exact ⟨fun h => ⟨h.symm, Nat.not_lt.mp hlong, ⟨v, rfl⟩, hscript⟩, fun h => h.1.symm⟩

/-- **What stands in a string of a document, and not in its text, is written with an escape** between the
quotes of a string. -/
theorem escaped_of_mentions {s f : List Char} {v : Value} (hread : Json.read s = .ok v)
    (hf : ¬ f <:+: s) (h : Mentions v f) : ∃ inner m, Json.quoted inner <:+: s ∧ m <:+: inner ∧
      '\\' ∈ m ∧ Json.Spelled m (Text.codesOf f) := by
  obtain ⟨scalar, codes, hholds, hcodes, hin⟩ := h
  obtain ⟨front, body, back, htext, -, -, hwritten⟩ := Json.isDocument_of_read hread
  have hbody : body <:+: s := ⟨front, back, by rw [htext, List.append_assoc]⟩
  have hwords : ∀ entry ∈ Json.words, entry.2.codes? = none := by decide
  have htextual : scalar.codes? ≠ none := by
    rw [hcodes]
    exact Option.some_ne_none codes
  obtain ⟨inner, spelled, hquoted, hspelled, rfl⟩ := hwritten.literal hwords hholds htextual
  rw [Scalar.codes?_ofCodes hspelled.lt] at hcodes
  obtain rfl := Option.some.inj hcodes
  rcases hspelled.infix_cases hin with hplain | ⟨m, hm, hescape, hspells⟩
  · exact absurd ((hplain.trans (Json.infix_quoted inner)).trans (hquoted.trans hbody)) hf
  · exact ⟨inner, m, hquoted.trans hbody, hm, hescape, hspells⟩

/-- **What is said of a text** `s` that is offered as a document: it is let through, as it is, exactly if it
has at most 10000 characters, can be read and holds no script content. What can be read is a document for
the value that is read, and a standard one if neither `NaN` nor `Infinity` occurs in it. If it is let through,
script content stands in a string of the value only where it is written with an escape, so nowhere if there
is no escape in the text. -/
structure JsonChecked (s : List Char) : Prop where
  accepted : ∀ y, json s = .ok y ↔ y = s ∧ s.length ≤ 10000 ∧ (∃ v, Json.read s = .ok v) ∧
    ∀ f ∈ scriptContent, ¬ f <:+: s
  document : ∀ v, Json.read s = .ok v → Json.IsDocument Json.words s v
  standard : ∀ v, Json.read s = .ok v → ¬ "NaN".toList <:+: s → ¬ "Infinity".toList <:+: s →
    Json.IsDocument Json.standardWords s v
  escaped : json s = .ok s → ∀ v, Json.read s = .ok v → ∀ f ∈ scriptContent, Mentions v f →
    ∃ inner m, Json.quoted inner <:+: s ∧ m <:+: inner ∧ '\\' ∈ m ∧
      Json.Spelled m (Text.codesOf f)
  clean : json s = .ok s → '\\' ∉ s → ∀ v, Json.read s = .ok v → ∀ f ∈ scriptContent,
    ¬ Mentions v f

/-- **JSON that is let through is a document without script content, but for what is written with
escapes.** -/
theorem json_checked (s : List Char) : JsonChecked s := by
  have hescaped : json s = .ok s → ∀ v, Json.read s = .ok v → ∀ f ∈ scriptContent, Mentions v f →
      ∃ inner m, Json.quoted inner <:+: s ∧ m <:+: inner ∧ '\\' ∈ m ∧
        Json.Spelled m (Text.codesOf f) := by
    intro h v hread f hf hmentions
    obtain ⟨-, -, -, hnone⟩ := json_eq_ok_iff.mp h
    exact escaped_of_mentions hread (hnone f hf) hmentions
  refine ⟨fun y => json_eq_ok_iff, fun v => Json.isDocument_of_read, ?_, hescaped, ?_⟩
  · intro v hread hnan hinfinity
    exact (Json.isDocument_of_read hread).standard hnan hinfinity
  · intro h hplain v hread f hf hmentions
    obtain ⟨inner, m, hquoted, hm, hescape, -⟩ := hescaped h v hread f hf hmentions
    exact hplain (((hm.trans (Json.infix_quoted inner)).trans hquoted).subset hescape)

/-- A script address with one letter escaped is let through. -/
theorem escaped_address_let_through : ¬ ∀ s v, json s = .ok s → Json.read s = .ok v →
    ∀ f ∈ scriptContent, ¬ Mentions v f := by
  intro h
  have hthrough : json "[\"java\\u0073cript:\"]".toList = .ok "[\"java\\u0073cript:\"]".toList := by
    decide +kernel
  have hread : Json.read "[\"java\\u0073cript:\"]".toList = .ok (.list [.text "javascript:"]) := by
    decide +kernel
  refine h _ _ hthrough hread "javascript:".toList (by decide) ?_
  exact ⟨.text "javascript:", _, .item List.mem_cons_self .scalar, rfl, List.infix_rfl⟩

end Runbook.Sanitize
