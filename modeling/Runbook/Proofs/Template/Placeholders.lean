import Mathlib.Data.List.TakeWhile
import Runbook.Proofs.Template.Closed
import Runbook.Proofs.Text.Tidy

/-!
# Where placeholders stand

A placeholder is told by what is written, not by how a text is cut:

* `HasPlaceholder`: a name stands between double braces somewhere in a text;
* `placeholderAt_written`, `placeholderAt_eq_some`: the reader at the start of a placeholder;
* **`mem_tokens_placeholders_iff`**: the placeholders that a text is cut at are those that stand in it.
-/

namespace Runbook.Template

/-- A placeholder as it is written. -/
def placeholder (left name right : List Char) : List Char :=
  '\x7b' :: '\x7b' :: (left ++ (name ++ (right ++ ['\x7d', '\x7d'])))

/-- **A placeholder stands in a text**: a name between double braces, with or without blanks around
it. -/
inductive HasPlaceholder (text : List Char) : List Char → Prop
  | written {left name right : List Char} (hne : name ≠ [])
      (hname : ∀ d ∈ name, Text.isWordChar d = true) (hleft : ∀ d ∈ left, Text.isBlank d = true)
      (hright : ∀ d ∈ right, Text.isBlank d = true)
      (h : placeholder left name right <:+: text) : HasPlaceholder text name

/-- What stands at the start of a text is read. -/
theorem placeholderAt_written {left name right : List Char} (hne : name ≠ [])
    (hname : ∀ d ∈ name, Text.isWordChar d = true) (hleft : ∀ d ∈ left, Text.isBlank d = true)
    (hright : ∀ d ∈ right, Text.isBlank d = true) (after : List Char) :
    placeholderAt '\x7b' ('\x7b' :: (left ++ (name ++ (right ++ '\x7d' :: '\x7d' :: after)))) =
      some (String.ofList name, left.length + name.length + right.length + 3) := by
  obtain ⟨first, more, rfl⟩ := List.exists_cons_of_ne_nil hne
  have hfirst : ∀ d ∈ (first :: more ++ (right ++ '\x7d' :: '\x7d' :: after)).head?,
      Text.isBlank d = false := by
    rintro d ⟨⟩
    exact Text.isBlank_of_isWordChar (hname first List.mem_cons_self)
  have hclosed : ∀ d ∈ ('\x7d' :: '\x7d' :: after).head?,
      Text.isBlank d = false ∧ Text.isWordChar d = false := by
    rintro d ⟨⟩
    decide
  have hend : ∀ d ∈ (right ++ '\x7d' :: '\x7d' :: after).head?, Text.isWordChar d = false := by
    cases right with
    | nil => exact fun d hd => (hclosed d hd).2
    | cons blank right =>
      rintro d ⟨⟩
      exact Text.isWordChar_of_isBlank (hright blank List.mem_cons_self)
  have hinner := (Text.takeWhile_stop hleft hfirst).2
  obtain ⟨htake, hdrop⟩ := Text.takeWhile_stop hname hend
  have htail := (Text.takeWhile_stop hright fun d hd => (hclosed d hd).1).2
  unfold placeholderAt
  simp only [hinner, htake, hdrop, htail]
  simp only [List.length_cons, List.length_append]
  congr 2
  omega

/-- What is read stands at the start of the text. -/
theorem placeholderAt_eq_some {c : Char} {rest : List Char} {name : String} {n : Nat}
    (h : placeholderAt c rest = some (name, n)) : ∃ left right after,
      c :: rest = placeholder left name.toList right ++ after ∧ name.toList ≠ [] ∧
      (∀ d ∈ name.toList, Text.isWordChar d = true) ∧ (∀ d ∈ left, Text.isBlank d = true) ∧
      (∀ d ∈ right, Text.isBlank d = true) ∧
      n = left.length + name.toList.length + right.length + 3 := by
  unfold placeholderAt at h
  split at h
  · rename_i body
    dsimp only at h
    split at h
    · cases h
    · rename_i first more after hname htail
      cases h
      have hbody := List.takeWhile_append_dropWhile (p := Text.isBlank) (l := body)
      have hinner := List.takeWhile_append_dropWhile (p := Text.isWordChar)
        (l := body.dropWhile Text.isBlank)
      have hright := List.takeWhile_append_dropWhile (p := Text.isBlank)
        (l := (body.dropWhile Text.isBlank).dropWhile Text.isWordChar)
      rw [htail] at hright
      refine ⟨body.takeWhile Text.isBlank,
        ((body.dropWhile Text.isBlank).dropWhile Text.isWordChar).takeWhile Text.isBlank, after, ?_,
        ?_, ?_, fun d hd => List.mem_takeWhile_imp hd, fun d hd => List.mem_takeWhile_imp hd, ?_⟩
      · rw [String.toList_ofList, placeholder]
        simp only [List.cons_append, List.append_assoc, List.nil_append]
        rw [hright, hinner, hbody]
      · rw [String.toList_ofList, hname]
        exact List.cons_ne_nil first more
      · rw [String.toList_ofList]
        exact fun d hd => List.mem_takeWhile_imp hd
      · rw [String.toList_ofList]
        have hlength := congrArg List.length hbody
        rw [← hinner, ← hright] at hlength
        simp only [List.length_append, List.length_cons] at hlength ⊢
        omega
    · cases h
  · cases h

/-- No placeholder starts inside of another one. -/
theorem unhidden_placeholderAt : Text.Unhidden placeholderAt := by
  intro c front d more value n h hlt
  obtain ⟨left, right, after, htext, hne, hname, hleft, hright, rfl⟩ := placeholderAt_eq_some h
  have hinside : ∀ e ∈ left ++ (value.toList ++ (right ++ ['\x7d', '\x7d'])), e ≠ '\x7b' := by
    intro e he
    simp only [List.mem_append, List.mem_cons, List.not_mem_nil, or_false] at he
    rintro rfl
    rcases he with he | he | he | he | he
    · exact absurd (hleft _ he) (by decide)
    · exact absurd (hname _ he) (by decide)
    · exact absurd (hright _ he) (by decide)
    · cases he
    · cases he
  rw [placeholder, List.cons_append, List.cons_append] at htext
  have hrest := (List.cons.inj htext).2
  generalize hinner : left ++ (value.toList ++ (right ++ ['\x7d', '\x7d'])) = inner at hinside hrest
  have hlength : inner.length = left.length + value.toList.length + right.length + 2 := by
    simp only [← hinner, List.length_append, List.length_cons, List.length_nil]
    omega
  cases front with
  | nil =>
    -- one brace further on, the name or a blank follows and no second brace
    obtain ⟨rfl, rfl⟩ := List.cons.inj hrest
    cases inner with
    | nil => simp at hlength
    | cons e inner =>
      have he := hinside e List.mem_cons_self
      unfold placeholderAt
      split
      · rename_i heq
        exact absurd (List.cons.inj heq).1 he
      · rfl
  | cons brace front =>
    refine placeholderAt_of_ne (hinside d ?_) more
    have hmore := (List.cons.inj hrest).2
    rcases List.append_eq_append_iff.mp hmore with ⟨between, hinner', hback⟩ | ⟨between, hfront, -⟩
    · cases between with
      | nil =>
        rw [List.append_nil] at hinner'
        rw [List.length_cons, ← hinner', hlength] at hlt
        omega
      | cons e between =>
        obtain ⟨rfl, -⟩ := List.cons.inj hback
        simp [hinner']
    · rw [List.length_cons, hfront, List.length_append, hlength] at hlt
      omega

/-- **The placeholders that a text is cut at are those that stand in it.** -/
theorem mem_tokens_placeholders_iff {text name : String} :
    name ∈ Text.tokens (placeholders text) ↔ HasPlaceholder text.toList name.toList := by
  unfold placeholders
  rw [Text.mem_tokens_iff unhidden_placeholderAt]
  constructor
  · rintro ⟨c, rest, n, hs, hr⟩
    obtain ⟨left, right, after, htext, hne, hname, hleft, hright, -⟩ := placeholderAt_eq_some hr
    rw [htext] at hs
    exact .written hne hname hleft hright ((List.prefix_append _ after).isInfix.trans hs.isInfix)
  · intro h
    generalize hchars : name.toList = chars at h
    obtain ⟨hne, hname, hleft, hright, front, back, htext⟩ := h
    subst hchars
    have hread := placeholderAt_written hne hname hleft hright back
    rw [String.ofList_toList] at hread
    refine ⟨_, _, _, ⟨front, ?_⟩, hread⟩
    rw [← htext, placeholder]
    simp

end Runbook.Template
