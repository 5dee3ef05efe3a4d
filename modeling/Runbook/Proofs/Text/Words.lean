import Mathlib.Data.List.TakeWhile
import Runbook.Proofs.Text.Pieces

/-!
# The first word of a text

A text is cut into words from left to right. Where its first word stands can be said of the text alone:

* `FirstWord`: a word behind blanks, up to the next blank or the end of the text;
* **`head?_wordsOf_eq_some_iff`**: the first of the words of a text is its first word;
* `FirstWord.append`, `firstWord_joined`: what becomes of the first word where the text goes on. It is
  the same one if a blank follows it; else what is written behind it is a part of it.
-/

namespace Runbook.Text

/-- A text without blanks that is not empty. -/
structure IsWord (w : List Char) : Prop where
  nonempty : w ≠ []
  unbroken : ∀ c ∈ w, isBlank c = false

/-- The first word of a text stands behind nothing but blanks, and ends at a blank or with the text. -/
def FirstWord (w s : List Char) : Prop :=
  IsWord w ∧ ∃ blanks rest, (∀ c ∈ blanks, isBlank c = true) ∧
    (∀ c ∈ rest.head?, isBlank c = true) ∧ s = blanks ++ (w ++ rest)

/-- A word that nothing stands behind, not even a blank. -/
def LoneWord (w s : List Char) : Prop :=
  IsWord w ∧ ∃ blanks, (∀ c ∈ blanks, isBlank c = true) ∧ s = blanks ++ w

/-! ## 1. Cutting -/

theorem wordsOf_blanks {blanks : List Char} (h : ∀ c ∈ blanks, isBlank c = true) (s : List Char) :
    wordsOf (blanks ++ s) = wordsOf s := by
  induction blanks with
  | nil => rfl
  | cons c blanks ih =>
    obtain ⟨hc, hblanks⟩ := List.forall_mem_cons.mp h
    rw [List.cons_append]
    unfold wordsOf at ih ⊢
    simp only [wordsFrom, hc, if_true, List.isEmpty_nil, ih hblanks]

/-- A word under way goes on up to the next blank. -/
theorem head?_wordsFrom {current : List Char} (h : current ≠ []) (s : List Char) :
    (wordsFrom current s).head? = some (current.reverse ++ s.takeWhile (!isBlank ·)) := by
  induction s generalizing current with
  | nil => simp [wordsFrom, h]
  | cons c s ih =>
    by_cases hc : isBlank c = true
    · simp [wordsFrom, h, hc]
    · rw [Bool.not_eq_true] at hc
      rw [wordsFrom, if_neg (by simp [hc]), ih (List.cons_ne_nil c current)]
      simp [hc]

theorem IsWord.head?_wordsOf {w : List Char} (hw : IsWord w) {rest : List Char}
    (hrest : ∀ c ∈ rest.head?, isBlank c = true) : (wordsOf (w ++ rest)).head? = some w := by
  obtain ⟨hne, hword⟩ := hw
  cases w with
  | nil => exact absurd rfl hne
  | cons c w =>
    obtain ⟨hc, hw⟩ := List.forall_mem_cons.mp hword
    have hstop : (w ++ rest).takeWhile (!isBlank ·) = w := by
      refine (takeWhile_stop (fun d hd => ?_) fun d hd => ?_).1
      · rw [hw d hd, Bool.not_false]
      · rw [hrest d hd, Bool.not_true]
    unfold wordsOf
    rw [List.cons_append, wordsFrom, if_neg (by simp [hc]), head?_wordsFrom (List.cons_ne_nil c []),
      hstop]
    rfl

/-- **The first of the words of a text is its first word.** -/
theorem head?_wordsOf_eq_some_iff {w s : List Char} :
    (wordsOf s).head? = some w ↔ FirstWord w s := by
  constructor
  · intro h
    have hblanks : ∀ c ∈ s.takeWhile isBlank, isBlank c = true := fun c => List.mem_takeWhile_imp
    have hcut : s = s.takeWhile isBlank ++ s.dropWhile isBlank := List.takeWhile_append_dropWhile.symm
    have hfront := dropWhile_stop isBlank s
    rw [hcut, wordsOf_blanks hblanks] at h
    generalize s.dropWhile isBlank = t at h hcut hfront
    cases t with
    | nil => cases h
    | cons c t =>
      have hc : isBlank c = false := hfront c rfl
      have hword : (wordsOf (c :: t)).head? = some (c :: t.takeWhile (!isBlank ·)) := by
        unfold wordsOf
        rw [wordsFrom, if_neg (by simp [hc]), head?_wordsFrom (List.cons_ne_nil c [])]
        rfl
      obtain rfl : c :: t.takeWhile (!isBlank ·) = w := Option.some.inj (hword.symm.trans h)
      refine ⟨⟨List.cons_ne_nil _ _, List.forall_mem_cons.mpr ⟨hc, fun d hd => ?_⟩⟩,
        s.takeWhile isBlank, t.dropWhile (!isBlank ·), hblanks, fun d hd => ?_, ?_⟩
      · simpa using List.mem_takeWhile_imp hd
      · simpa using dropWhile_stop (!isBlank ·) t d hd
      · rw [List.cons_append, List.takeWhile_append_dropWhile]
        exact hcut
  · rintro ⟨hw, blanks, rest, hblanks, hrest, rfl⟩
    rw [wordsOf_blanks hblanks, hw.head?_wordsOf hrest]

theorem FirstWord.unique {v w s : List Char} (hv : FirstWord v s) (hw : FirstWord w s) : v = w :=
  Option.some.inj ((head?_wordsOf_eq_some_iff.mpr hv).symm.trans (head?_wordsOf_eq_some_iff.mpr hw))

/-! ## 2. Texts that go on -/

/-- **The first word stays where the text goes on**, unless the text is nothing else and ends with it. -/
theorem FirstWord.append {w s : List Char} (h : FirstWord w s) (more : List Char) :
    FirstWord w (s ++ more) ∨ LoneWord w s := by
  obtain ⟨hw, blanks, rest, hblanks, hrest, rfl⟩ := h
  cases rest with
  | nil => exact .inr ⟨hw, blanks, hblanks, by rw [List.append_nil]⟩
  | cons c rest =>
    refine .inl ⟨hw, blanks, c :: rest ++ more, hblanks, hrest, ?_⟩
    simp only [List.append_assoc]

/-- What is written right behind a lone word is a part of it. -/
theorem LoneWord.joined {w s : List Char} (h : LoneWord w s) {v rest : List Char}
    (hv : ∀ c ∈ v, isBlank c = false) (hrest : ∀ c ∈ rest.head?, isBlank c = true) :
    FirstWord (w ++ v) (s ++ (v ++ rest)) := by
  obtain ⟨⟨hne, hw⟩, blanks, hblanks, rfl⟩ := h
  refine ⟨⟨by simp [hne], fun c hc => ?_⟩, blanks, rest, hblanks, hrest, by simp⟩
  rcases List.mem_append.mp hc with hc | hc
  · exact hw c hc
  · exact hv c hc

end Runbook.Text
