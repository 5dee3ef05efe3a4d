import Runbook.Proofs.Text.Tidy

/-!
# Texts that are cut out of others

A text is cut out of another one where no name goes on behind it. Then a name at its end is a name in the
other text as well:

* `CutFrom`: a text stands in another, and no character of a name follows it;
* `CutFrom.trans`, `CutFrom.of_suffix`, `CutFrom.before`: ways to cut; `CutFrom.extend`: the other text at
  the place of an end;
* `cutFrom_trim`, `cutFrom_of_dropEnd?`: what is left without blanks or without an end;
* **`cutFrom_of_mem_linesOf`**: the lines of a text.
-/

namespace Runbook.Text

/-- **A text is cut out of another one**: it stands there, and what follows does not go on with a name. -/
def CutFrom (s t : List Char) : Prop :=
  ∃ front back, t = front ++ (s ++ back) ∧ ∀ d ∈ back.head?, isWordChar d = false

namespace CutFrom

variable {s t u : List Char}

theorem refl (s : List Char) : CutFrom s s := ⟨[], [], by simp, nofun⟩

theorem of_suffix (h : s <:+ t) : CutFrom s t := by
  obtain ⟨front, rfl⟩ := h
  exact ⟨front, [], by simp, nofun⟩

/-- What stands in front of something that goes on with no name. -/
theorem before (s : List Char) {back : List Char} (h : ∀ d ∈ back.head?, isWordChar d = false) :
    CutFrom s (s ++ back) := ⟨[], back, rfl, h⟩

theorem trans (h : CutFrom s t) (h' : CutFrom t u) : CutFrom s u := by
  obtain ⟨front, back, rfl, hb⟩ := h
  obtain ⟨front', back', rfl, hb'⟩ := h'
  refine ⟨front' ++ front, back ++ back', by simp, ?_⟩
  cases back with
  | nil => exact hb'
  | cons d back => exact hb

/-- What ends a text may be followed by more in the text that it is cut out of, but by no more of a
name. -/
theorem extend {w after : List Char} (h : CutFrom s t) (hs : w ++ after <:+ s)
    (hafter : ∀ d ∈ after.head?, isWordChar d = false) :
    ∃ more, w ++ more <:+ t ∧ ∀ d ∈ more.head?, isWordChar d = false := by
  obtain ⟨front, back, rfl, hback⟩ := h
  obtain ⟨before, rfl⟩ := hs
  refine ⟨after ++ back, ⟨front ++ before, by simp⟩, ?_⟩
  cases after with
  | nil => exact hback
  | cons d after => exact hafter

end CutFrom

/-! ## 1. Ends -/

theorem exists_trimRight (s : List Char) : ∃ blanks, (∀ d ∈ blanks, isBlank d = true) ∧
    s = trimRight s ++ blanks := by
  induction s with
  | nil => exact ⟨[], List.forall_mem_nil _, rfl⟩
  | cons c rest ih =>
    obtain ⟨blanks, hblanks, hrest⟩ := ih
    unfold trimRight
    cases hr : trimRight rest with
    | nil =>
      rw [hr, List.nil_append] at hrest
      dsimp only
      split
      · rename_i hc
        exact ⟨c :: rest, List.forall_mem_cons.mpr ⟨hc, hrest ▸ hblanks⟩, rfl⟩
      · exact ⟨rest, hrest ▸ hblanks, rfl⟩
    | cons d kept =>
      rw [hr] at hrest
      refine ⟨blanks, hblanks, ?_⟩
      rw [List.cons_append, ← hrest]

theorem cutFrom_trimRight (s : List Char) : CutFrom (trimRight s) s := by
  obtain ⟨blanks, hblanks, hs⟩ := exists_trimRight s
  have h : CutFrom (trimRight s) (trimRight s ++ blanks) := .before _ fun d hd =>
    isWordChar_of_isBlank (hblanks d (List.mem_of_mem_head? hd))
  rwa [← hs] at h

theorem cutFrom_trim (s : List Char) : CutFrom (trim s) s :=
  (cutFrom_trimRight _).trans (.of_suffix (List.dropWhile_suffix isBlank))

/-- What is left without an end that goes on with no name. -/
theorem cutFrom_of_dropEnd? {ending s r : List Char} (h : dropEnd? ending s = some r)
    (he : ∀ d ∈ ending.head?, isWordChar d = false) : CutFrom r s := by
  rw [dropEnd?_eq_some_iff.mp h]
  exact .before r he

theorem suffix_of_dropStart? {start s r : List Char} (h : dropStart? start s = some r) : r <:+ s :=
  ⟨start, (dropStart?_eq_some_iff.mp h).symm⟩

theorem suffix_of_skipBlanks? {s r : List Char} (h : skipBlanks? s = some r) : r <:+ s := by
  unfold skipBlanks? at h
  split at h
  · cases h
  · rename_i c rest
    split at h
    · cases h
      exact (List.dropWhile_suffix isBlank).trans (List.suffix_cons c rest)
    · cases h

/-! ## 2. Lines -/

theorem isWordChar_of_isLineEnd {c : Char} (h : isLineEnd c = true) : isWordChar c = false :=
  isWordChar_of_isBlank (isBlank_of_isLineEnd h)

theorem cutFrom_of_mem_linesFrom {current s line : List Char} (h : line ∈ linesFrom current s) :
    CutFrom line (current.reverse ++ s) := by
  have ended : ∀ {t : List Char} {c : Char} {rest : List Char}, isLineEnd c = true →
      CutFrom t (t ++ c :: rest) := fun hc =>
    .before _ fun d hd => Option.some.inj hd ▸ isWordChar_of_isLineEnd hc
  fun_induction linesFrom current s with
  | case1 => cases h
  | case2 current hne =>
    rw [List.mem_singleton.mp h, List.append_nil]
    exact .refl _
  | case3 current rest ih =>
    rcases List.mem_cons.mp h with rfl | h
    · exact ended (by decide)
    · exact (ih h).trans (.of_suffix ⟨current.reverse ++ ['\r', '\n'], by simp⟩)
  | case4 current c rest _ hend ih =>
    rcases List.mem_cons.mp h with rfl | h
    · exact ended hend
    · exact (ih h).trans (.of_suffix ⟨current.reverse ++ [c], by simp⟩)
  | case5 current c rest _ hend ih => simpa using ih h

/-- **The lines of a text are cut out of it.** -/
theorem cutFrom_of_mem_linesOf {s line : List Char} (h : line ∈ linesOf s) : CutFrom line s :=
  cutFrom_of_mem_linesFrom h

end Runbook.Text
