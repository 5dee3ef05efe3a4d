import Mathlib.Data.List.DropRight
import Runbook.Text.Basic

/-!
# Lines and trimmed texts

* `Trimmed`, `trimmed_iff`: texts that neither start nor end with a blank;
* `trim_indented`: trimming takes the blanks in front of such a text away;
* `Unbroken`: texts without line boundaries; `linesOf_unbroken`: lines are such texts;
* **`linesOf_joinWith`**: lines put together with line feeds fall apart into the same lines.
-/

namespace Runbook.Text

/-! ## 1. Trimming -/

theorem trimRight_eq (s : List Char) : trimRight s = s.rdropWhile isBlank := by
  induction s with
  | nil => rfl
  | cons c rest ih =>
    rw [trimRight, ih]
    unfold List.rdropWhile
    rw [List.reverse_cons, List.dropWhile_append]
    rcases List.eq_nil_or_concat (rest.reverse.dropWhile isBlank) with hd | ⟨kept, d, hd⟩
    · rw [hd]
      cases hc : isBlank c <;> simp [hc]
    · rw [hd]
      simp

theorem trim_eq (s : List Char) : trim s = (s.dropWhile isBlank).rdropWhile isBlank :=
  trimRight_eq _

/-- A text without blanks at its ends. -/
def Trimmed (s : List Char) : Prop := trim s = s

instance (s : List Char) : Decidable (Trimmed s) := inferInstanceAs (Decidable (trim s = s))

/-- **A text is trimmed if it neither starts nor ends with a blank.** -/
theorem trimmed_iff {s : List Char} :
    Trimmed s ↔ (∀ c ∈ s.head?, isBlank c = false) ∧ ∀ c ∈ s.getLast?, isBlank c = false := by
  unfold Trimmed
  rw [trim_eq]
  constructor
  · intro h
    have hlen := congrArg List.length h
    have hright := (List.rdropWhile_prefix isBlank (l := s.dropWhile isBlank)).length_le
    have hleft : s.dropWhile isBlank = s :=
      (List.dropWhile_suffix isBlank).eq_of_length_le (by omega)
    rw [hleft, List.rdropWhile_eq_self_iff] at h
    constructor
    · intro c hc
      cases s with
      | nil => cases hc
      | cons d rest =>
        obtain rfl : d = c := Option.some.inj hc
        cases hb : isBlank d with
        | false => rfl
        | true =>
          rw [List.dropWhile_cons_of_pos hb] at hleft
          have := (List.dropWhile_suffix isBlank (l := rest)).length_le
          rw [hleft] at this
          exact absurd this (by simp)
    · intro c hc
      obtain ⟨init, rfl⟩ := List.getLast?_eq_some_iff.mp hc
      simpa using h (by simp)
  · rintro ⟨hfirst, hlast⟩
    have hleft : s.dropWhile isBlank = s := by
      cases s with
      | nil => rfl
      | cons c rest => rw [List.dropWhile_cons_of_neg (by simp [hfirst c rfl])]
    rw [hleft, List.rdropWhile_eq_self_iff]
    intro hne
    rw [hlast _ (List.getLast?_eq_getLast_of_ne_nil hne)]
    simp

theorem trim_isInfix (s : List Char) : trim s <:+: s := by
  rw [trim_eq]
  exact (List.rdropWhile_prefix isBlank _).isInfix.trans (List.dropWhile_suffix isBlank).isInfix

theorem trim_subset (s : List Char) : trim s ⊆ s :=
  (trim_isInfix s).subset

/-- Trimming takes no character away but blanks. -/
theorem mem_trim {c : Char} {s : List Char} (hc : c ∈ s) (hb : isBlank c = false) : c ∈ trim s := by
  have hdrop : ∀ t : List Char, c ∈ t → c ∈ t.dropWhile isBlank := by
    intro t ht
    rw [← List.takeWhile_append_dropWhile (p := isBlank) (l := t)] at ht
    refine (List.mem_append.mp ht).resolve_left fun h => ?_
    simpa [hb] using List.mem_takeWhile_imp h
  rw [trim_eq, List.rdropWhile, List.mem_reverse]
  exact hdrop _ (List.mem_reverse.mpr (hdrop s hc))

theorem trimmed_trim (s : List Char) : Trimmed (trim s) := by
  rw [trimmed_iff, trim_eq]
  constructor
  · intro c hc
    obtain ⟨kept, hkept⟩ := List.rdropWhile_prefix isBlank (l := s.dropWhile isBlank)
    have hfirst : (s.dropWhile isBlank).head? = some c := by
      rw [← hkept, List.head?_append, hc]
      rfl
    have h := List.head?_dropWhile_not isBlank s
    rw [hfirst] at h
    exact h
  · intro c hc
    have hne : (s.dropWhile isBlank).rdropWhile isBlank ≠ [] := by
      intro h
      rw [h] at hc
      cases hc
    have h := List.rdropWhile_last_not isBlank (s.dropWhile isBlank) hne
    rw [List.getLast?_eq_getLast_of_ne_nil hne] at hc
    obtain rfl := Option.some.inj hc
    simpa using h

/-- **Blanks in front of a trimmed text are trimmed away.** -/
theorem trim_indented {indent s : List Char} (hi : indent.all isBlank = true) (hs : Trimmed s) :
    trim (indent ++ s) = s := by
  have hindent : indent.dropWhile isBlank = [] :=
    List.dropWhile_eq_nil_iff.mpr (List.all_eq_true.mp hi)
  have htrim : trim (indent ++ s) = trim s := by
    rw [trim_eq, trim_eq, List.dropWhile_append, hindent]
    rfl
  exact htrim.trans hs

/-! ## 2. Lines -/

/-- A text without line boundaries. -/
def Unbroken (s : List Char) : Prop := ∀ c ∈ s, isLineEnd c = false

instance (s : List Char) : Decidable (Unbroken s) := List.decidableBAll _ s

theorem Unbroken.append {a b : List Char} (ha : Unbroken a) (hb : Unbroken b) : Unbroken (a ++ b) :=
  fun c hc => (List.mem_append.mp hc).elim (ha c) (hb c)

theorem isBlank_of_isLineEnd {c : Char} (h : isLineEnd c = true) : isBlank c = true := by
  unfold isLineEnd at h
  unfold isBlank
  simp only [Bool.or_eq_true, Bool.and_eq_true, decide_eq_true_eq, beq_iff_eq] at h ⊢
  omega

theorem linesFrom_append {line : List Char} (h : Unbroken line) (current rest : List Char) :
    linesFrom current (line ++ '\n' :: rest) = (current.reverse ++ line) :: linesFrom [] rest := by
  induction line generalizing current with
  | nil => simp [linesFrom, isLineEnd]
  | cons c line ih =>
    have hc := h c List.mem_cons_self
    rw [List.cons_append, linesFrom]
    · rw [if_neg (by simp [hc]), ih (fun d hd => h d (List.mem_cons_of_mem _ hd))]
      simp
    · rintro _ rfl
      cases hc

theorem linesFrom_unbroken {line : List Char} (h : Unbroken line) (current : List Char)
    (hne : current ≠ [] ∨ line ≠ []) : linesFrom current line = [current.reverse ++ line] := by
  induction line generalizing current with
  | nil =>
    have hcurrent : current ≠ [] := hne.resolve_right fun hn => hn rfl
    rw [linesFrom, if_neg (by simpa using hcurrent), List.append_nil]
  | cons c line ih =>
    have hc := h c List.mem_cons_self
    rw [linesFrom]
    · rw [if_neg (by simp [hc]), ih (fun d hd => h d (List.mem_cons_of_mem _ hd)) _
        (Or.inl (by simp))]
      simp
    · rintro _ rfl
      cases hc

/-- **Lines put together with line feeds fall apart into the same lines.** -/
theorem linesOf_joinWith {lines : List (List Char)}
    (h : ∀ line ∈ lines, Unbroken line ∧ line ≠ []) :
    linesOf (joinWith "\n" (lines.map String.ofList)).toList = lines := by
  unfold joinWith linesOf
  induction lines with
  | nil => rfl
  | cons line rest ih =>
    obtain ⟨hline, hne⟩ := h line List.mem_cons_self
    cases rest with
    | nil =>
      rw [List.map_singleton, String.intercalate_singleton, String.toList_ofList,
        linesFrom_unbroken hline [] (Or.inr hne)]
      rfl
    | cons next rest =>
      have hrest := ih fun l hl => h l (List.mem_cons_of_mem _ hl)
      have htext : ("\n".intercalate ((line :: next :: rest).map String.ofList)).toList =
          line ++ '\n' :: ("\n".intercalate ((next :: rest).map String.ofList)).toList := by
        simp [String.intercalate_cons_cons]
      rw [htext, linesFrom_append hline, hrest]
      rfl

theorem linesFrom_mem {current s line : List Char} (hc : Unbroken current)
    (h : line ∈ linesFrom current s) : Unbroken line := by
  have hreverse : ∀ {t : List Char}, Unbroken t → Unbroken t.reverse :=
    fun ht c hc => ht c (List.mem_reverse.mp hc)
  fun_induction linesFrom current s with
  | case1 => cases h
  | case2 current hne =>
    rw [List.mem_singleton.mp h]
    exact hreverse hc
  | case3 current rest ih =>
    rcases List.mem_cons.mp h with rfl | h
    · exact hreverse hc
    · exact ih (fun c hc => by cases hc) h
  | case4 current c rest _ hend ih =>
    rcases List.mem_cons.mp h with rfl | h
    · exact hreverse hc
    · exact ih (fun c hc => by cases hc) h
  | case5 current c rest _ hend ih =>
    refine ih (fun d hd => ?_) h
    rcases List.mem_cons.mp hd with rfl | hd
    · simpa using hend
    · exact hc d hd

/-- Lines have no line boundaries inside. -/
theorem linesOf_unbroken {s line : List Char} (h : line ∈ linesOf s) : Unbroken line :=
  linesFrom_mem (fun c hc => by cases hc) h

end Runbook.Text
