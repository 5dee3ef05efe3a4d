import Mathlib.Data.List.Basic
import Runbook.Proofs.Text.Lines

/-!
# Tidy texts

* `isBlank_of_isWordChar`, `isWordChar_of_isIdentChar`: how the classes of characters lie to each other;
* `Tidy`: a text as it stands on a line of its own: trimmed, unbroken, not empty;
* **`Tidy.append`**: two tidy texts with anything unbroken between them are tidy.
-/

namespace Runbook.Text

/-! ## 1. Characters -/

theorem isWordChar_of_isBlank {c : Char} (h : isBlank c = true) : isWordChar c = false := by
  -- the blanks are few: each is looked at
  have hall : ∀ n ∈ [9, 10, 11, 12, 13, 28, 29, 30, 31, 32, 0x85, 0xA0, 0x1680, 0x2000, 0x2001,
      0x2002, 0x2003, 0x2004, 0x2005, 0x2006, 0x2007, 0x2008, 0x2009, 0x200A, 0x2028, 0x2029, 0x202F,
      0x205F, 0x3000], isWordChar (Char.ofNat n) = false := by decide +kernel
  rw [← Char.ofNat_toNat c]
  refine hall c.toNat ?_
  unfold isBlank at h
  simp only [Bool.or_eq_true, Bool.and_eq_true, decide_eq_true_eq, beq_iff_eq] at h
  simp only [List.mem_cons, List.not_mem_nil, or_false]
  omega

theorem isBlank_of_isWordChar {c : Char} (h : isWordChar c = true) : isBlank c = false := by
  cases hb : isBlank c with
  | false => rfl
  | true =>
    rw [isWordChar_of_isBlank hb] at h
    cases h

/-- What an identifier is made of lies in ASCII. -/
theorem toNat_lt_of_isIdentChar {c : Char} (h : isIdentChar c = true) : c.toNat < 128 := by
  have below : ∀ {d : Char}, c.val ≤ d.val → d.toNat < 128 → c.toNat < 128 :=
    fun hc hd => Nat.lt_of_le_of_lt hc hd
  rcases Bool.or_eq_true_iff.mp h with h | h
  · rcases Bool.or_eq_true_iff.mp h with h | hdigit
    · rcases Bool.or_eq_true_iff.mp h with hupper | hlower
      · exact below (of_decide_eq_true hupper).2 (by decide)
      · exact below (of_decide_eq_true (Bool.and_eq_true_iff.mp hlower).2) (by decide)
    · exact below (of_decide_eq_true (Bool.and_eq_true_iff.mp hdigit).2) (by decide)
  · rw [beq_iff_eq.mp h]
    decide

theorem isWordChar_of_isIdentChar {c : Char} (h : isIdentChar c = true) : isWordChar c = true := by
  rw [isWordChar, if_pos (toNat_lt_of_isIdentChar h)]
  exact h

/-- A decimal digit of any script can stand in a name. -/
theorem isWordChar_of_isDecimal {c : Char} (h : isDecimal c = true) : isWordChar c = true := by
  unfold isDecimal decimalValue? at h
  unfold isWordChar
  split at h
  · rename_i hascii
    rw [if_pos hascii]
    split at h
    · rename_i hdigit
      simp [Char.isAlphanum, hdigit]
    · cases h
  · rename_i hascii
    rw [if_neg hascii, Bool.or_eq_true]
    right
    rw [Option.isSome_map, List.find?_isSome] at h
    obtain ⟨range, hrange, hc⟩ := h
    -- every range of decimal digits lies in one of numeric characters
    have hlies : ∀ range ∈ decimalRanges, ∃ wider ∈ numericRanges,
        wider.1 ≤ range.1 ∧ range.2 ≤ wider.2 := by decide +kernel
    obtain ⟨wider, hwider, hfirst, hlast⟩ := hlies range hrange
    simp only [Bool.and_eq_true, decide_eq_true_eq] at hc
    refine List.any_eq_true.mpr ⟨wider, hwider, ?_⟩
    simp only [Bool.and_eq_true, decide_eq_true_eq]
    omega

theorem isDecimal_of_isBlank {c : Char} (h : isBlank c = true) : isDecimal c = false := by
  cases hd : isDecimal c with
  | false => rfl
  | true => rw [← isWordChar_of_isBlank h, isWordChar_of_isDecimal hd]

theorem isIdentChar_of_isIdentStart {c : Char} (h : isIdentStart c = true) :
    isIdentChar c = true := by
  unfold isIdentStart at h
  unfold isIdentChar Char.isAlphanum
  revert h
  cases c.isAlpha <;> cases c.isDigit <;> simp

theorem isWordChar_of_isIdentStart {c : Char} (h : isIdentStart c = true) :
    isWordChar c = true :=
  isWordChar_of_isIdentChar (isIdentChar_of_isIdentStart h)

/-- No identifier starts with a digit. -/
theorem isDigitLike_of_isIdentStart {c : Char} (h : isIdentStart c = true) :
    isDigitLike c = false := by
  have hall : ∀ n < 128, isIdentStart (Char.ofNat n) = true →
      isDigitLike (Char.ofNat n) = false := by decide +kernel
  have hc := hall c.toNat (toNat_lt_of_isIdentChar (isIdentChar_of_isIdentStart h))
  rw [Char.ofNat_toNat] at hc
  exact hc h

/-! ## 2. Tidy texts -/

/-- A text as it stands on a line of its own: trimmed, without line boundaries, and not empty. -/
structure Tidy (s : List Char) : Prop where
  trimmed : Trimmed s
  unbroken : Unbroken s
  nonempty : s ≠ []

instance (s : List Char) : Decidable (Tidy s) :=
  decidable_of_iff (Trimmed s ∧ Unbroken s ∧ s ≠ [])
    ⟨fun h => ⟨h.1, h.2.1, h.2.2⟩, fun h => ⟨h.trimmed, h.unbroken, h.nonempty⟩⟩

theorem Tidy.head {s : List Char} (h : Tidy s) : ∀ c ∈ s.head?, isBlank c = false :=
  (trimmed_iff.mp h.trimmed).1

theorem Tidy.exists_last {s : List Char} (h : Tidy s) :
    ∃ d, s.getLast? = some d ∧ isBlank d = false := by
  cases hd : s.getLast? with
  | none => exact absurd (List.getLast?_eq_none_iff.mp hd) h.nonempty
  | some d => exact ⟨d, rfl, (trimmed_iff.mp h.trimmed).2 d hd⟩

theorem Tidy.trimRight {s : List Char} (h : Tidy s) : Text.trimRight s = s := by
  rw [trimRight_eq, List.rdropWhile_eq_self_iff]
  intro hne
  obtain ⟨d, hd, hb⟩ := h.exists_last
  rw [List.getLast?_eq_getLast_of_ne_nil hne] at hd
  rw [Option.some.inj hd, hb]
  simp

/-- **Two tidy texts with anything unbroken between them are tidy.** -/
theorem Tidy.append {a m b : List Char} (ha : Tidy a) (hm : Unbroken m) (hb : Tidy b) :
    Tidy (a ++ (m ++ b)) := by
  refine ⟨trimmed_iff.mpr ⟨?_, ?_⟩, ?_, ?_⟩
  · rw [List.head?_append_of_ne_nil _ ha.nonempty]
    exact ha.head
  · rw [List.getLast?_append_of_ne_nil _ (by simp [hb.nonempty]),
      List.getLast?_append_of_ne_nil _ hb.nonempty]
    exact (trimmed_iff.mp hb.trimmed).2
  · exact ha.unbroken.append (hm.append hb.unbroken)
  · simp [ha.nonempty]

/-- **Blanks around a tidy text are trimmed away.** -/
theorem Tidy.trim_between {a s b : List Char} (h : Tidy s) (ha : a.all isBlank = true)
    (hb : b.all isBlank = true) : trim (a ++ (s ++ b)) = s := by
  have hright : (s ++ b).rdropWhile isBlank = s.rdropWhile isBlank := by
    unfold List.rdropWhile
    rw [List.reverse_append, List.dropWhile_append_of_pos
      (List.all_eq_true.mp (List.all_reverse.trans hb))]
  have hleft : (s ++ b).dropWhile isBlank = s ++ b := by
    cases s with
    | nil => exact absurd rfl h.nonempty
    | cons c s => exact List.dropWhile_cons_of_neg (by simp [h.head c rfl])
  rw [trim_eq, List.dropWhile_append_of_pos (List.all_eq_true.mp ha), hleft, hright, ← trimRight_eq, h.trimRight]

/-- A text without blanks is tidy. -/
theorem tidy_of_no_blank {s : List Char} (hne : s ≠ []) (h : ∀ c ∈ s, isBlank c = false) :
    Tidy s := by
  refine ⟨trimmed_iff.mpr ⟨?_, ?_⟩, ?_, hne⟩
  · exact fun c hc => h c (List.mem_of_mem_head? hc)
  · exact fun c hc => h c (List.mem_of_getLast? hc)
  · intro c hc
    cases he : isLineEnd c with
    | false => rfl
    | true => exact absurd (isBlank_of_isLineEnd he) (by simp [h c hc])

/-- The blank between two words is skipped. -/
theorem skipBlanks?_space {s : List Char} (h : ∀ c ∈ s.head?, isBlank c = false) :
    skipBlanks? (' ' :: s) = some s := by
  show some (s.dropWhile isBlank) = some s
  cases s with
  | nil => rfl
  | cons d s => rw [List.dropWhile_cons_of_neg (by simp [h d rfl])]

end Runbook.Text
