import Mathlib.Data.Sum.Basic
import Runbook.Value

/-!
# Entries under keys

Two scalars can be one key and differ, as numbers and truth values are compared by their value:

* `sameKey_iff`, `sameKey_comm`, `sameKey_congr`: being one key is an equivalence;
* `sameKey_text`: a text is one key with itself only;
* `mem_putField`: what stands among entries after something was put there;
* `KeysDiffer`: no two entries have one key; **`KeysDiffer.putField`**: putting something there keeps it so.
-/

namespace Runbook.Value

variable {a b : Scalar}

/-! ## 1. Being one key -/

/-- The numbers that scalars are compared by are the same exactly if they are equal. -/
theorem numeric_beq_iff : ∀ {x y : Int ⊕ Double}, (x == y) = true ↔ x = y
  | .inl i, .inl _ => (beq_iff_eq (a := i)).trans Sum.inl_injective.eq_iff.symm
  | .inr x, .inr _ => (beq_iff_eq (a := x)).trans Sum.inr_injective.eq_iff.symm
  | .inl _, .inr _ | .inr _, .inl _ => iff_of_false Bool.false_ne_true nofun

theorem sameKey_iff : sameKey a b = true ↔
    numeric? a = numeric? b ∧ (numeric? a = none → a = b) := by
  unfold sameKey
  cases numeric? a <;> cases numeric? b <;> simp [numeric_beq_iff]

@[simp] theorem sameKey_self (a : Scalar) : sameKey a a = true :=
  sameKey_iff.mpr ⟨rfl, fun _ => rfl⟩

theorem sameKey_comm (a b : Scalar) : sameKey a b = sameKey b a := by
  have hswap : ∀ {a b : Scalar}, sameKey a b = true → sameKey b a = true := fun h => by
    obtain ⟨hn, he⟩ := sameKey_iff.mp h
    exact sameKey_iff.mpr ⟨hn.symm, fun hb => (he (hn.trans hb)).symm⟩
  exact Bool.eq_iff_iff.mpr ⟨hswap, hswap⟩

/-- What is one key is the same key as anything else. -/
theorem sameKey_congr (h : sameKey a b = true) (c : Scalar) : sameKey a c = sameKey b c := by
  have htrans : ∀ {a b : Scalar}, sameKey a b = true → sameKey b c = true → sameKey a c = true := by
    intro a b hab hbc
    obtain ⟨hn, he⟩ := sameKey_iff.mp hab
    obtain ⟨hn', he'⟩ := sameKey_iff.mp hbc
    exact sameKey_iff.mpr ⟨hn.trans hn', fun ha => (he ha).trans (he' (hn ▸ ha))⟩
  exact Bool.eq_iff_iff.mpr ⟨htrans (sameKey_comm a b ▸ h), htrans h⟩

/-- A text is one key with itself only. -/
theorem sameKey_text {name : String} {k : Scalar} : sameKey k (.text name) = true ↔ k = .text name := by
  rw [sameKey_iff]
  constructor
  · rintro ⟨hn, he⟩
    exact he hn
  · rintro rfl
    exact ⟨rfl, fun _ => rfl⟩

/-! ## 2. Putting something among entries -/

variable {α : Type}

/-- What was put under a key stands there; all else was there before. -/
theorem mem_putField {key k : Scalar} {value v : α} {fields : List (Scalar × α)}
    (h : (k, v) ∈ putField key value fields) :
    (k = key ∨ ∃ w, (k, w) ∈ fields) ∧ (v = value ∨ ∃ l, (l, v) ∈ fields) := by
  induction fields with
  | nil =>
    obtain ⟨rfl, rfl⟩ := Prod.mk.inj (List.mem_singleton.mp h)
    exact ⟨Or.inl rfl, Or.inl rfl⟩
  | cons first rest ih =>
    obtain ⟨l, w⟩ := first
    rw [putField] at h
    have hbehind : (k, v) ∈ rest → (k = key ∨ ∃ u, (k, u) ∈ (l, w) :: rest) ∧
        (v = value ∨ ∃ m, (m, v) ∈ (l, w) :: rest) := fun hin =>
      ⟨Or.inr ⟨v, List.mem_cons_of_mem _ hin⟩, Or.inr ⟨k, List.mem_cons_of_mem _ hin⟩⟩
    by_cases hsame : sameKey l key = true
    · rw [if_pos hsame] at h
      rcases List.mem_cons.mp h with heq | hin
      · obtain ⟨rfl, rfl⟩ := Prod.mk.inj heq
        exact ⟨Or.inr ⟨w, List.mem_cons_self⟩, Or.inl rfl⟩
      · exact hbehind hin
    · rw [if_neg hsame] at h
      rcases List.mem_cons.mp h with heq | hin
      · obtain ⟨rfl, rfl⟩ := Prod.mk.inj heq
        exact ⟨Or.inr ⟨v, List.mem_cons_self⟩, Or.inr ⟨k, List.mem_cons_self⟩⟩
      · obtain ⟨hk, hv⟩ := ih hin
        exact ⟨hk.imp_right fun ⟨u, hu⟩ => ⟨u, List.mem_cons_of_mem _ hu⟩,
          hv.imp_right fun ⟨m, hm⟩ => ⟨m, List.mem_cons_of_mem _ hm⟩⟩

/-- No two entries have one key. -/
def KeysDiffer (fields : List (Scalar × α)) : Prop :=
  fields.Pairwise fun a b => sameKey a.1 b.1 = false

instance (fields : List (Scalar × α)) : Decidable (KeysDiffer fields) :=
  inferInstanceAs (Decidable (fields.Pairwise _))

/-- **The keys of entries still differ after something was put among them.** -/
theorem KeysDiffer.putField {fields : List (Scalar × α)} (h : KeysDiffer fields) (key : Scalar)
    (value : α) : KeysDiffer (putField key value fields) := by
  induction fields with
  | nil => exact List.pairwise_singleton _ _
  | cons first rest ih =>
    obtain ⟨k, v⟩ := first
    obtain ⟨hk, hrest⟩ := List.pairwise_cons.mp h
    rw [Value.putField]
    by_cases hsame : sameKey k key = true
    · rw [if_pos hsame]
      exact List.pairwise_cons.mpr ⟨hk, hrest⟩
    · rw [if_neg hsame]
      refine List.pairwise_cons.mpr ⟨fun ⟨l, w⟩ hin => ?_, ih hrest⟩
      rcases (mem_putField hin).1 with rfl | ⟨u, hu⟩
      · exact eq_false_of_ne_true hsame
      · exact hk (l, u) hu

end Runbook.Value
