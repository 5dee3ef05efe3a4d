import Mathlib.Data.List.Chain
import Runbook.Proofs.Sanitize.Escaping
import Runbook.Proofs.Text.Lines
import Runbook.Sanitize.Input

/-!
# Cleansed commands

A command that was cleansed is in the shape that cleansing brings commands into:

* `Spaced`: a text with single spaces between other characters and no other blanks;
* `spaced_normalizeBlanks`, `normalizeBlanks_of_spaced`: what normalizing blanks gives, and what it
  leaves alone;
* `Spaced.escapeFrom`: backslashes put in do not bring blanks together;
* `Cleansed`, **`command_cleansed`**: what is said of a cleansed command.
-/

namespace Runbook.Sanitize

/-! ## 1. Blanks -/

/-- One of two characters is no blank. -/
def ApartBlanks (a b : Char) : Prop :=
  Text.isBlank a = false ∨ Text.isBlank b = false

instance (a b : Char) : Decidable (ApartBlanks a b) :=
  inferInstanceAs (Decidable (_ ∨ _))

/-- **A text whose only blanks are single spaces between other characters.** -/
structure Spaced (s : List Char) : Prop where
  spaces : ∀ c ∈ s, Text.isBlank c = true → c = ' '
  single : s.IsChain ApartBlanks
  first : ∀ c ∈ s.head?, Text.isBlank c = false
  last : ∀ c ∈ s.getLast?, Text.isBlank c = false

theorem mem_collapseBlanks {inRun : Bool} {s : List Char} {c : Char}
    (h : c ∈ collapseBlanks inRun s) : c = ' ' ∨ c ∈ s ∧ Text.isBlank c = false := by
  induction s generalizing inRun with
  | nil => cases h
  | cons d rest ih =>
    have hrest : ∀ {inRun}, c ∈ collapseBlanks inRun rest →
        c = ' ' ∨ c ∈ d :: rest ∧ Text.isBlank c = false :=
      fun h => (ih h).imp_right fun h => ⟨List.mem_cons_of_mem d h.1, h.2⟩
    rw [collapseBlanks] at h
    split at h
    · split at h
      · exact hrest h
      · rcases List.mem_cons.mp h with h | h
        · exact Or.inl h
        · exact hrest h
    · next hd =>
      rcases List.mem_cons.mp h with rfl | h
      · exact Or.inr ⟨List.mem_cons_self, by simpa using hd⟩
      · exact hrest h

/-- Behind a blank that was kept, no blank comes next. -/
theorem head?_collapseBlanks {s : List Char} {c : Char} (h : c ∈ (collapseBlanks true s).head?) :
    Text.isBlank c = false := by
  induction s with
  | nil => cases h
  | cons d rest ih =>
    rw [collapseBlanks] at h
    by_cases hd : Text.isBlank d = true
    · rw [if_pos hd, if_pos rfl] at h
      exact ih h
    · rw [if_neg hd] at h
      obtain rfl : d = c := Option.some.inj h
      simpa using hd

theorem isChain_collapseBlanks (inRun : Bool) (s : List Char) :
    (collapseBlanks inRun s).IsChain ApartBlanks := by
  induction s generalizing inRun with
  | nil => exact List.IsChain.nil
  | cons d rest ih =>
    rw [collapseBlanks]
    split
    · split
      · exact ih true
      · exact List.isChain_cons.mpr ⟨fun c hc => Or.inr (head?_collapseBlanks hc), ih true⟩
    · next hd => exact List.isChain_cons.mpr ⟨fun c _ => Or.inl (by simpa using hd), ih false⟩

/-- Blanks that stand alone are kept. -/
theorem collapseBlanks_of_single {inRun : Bool} {s : List Char}
    (hs : ∀ c ∈ s, Text.isBlank c = true → c = ' ') (hc : s.IsChain ApartBlanks)
    (hfirst : inRun = true → ∀ c ∈ s.head?, Text.isBlank c = false) : collapseBlanks inRun s = s := by
  induction s generalizing inRun with
  | nil => rfl
  | cons d rest ih =>
    obtain ⟨hd, hs⟩ := List.forall_mem_cons.mp hs
    obtain ⟨hnext, hc⟩ := List.isChain_cons.mp hc
    rw [collapseBlanks]
    by_cases hblank : Text.isBlank d = true
    · have hrun : inRun = false := by
        cases inRun with
        | false => rfl
        | true => exact absurd hblank (by simp [hfirst rfl d rfl])
      have hrest : ∀ c ∈ rest.head?, Text.isBlank c = false :=
        fun c hc => (hnext c hc).resolve_left (by simp [hblank])
      rw [if_pos hblank, hrun, if_neg (by simp), ih hs hc fun _ => hrest, hd hblank]
    · rw [if_neg hblank, ih hs hc (by simp)]

/-- **What normalizing blanks gives.** -/
theorem spaced_normalizeBlanks (s : List Char) : Spaced (normalizeBlanks s) where
  spaces c hc hb := by
    rcases mem_collapseBlanks (Text.trim_subset _ hc) with h | ⟨-, h⟩
    · exact h
    · rw [h] at hb
      cases hb
  single := List.IsChain.infix (isChain_collapseBlanks false s) (Text.trim_isInfix _)
  first := (Text.trimmed_iff.mp (Text.trimmed_trim _)).1
  last := (Text.trimmed_iff.mp (Text.trimmed_trim _)).2

/-- **What normalizing blanks leaves alone.** -/
theorem normalizeBlanks_of_spaced {s : List Char} (h : Spaced s) : normalizeBlanks s = s := by
  unfold normalizeBlanks
  rw [collapseBlanks_of_single h.spaces h.single (by simp)]
  exact Text.trimmed_iff.mpr ⟨h.first, h.last⟩

theorem mem_normalizeBlanks {s : List Char} {c : Char} (h : c ∈ normalizeBlanks s) :
    c = ' ' ∨ c ∈ s :=
  (mem_collapseBlanks (Text.trim_subset _ h)).imp_right And.left

theorem withoutNull_of_not_mem {s : List Char} (h : Char.ofNat 0 ∉ s) : withoutNull s = s := by
  unfold withoutNull
  rw [List.filter_eq_self]
  intro c hc
  rw [decide_eq_true_eq]
  rintro rfl
  exact h hc

theorem not_mem_withoutNull (s : List Char) : Char.ofNat 0 ∉ withoutNull s := by
  simp [withoutNull]

/-! ## 2. Backslashes between blanks -/

/-- What a character is written as ends with it, behind a backslash at most. -/
theorem escapeFrom_cons_cases (before : Option Char) (q : QuoteState) (c : Char) (rest : List Char) :
    escapeFrom before q (c :: rest) = c :: escapeFrom (some c) (q.next c) rest ∨
      escapeFrom before q (c :: rest) = '\\' :: c :: escapeFrom (some c) (q.next c) rest := by
  rw [escapeFrom_cons]
  split
  · exact Or.inr rfl
  · exact Or.inl rfl

theorem mem_escapeFrom {before : Option Char} {q : QuoteState} {s : List Char} {c : Char}
    (h : c ∈ escapeFrom before q s) : c = '\\' ∨ c ∈ s := by
  induction s generalizing before q with
  | nil => cases h
  | cons d rest ih =>
    have hrest : c ∈ d :: escapeFrom (some d) (q.next d) rest → c = '\\' ∨ c ∈ d :: rest := by
      intro h
      rcases List.mem_cons.mp h with rfl | h
      · exact Or.inr List.mem_cons_self
      · exact (ih h).imp_right (List.mem_cons_of_mem d)
    rcases escapeFrom_cons_cases before q d rest with he | he
    · exact hrest (he ▸ h)
    · rw [he] at h
      exact (List.mem_cons.mp h).elim Or.inl hrest

theorem getLast?_escapeFrom (before : Option Char) (q : QuoteState) (s : List Char) :
    (escapeFrom before q s).getLast? = s.getLast? := by
  induction s generalizing before q with
  | nil => rfl
  | cons d rest ih =>
    rcases escapeFrom_cons_cases before q d rest with he | he
    · rw [he, List.getLast?_cons, List.getLast?_cons, ih]
    · rw [he, List.getLast?_cons_cons, List.getLast?_cons, List.getLast?_cons, ih]

theorem isBlank_backslash : Text.isBlank '\\' = false := by decide

theorem isChain_escapeFrom {s : List Char} (h : s.IsChain ApartBlanks) (before : Option Char)
    (q : QuoteState) : (escapeFrom before q s).IsChain ApartBlanks := by
  induction s generalizing before q with
  | nil => exact List.IsChain.nil
  | cons d rest ih =>
    obtain ⟨hd, hrest⟩ := List.isChain_cons.mp h
    have hown : (d :: escapeFrom (some d) (q.next d) rest).IsChain ApartBlanks := by
      refine List.isChain_cons.mpr ⟨fun c hc => ?_, ih hrest (some d) (q.next d)⟩
      rcases head?_escapeFrom (some d) (q.next d) rest with he | ⟨he, -⟩
      · exact hd c (he ▸ hc)
      · rw [he] at hc
        obtain rfl := Option.some.inj hc
        exact Or.inr isBlank_backslash
    rcases escapeFrom_cons_cases before q d rest with he | he
    · rw [he]
      exact hown
    · rw [he]
      exact List.isChain_cons_cons.mpr ⟨Or.inl isBlank_backslash, hown⟩

/-- **Backslashes put in do not bring blanks together.** -/
theorem Spaced.escapeMetacharacters {s : List Char} (h : Spaced s) :
    Spaced (escapeMetacharacters s) where
  spaces c hc hb := by
    rcases mem_escapeFrom hc with rfl | hc
    · rw [isBlank_backslash] at hb
      cases hb
    · exact h.spaces c hc hb
  single := isChain_escapeFrom h.single none .start
  first c hc := by
    rcases head?_escapeFrom none .start s with he | ⟨he, -⟩
    · exact h.first c (he ▸ hc)
    · obtain rfl := Option.some.inj (he.symm.trans hc)
      exact isBlank_backslash
  last c hc := h.last c (getLast?_escapeFrom none .start s ▸ hc)

/-! ## 3. Commands -/

/-- **A cleansed command**: no null character, no blanks but single spaces between other characters, at
most 2000 characters, and cleansing it again succeeds and changes nothing. -/
structure Cleansed (s : List Char) : Prop where
  noNull : Char.ofNat 0 ∉ s
  spaced : Spaced s
  short : s.length ≤ 2000
  again : command s = .ok s

theorem command_eq_ok {s t : List Char} (h : command s = .ok t) :
    t = escapeMetacharacters (normalizeBlanks (withoutNull s)) ∧ t.length ≤ 2000 := by
  unfold command within at h
  split at h
  · next hlength =>
    obtain rfl := Except.ok.inj h
    exact ⟨rfl, hlength⟩
  · cases h

/-- **Cleansing a command that was cleansed changes nothing**: what is cleansed once is clean. -/
theorem command_cleansed {s t : List Char} (h : command s = .ok t) : Cleansed t := by
  obtain ⟨rfl, hshort⟩ := command_eq_ok h
  have hnull : Char.ofNat 0 ∉ escapeMetacharacters (normalizeBlanks (withoutNull s)) := by
    intro hm
    rcases mem_escapeFrom hm with hm | hm
    · revert hm
      decide
    · rcases mem_normalizeBlanks hm with hm | hm
      · revert hm
        decide
      · exact not_mem_withoutNull s hm
  have hspaced := (spaced_normalizeBlanks (withoutNull s)).escapeMetacharacters
  refine ⟨hnull, hspaced, hshort, ?_⟩
  unfold command within
  rw [withoutNull_of_not_mem hnull, normalizeBlanks_of_spaced hspaced,
    escapeMetacharacters_idempotent, if_pos hshort]

/-- A command with blanks, a null character, quotes, and every metacharacter that looks suspicious. -/
theorem suspicious_command_cleansed :
    command "\x00 ls |\t grep `id`;; (a & b) '$(c)' \"|  d\" $(e) \\".toList =
        .ok "ls \\| grep \\`id\\`\\;; (a \\& b) '$(c)' \"| d\" \\$(e) \\".toList ∧
      Cleansed "ls \\| grep \\`id\\`\\;; (a \\& b) '$(c)' \"| d\" \\$(e) \\".toList := by
  have h : command "\x00 ls |\t grep `id`;; (a & b) '$(c)' \"|  d\" $(e) \\".toList =
      .ok "ls \\| grep \\`id\\`\\;; (a \\& b) '$(c)' \"| d\" \\$(e) \\".toList := by decide +kernel
  exact ⟨h, command_cleansed h⟩

end Runbook.Sanitize
