import Runbook.Proofs.Template

/-!
# Texts without placeholders

Whether a text has placeholders can be asked at each of its places, so that it can be seen when texts
are put together:

* `Closed`: no placeholder starts at any place of a text; `closed_toList`: it has no names then;
* `placeholderAt_barrier`: a placeholder does not reach over a character that cannot stand in one;
* **`Closed.join`**, **`Closed.behind`**: texts put together of texts without placeholders.
-/

namespace Runbook

theorem distinct_eq_nil {α : Type} [DecidableEq α] {xs : List α} : distinct xs = [] ↔ xs = [] := by
  simp only [List.eq_nil_iff_forall_not_mem, mem_distinct]

/-- A text has no token exactly if none can be read at any of its places. -/
theorem Text.tokens_pieces_eq_nil {α : Type} {read : Char → List Char → Option (α × Nat)}
    {s : List Char} :
    Text.tokens (Text.pieces read s) = [] ↔ ∀ c rest, c :: rest <:+ s → read c rest = none := by
  induction s with
  | nil => simp [Text.pieces, Text.piecesFrom, Text.tokens]
  | cons d s ih =>
    simp only [Text.pieces, Text.piecesFrom, List.suffix_cons_iff]
    cases hr : read d s with
    | some token =>
      refine ⟨fun h => by simp [Text.tokens] at h, fun h => ?_⟩
      rw [h d s (Or.inl rfl)] at hr
      cases hr
    | none =>
      have hcons : Text.tokens (.plain d :: Text.piecesFrom read 0 s) =
          Text.tokens (Text.pieces read s) := rfl
      dsimp only
      rw [hcons, ih]
      constructor
      · rintro h c rest (heq | hs)
        · cases heq
          exact hr
        · exact h c rest hs
      · exact fun h c rest hs => h c rest (Or.inr hs)

namespace Template

/-- A text in which no placeholder starts. -/
def Closed (s : List Char) : Prop := ∀ c rest, c :: rest <:+ s → placeholderAt c rest = none

theorem closed_toList {text : String} : Closed text.toList ↔ placeholderNames text = [] := by
  unfold placeholderNames placeholders
  rw [distinct_eq_nil, Text.tokens_pieces_eq_nil]
  rfl

/-- Whether a character can stand in a placeholder. -/
def inPlaceholder (c : Char) : Bool :=
  c = '\x7b' || c = '\x7d' || Text.isBlank c || Text.isWordChar c

theorem placeholderAt_of_ne {c : Char} (hc : c ≠ '\x7b') (rest : List Char) :
    placeholderAt c rest = none := by
  unfold placeholderAt
  split
  · exact absurd rfl hc
  · rfl

theorem takeWhile_barrier {p : Char → Bool} {s t : List Char} {c : Char} (hc : p c = false) :
    (s ++ c :: t).takeWhile p = s.takeWhile p := by
  induction s with
  | nil => simp [hc]
  | cons d s ih =>
    rw [List.cons_append, List.takeWhile_cons, List.takeWhile_cons, ih]

theorem dropWhile_barrier {p : Char → Bool} {s t : List Char} {c : Char} (hc : p c = false) :
    (s ++ c :: t).dropWhile p = s.dropWhile p ++ c :: t := by
  induction s with
  | nil => simp [hc]
  | cons d s ih =>
    rw [List.cons_append, List.dropWhile_cons, List.dropWhile_cons, ih]
    split <;> rfl

/-- A placeholder does not reach over a character that cannot stand in one. -/
theorem placeholderAt_barrier {d c : Char} {s t : List Char} (hc : inPlaceholder c = false)
    (h : placeholderAt d s = none) : placeholderAt d (s ++ c :: t) = none := by
  unfold inPlaceholder at hc
  simp only [Bool.or_eq_false_iff, decide_eq_false_iff_not] at hc
  obtain ⟨⟨⟨hopen, hclose⟩, hblank⟩, hword⟩ := hc
  by_cases hd : d = '\x7b'
  · subst hd
    cases s with
    | nil =>
      rw [List.nil_append]
      unfold placeholderAt
      split
      · next heq =>
        cases heq
        exact absurd rfl hopen
      · rfl
    | cons b body =>
      by_cases hb : b = '\x7b'
      · subst hb
        unfold placeholderAt at h ⊢
        simp only [List.cons_append] at h ⊢
        rw [dropWhile_barrier hblank, takeWhile_barrier hword, dropWhile_barrier hword,
          dropWhile_barrier hblank]
        generalize (body.dropWhile Text.isBlank).takeWhile Text.isWordChar = name at h ⊢
        generalize ((body.dropWhile Text.isBlank).dropWhile Text.isWordChar).dropWhile Text.isBlank
          = tail at h ⊢
        split
        · rfl
        · next heq =>
          match tail, heq with
          | [], heq => cases heq; exact absurd rfl hclose
          | [_], heq => cases heq; exact absurd rfl hclose
          | _ :: _ :: _, heq => cases heq; cases h
        · rfl
      · unfold placeholderAt
        simp [hb]
  · exact placeholderAt_of_ne hd _

theorem closed_nil : Closed [] := by
  intro c rest h
  simp at h

/-- Texts without placeholders have none when they are put together around a character that cannot
stand in one. -/
theorem Closed.join {s t : List Char} {c : Char} (hs : Closed s) (ht : Closed t)
    (hc : inPlaceholder c = false) : Closed (s ++ c :: t) := by
  induction s with
  | nil =>
    intro d rest h
    rw [List.nil_append, List.suffix_cons_iff] at h
    rcases h with heq | h
    · cases heq
      refine placeholderAt_of_ne ?_ t
      rintro rfl
      cases hc
    · exact ht d rest h
  | cons b s ih =>
    intro d rest h
    rw [List.cons_append, List.suffix_cons_iff] at h
    rcases h with heq | h
    · cases heq
      exact placeholderAt_barrier hc (hs b s List.suffix_rfl)
    · exact ih (fun d rest h => hs d rest (h.trans (List.suffix_cons b s))) d rest h

/-- A text without opening braces in front adds no placeholder. -/
theorem Closed.behind {s t : List Char} (hs : '\x7b' ∉ s) (ht : Closed t) : Closed (s ++ t) := by
  induction s with
  | nil => exact ht
  | cons b s ih =>
    intro d rest h
    rw [List.cons_append, List.suffix_cons_iff] at h
    rcases h with heq | h
    · cases heq
      exact placeholderAt_of_ne (fun hb => hs (hb ▸ List.mem_cons_self)) _
    · exact ih (fun hm => hs (List.mem_cons_of_mem _ hm)) d rest h

end Template

end Runbook
