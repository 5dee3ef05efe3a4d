import Runbook.Text.Basic

/-!
# Where the tokens of a text stand

A text is cut from left to right, so whether something is a token of it depends on what was read
before. What can be said of a place alone:

* `takeWhile_stop`, `dropWhile_stop`: the longest part in front whose characters have a property;
* `pieces_of_some`, `pieces_of_none`, `pieces_append`: how a text is cut;
* `mem_tokens`: the tokens among the pieces of a text;
* `cutInduction`: induction over a text in the way it is cut;
* `exists_of_mem_tokens`: a token can be read at some place of the text;
* `Unhidden`: where a token is read, no other token starts inside of it;
* **`mem_tokens_iff`**: if tokens hide no others, they are what can be read at the places of the text.
-/

namespace Runbook.Text

/-- The longest part in front whose characters have a property ends where one has it not. -/
theorem takeWhile_stop {p : Char → Bool} {front back : List Char} (hf : ∀ d ∈ front, p d = true)
    (hb : ∀ d ∈ back.head?, p d = false) :
    (front ++ back).takeWhile p = front ∧ (front ++ back).dropWhile p = back := by
  rw [List.takeWhile_append_of_pos hf, List.dropWhile_append_of_pos hf]
  cases back with
  | nil => simp
  | cons d back => simp [hb d rfl]

theorem dropWhile_stop (p : Char → Bool) (s : List Char) :
    ∀ d ∈ (s.dropWhile p).head?, p d = false := by
  intro d hd
  have hhead := List.head?_dropWhile_not p s
  rw [hd] at hhead
  exact hhead

variable {α : Type} {read : Char → List Char → Option (α × Nat)}

theorem pieces_of_some {c : Char} {rest : List Char} {value : α} {n : Nat}
    (h : read c rest = some (value, n)) :
    pieces read (c :: rest) = .token value (c :: rest.take n) :: pieces read (rest.drop n) := by
  rw [pieces, piecesFrom, h, ← piecesFrom_eq_drop]

theorem pieces_of_none {c : Char} {rest : List Char} (h : read c rest = none) :
    pieces read (c :: rest) = .plain c :: pieces read rest := by
  rw [pieces, piecesFrom, h]
  rfl

/-- Characters that start no token are cut off one by one. -/
theorem pieces_append {front : List Char} (h : ∀ d ∈ front, ∀ more, read d more = none)
    (back : List Char) : pieces read (front ++ back) = front.map .plain ++ pieces read back := by
  induction front with
  | nil => rfl
  | cons c front ih =>
    obtain ⟨hc, hfront⟩ := List.forall_mem_cons.mp h
    rw [List.cons_append, pieces_of_none (hc _), ih hfront, List.map_cons, List.cons_append]

theorem mem_tokens {ps : List (Piece α)} {value : α} :
    value ∈ tokens ps ↔ ∃ source, .token value source ∈ ps := by
  rw [tokens, List.mem_filterMap]
  constructor
  · rintro ⟨piece, hp, hvalue⟩
    cases piece with
    | plain c => cases hvalue
    | token value source =>
      cases hvalue
      exact ⟨source, hp⟩
  · rintro ⟨source, hp⟩
    exact ⟨_, hp, rfl⟩

theorem tokens_pieces_of_some {c : Char} {rest : List Char} {value : α} {n : Nat}
    (h : read c rest = some (value, n)) :
    tokens (pieces read (c :: rest)) = value :: tokens (pieces read (rest.drop n)) := by
  rw [pieces_of_some h]
  rfl

theorem tokens_pieces_of_none {c : Char} {rest : List Char} (h : read c rest = none) :
    tokens (pieces read (c :: rest)) = tokens (pieces read rest) := by
  rw [pieces_of_none h]
  rfl

/-- Induction over a text in the way it is cut. -/
theorem cutInduction (read : Char → List Char → Option (α × Nat)) {P : List Char → Prop}
    (nil : P []) (plain : ∀ c rest, read c rest = none → P rest → P (c :: rest))
    (token : ∀ c rest value n, read c rest = some (value, n) → P (rest.drop n) → P (c :: rest))
    (s : List Char) : P s :=
  match s with
  | [] => nil
  | c :: rest =>
    match h : read c rest with
    | none => plain c rest h (cutInduction read nil plain token rest)
    | some (value, n) => token c rest value n h (cutInduction read nil plain token (rest.drop n))
termination_by s.length
decreasing_by
  · simp
  · simp only [List.length_drop, List.length_cons]
    omega

/-- **A token can be read at some place of the text.** -/
theorem exists_of_mem_tokens {s : List Char} {value : α} (h : value ∈ tokens (pieces read s)) :
    ∃ c rest n, c :: rest <:+ s ∧ read c rest = some (value, n) := by
  induction s using cutInduction read with
  | nil => cases h
  | plain c rest hr ih =>
    rw [tokens_pieces_of_none hr] at h
    obtain ⟨d, more, n, hs, hd⟩ := ih h
    exact ⟨d, more, n, hs.trans (List.suffix_cons c rest), hd⟩
  | token c rest value' n hr ih =>
    rw [tokens_pieces_of_some hr] at h
    rcases List.mem_cons.mp h with rfl | h
    · exact ⟨c, rest, n, List.suffix_rfl, hr⟩
    · obtain ⟨d, more, k, hs, hd⟩ := ih h
      exact ⟨d, more, k, hs.trans ((List.drop_suffix n rest).trans (List.suffix_cons c rest)), hd⟩

/-- No token starts inside of another one: none can be read at a place that lies inside. -/
def Unhidden (read : Char → List Char → Option (α × Nat)) : Prop :=
  ∀ c front d more value n, read c (front ++ d :: more) = some (value, n) → front.length < n →
    read d more = none

/-- Tokens hide no others if no token starts with a character that stands inside of one. -/
theorem unhidden_of_chars (h : ∀ c rest value n, read c rest = some (value, n) →
    ∀ d ∈ rest.take n, ∀ more, read d more = none) : Unhidden read := by
  intro c front d more value n hr hlt
  refine h c _ value n hr d ?_ more
  rw [List.take_append, List.mem_append]
  obtain ⟨k, hk⟩ := Nat.exists_eq_add_of_lt hlt
  refine Or.inr ?_
  rw [hk, Nat.add_assoc, Nat.add_sub_cancel_left, List.take_succ_cons]
  exact List.mem_cons_self

/-- A place of a text lies behind some of its characters or in front of the last of them. -/
theorem suffix_drop_or_inside {c : Char} {rest s : List Char} (h : c :: rest <:+ s) (n : Nat) :
    c :: rest <:+ s.drop n ∨ ∃ front, s = front ++ c :: rest ∧ front.length < n := by
  obtain ⟨front, rfl⟩ := h
  rcases Nat.lt_or_ge front.length n with hlt | hge
  · exact Or.inr ⟨front, rfl, hlt⟩
  · refine Or.inl ?_
    rw [List.drop_append_of_le_length hge]
    exact List.suffix_append _ _

/-- **If tokens hide no others, what can be read at a place of a text is a token of it.** -/
theorem mem_tokens_of_suffix (hu : Unhidden read) {s : List Char} {c : Char} {rest : List Char}
    {value : α} {n : Nat} (hs : c :: rest <:+ s) (hr : read c rest = some (value, n)) :
    value ∈ tokens (pieces read s) := by
  induction s using cutInduction read with
  | nil => cases List.suffix_nil.mp hs
  | plain d s hd ih =>
    rw [tokens_pieces_of_none hd]
    rcases List.suffix_cons_iff.mp hs with heq | hs
    · cases heq
      rw [hr] at hd
      cases hd
    · exact ih hs
  | token d s value' k hd ih =>
    rw [tokens_pieces_of_some hd]
    rcases List.suffix_cons_iff.mp hs with heq | hs
    · cases heq
      cases hr.symm.trans hd
      exact List.mem_cons_self
    · rcases suffix_drop_or_inside hs k with hs | ⟨front, rfl, hlt⟩
      · exact List.mem_cons_of_mem _ (ih hs)
      · rw [hu d front c rest value' k hd hlt] at hr
        cases hr

/-- The tokens of a text are what can be read at its places, if tokens hide no others. -/
theorem mem_tokens_iff (hu : Unhidden read) {s : List Char} {value : α} :
    value ∈ tokens (pieces read s) ↔
      ∃ c rest n, c :: rest <:+ s ∧ read c rest = some (value, n) :=
  ⟨exists_of_mem_tokens, fun ⟨_, _, _, hs, hr⟩ => mem_tokens_of_suffix hu hs hr⟩

end Runbook.Text
