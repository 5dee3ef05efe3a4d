/-!
# Computations that may fail

A computation in steps has a result if every step has one:

* `bind_eq_ok`: two steps, one after the other; `ok_of_bind`: the same from left to right;
* `map_eq_ok`: a result made of another one;
* `bind_eq_error`, `map_eq_error`: the step that has none;
* `exists_of_mapM_ok`, `exists_of_mapM_error`, `mapM_fails`: a step for each item of a list, and the
  same with `filterMapM`;
* `FailsBy`: what holds of every error that a computation can have.
-/

namespace Runbook

variable {ε α β : Type} {x : Except ε α} {f : α → Except ε β}

theorem bind_eq_ok {b : β} : (x >>= f) = .ok b ↔ ∃ a, x = .ok a ∧ f a = .ok b := by
  cases x with
  | error e => simp [bind, Except.bind]
  | ok a => simp [bind, Except.bind]

theorem ok_of_bind {b : β} (h : (x >>= f) = .ok b) : ∃ a, x = .ok a ∧ f a = .ok b :=
  bind_eq_ok.mp h

theorem map_eq_ok {g : α → β} {b : β} : x.map g = .ok b ↔ ∃ a, x = .ok a ∧ g a = b := by
  cases x <;> simp [Except.map]

theorem bind_eq_error {e : ε} :
    (x >>= f) = .error e ↔ x = .error e ∨ ∃ a, x = .ok a ∧ f a = .error e := by
  cases x with
  | error e' => simp [bind, Except.bind]
  | ok a => simp [bind, Except.bind]

theorem map_eq_error {g : α → β} {e : ε} : x.map g = .error e ↔ x = .error e := by
  cases x <;> simp [Except.map]

variable {items : List α} {e : ε}

/-- What is made of a list is made of its items. -/
theorem exists_of_mapM_ok {made : List β} (h : items.mapM f = .ok made) {b : β} (hb : b ∈ made) :
    ∃ a ∈ items, f a = .ok b := by
  induction items generalizing made with
  | nil =>
    cases h
    cases hb
  | cons a rest ih =>
    rw [List.mapM_cons] at h
    obtain ⟨first, hfirst, h⟩ := bind_eq_ok.mp h
    obtain ⟨others, hothers, h⟩ := bind_eq_ok.mp h
    cases h
    rcases List.mem_cons.mp hb with rfl | hb
    · exact ⟨a, List.mem_cons_self, hfirst⟩
    · obtain ⟨a', ha', hf⟩ := ih hothers hb
      exact ⟨a', List.mem_cons_of_mem _ ha', hf⟩

/-- If nothing is made of a list, some item is why. -/
theorem exists_of_mapM_error (h : items.mapM f = .error e) : ∃ a ∈ items, f a = .error e := by
  induction items with
  | nil => cases h
  | cons a rest ih =>
    rw [List.mapM_cons] at h
    rcases bind_eq_error.mp h with h | ⟨first, -, h⟩
    · exact ⟨a, List.mem_cons_self, h⟩
    · rcases bind_eq_error.mp h with h | ⟨others, -, h⟩
      · obtain ⟨a', ha', hf⟩ := ih h
        exact ⟨a', List.mem_cons_of_mem _ ha', hf⟩
      · cases h

/-- Nothing is made of a list if nothing is made of one of its items. -/
theorem mapM_fails {a : α} (ha : a ∈ items) (h : f a = .error e) :
    ∃ e', items.mapM f = .error e' := by
  cases hm : items.mapM f with
  | error e' => exact ⟨e', rfl⟩
  | ok made =>
    exfalso
    induction items generalizing made with
    | nil => cases ha
    | cons a' rest ih =>
      rw [List.mapM_cons] at hm
      obtain ⟨first, hfirst, hm⟩ := bind_eq_ok.mp hm
      obtain ⟨others, hothers, -⟩ := bind_eq_ok.mp hm
      rcases List.mem_cons.mp ha with rfl | ha
      · cases h.symm.trans hfirst
      · exact ih ha others hothers

variable {g : α → Except ε (Option β)}

theorem exists_of_filterMapM_error (h : items.filterMapM g = .error e) :
    ∃ a ∈ items, g a = .error e := by
  induction items with
  | nil => cases h
  | cons a rest ih =>
    have later : rest.filterMapM g = .error e → ∃ a' ∈ a :: rest, g a' = .error e := by
      intro h
      obtain ⟨a', ha', hg⟩ := ih h
      exact ⟨a', List.mem_cons_of_mem _ ha', hg⟩
    rw [List.filterMapM_cons] at h
    rcases bind_eq_error.mp h with h | ⟨first, -, h⟩
    · exact ⟨a, List.mem_cons_self, h⟩
    · cases first with
      | none => exact later h
      | some b =>
        rcases bind_eq_error.mp h with h | ⟨others, -, h⟩
        · exact later h
        · cases h

theorem filterMapM_fails {a : α} (ha : a ∈ items) (h : g a = .error e) :
    ∃ e', items.filterMapM g = .error e' := by
  cases hm : items.filterMapM g with
  | error e' => exact ⟨e', rfl⟩
  | ok made =>
    exfalso
    induction items generalizing made with
    | nil => cases ha
    | cons a' rest ih =>
      rw [List.filterMapM_cons] at hm
      obtain ⟨first, hfirst, hm⟩ := bind_eq_ok.mp hm
      rcases List.mem_cons.mp ha with rfl | ha
      · cases h.symm.trans hfirst
      · cases first with
        | none => exact ih ha made hm
        | some b =>
          obtain ⟨others, hothers, -⟩ := bind_eq_ok.mp hm
          exact ih ha others hothers

/-- Whatever a computation fails with is as `P` says. -/
def FailsBy (P : ε → Prop) (x : Except ε α) : Prop := ∀ e, x = .error e → P e

namespace FailsBy

variable {P Q : ε → Prop}

theorem ok {a : α} : FailsBy P (.ok a : Except ε α) := nofun

theorem pure {a : α} : FailsBy P (Pure.pure a : Except ε α) := nofun

theorem error (h : P e) : FailsBy P (.error e : Except ε α) := by
  rintro _ ⟨⟩
  exact h

theorem throw (h : P e) : FailsBy P (MonadExcept.throw e : Except ε α) := error h

theorem bind (h : FailsBy P x) (hf : ∀ a, x = .ok a → FailsBy P (f a)) : FailsBy P (x >>= f) := by
  intro e he
  rcases bind_eq_error.mp he with he | ⟨a, ha, he⟩
  · exact h e he
  · exact hf a ha e he

theorem map {g : α → β} (h : FailsBy P x) : FailsBy P (x.map g) :=
  fun e he => h e (map_eq_error.mp he)

theorem imp (h : FailsBy P x) (hp : ∀ e, P e → Q e) : FailsBy Q x :=
  fun e he => hp e (h e he)

end FailsBy

end Runbook
