/-!
# Maps that keep the order of their keys

An association list in which a key keeps the place it was first put at:

* `Assoc.get?`, `Assoc.contains`, `Assoc.keys`: reading;
* `Assoc.put`: a new value for a key, at the key's old place or at the end;
* `Assoc.overlay`: every entry of a second map put into a first one;
* `Assoc.ofPairs`: a map from pairs, of which the last one with a key counts.

The small lemmas say what each of them does to `get?`.
-/

namespace Runbook

/-- A map as the list of its entries, in the order in which their keys came. -/
abbrev Assoc (κ : Type) (α : Type) := List (κ × α)

namespace Assoc

variable {κ α : Type} [DecidableEq κ]

/-- The value under a key. -/
def get? : Assoc κ α → κ → Option α
  | [], _ => none
  | (k, v) :: rest, key => if k = key then some v else get? rest key

/-- Whether the key has a value. -/
def contains (a : Assoc κ α) (key : κ) : Bool :=
  (get? a key).isSome

/-- The keys, in their order. -/
def keys (a : Assoc κ α) : List κ :=
  a.map (·.1)

/-- The map with a new value under the key. -/
def put : Assoc κ α → κ → α → Assoc κ α
  | [], key, value => [(key, value)]
  | (k, v) :: rest, key, value =>
    if k = key then (k, value) :: rest else (k, v) :: put rest key value

/-- The map with every entry of `upper` put into it, from left to right. -/
def overlay (a upper : Assoc κ α) : Assoc κ α :=
  upper.foldl (fun m entry => put m entry.1 entry.2) a

/-- The map of the given pairs; the last pair with a key gives its value. -/
def ofPairs (pairs : List (κ × α)) : Assoc κ α :=
  overlay [] pairs

/-! ## What the operations do to `get?` -/

@[simp] theorem get?_nil (key : κ) : get? ([] : Assoc κ α) key = none := rfl

theorem get?_put (a : Assoc κ α) (key : κ) (value : α) (other : κ) :
    get? (put a key value) other = if key = other then some value else get? a other := by
  induction a with
  | nil => simp [put, get?]
  | cons entry rest ih =>
    obtain ⟨k, v⟩ := entry
    by_cases h : k = key
    · subst h
      by_cases ho : k = other <;> simp [put, get?, ho]
    · by_cases ho : k = other
      · subst ho
        simp [put, get?, h, Ne.symm h]
      · simp [put, get?, h, ho, ih]

@[simp] theorem get?_put_self (a : Assoc κ α) (key : κ) (value : α) :
    get? (put a key value) key = some value := by
  simp [get?_put]

theorem get?_append (a b : Assoc κ α) (key : κ) :
    get? (a ++ b) key = (get? a key).or (get? b key) := by
  induction a with
  | nil => rfl
  | cons entry rest ih =>
    obtain ⟨k, v⟩ := entry
    by_cases h : k = key <;> simp [get?, h, ih]

theorem get?_put_of_ne (a : Assoc κ α) {key other : κ} (value : α) (h : key ≠ other) :
    get? (put a key value) other = get? a other := by
  simp [get?_put, h]

theorem mem_of_get? {a : Assoc κ α} {key : κ} {value : α} (h : get? a key = some value) :
    (key, value) ∈ a := by
  induction a with
  | nil => cases h
  | cons entry rest ih =>
    obtain ⟨k, v⟩ := entry
    by_cases hk : k = key
    · simp only [get?, hk, if_true, Option.some.injEq] at h
      rw [hk, h]
      exact List.mem_cons_self
    · simp only [get?, hk, if_false] at h
      exact List.mem_cons_of_mem _ (ih h)

theorem overlay_cons (a : Assoc κ α) (key : κ) (value : α) (upper : Assoc κ α) :
    overlay a ((key, value) :: upper) = overlay (put a key value) upper := rfl

theorem mem_keys_iff {a : Assoc κ α} {key : κ} : key ∈ keys a ↔ (get? a key).isSome := by
  induction a with
  | nil => simp [keys]
  | cons entry rest ih =>
    obtain ⟨k, v⟩ := entry
    by_cases h : k = key
    · simp [keys, get?, h]
    · simp only [keys, List.map_cons, List.mem_cons, get?, h, if_false]
      rw [← ih]
      simp [keys, Ne.symm h]

theorem keys_put_of_mem {a : Assoc κ α} {key : κ} (value : α) (h : key ∈ keys a) :
    keys (put a key value) = keys a := by
  induction a with
  | nil => simp [keys] at h
  | cons entry rest ih =>
    obtain ⟨k, v⟩ := entry
    by_cases hk : k = key
    · simp [put, keys, hk]
    · have hr : key ∈ keys rest := by
        simpa [keys, Ne.symm hk] using h
      have := ih hr
      simp only [keys] at this
      simp [put, keys, hk, this]

theorem keys_put_of_not_mem {a : Assoc κ α} {key : κ} (value : α) (h : key ∉ keys a) :
    keys (put a key value) = keys a ++ [key] := by
  induction a with
  | nil => simp [keys, put]
  | cons entry rest ih =>
    obtain ⟨k, v⟩ := entry
    have hk : k ≠ key := by
      intro e
      exact h (by simp [keys, e])
    have hr : key ∉ keys rest := fun m => h (by
      simp only [keys, List.map_cons, List.mem_cons]
      exact Or.inr m)
    have := ih hr
    simp only [keys] at this
    simp [put, keys, hk, this]

theorem nodup_keys_put {a : Assoc κ α} (h : (keys a).Nodup) (key : κ) (value : α) :
    (keys (put a key value)).Nodup := by
  by_cases hk : key ∈ keys a
  · rw [keys_put_of_mem value hk]
    exact h
  · rw [keys_put_of_not_mem value hk, List.nodup_append]
    refine ⟨h, by simp, fun k hm other ho => ?_⟩
    rintro rfl
    exact hk (List.mem_singleton.mp ho ▸ hm)

theorem nodup_keys_overlay {a : Assoc κ α} (h : (keys a).Nodup) (upper : Assoc κ α) :
    (keys (overlay a upper)).Nodup := by
  induction upper generalizing a with
  | nil => exact h
  | cons entry rest ih => exact ih (nodup_keys_put h entry.1 entry.2)

/-- **A map of pairs has every key once.** -/
theorem nodup_keys_ofPairs (pairs : List (κ × α)) : (keys (ofPairs pairs)).Nodup :=
  nodup_keys_overlay (show (keys ([] : Assoc κ α)).Nodup from List.nodup_nil) pairs

theorem put_of_not_mem {a : Assoc κ α} {key : κ} (value : α) (h : key ∉ keys a) :
    put a key value = a ++ [(key, value)] := by
  induction a with
  | nil => rfl
  | cons entry rest ih =>
    obtain ⟨k, v⟩ := entry
    simp only [keys, List.map_cons, List.mem_cons, not_or] at h
    rw [put, if_neg (Ne.symm h.1), ih h.2, List.cons_append]

theorem overlay_of_nodup {a upper : Assoc κ α} (h : (keys (a ++ upper)).Nodup) :
    overlay a upper = a ++ upper := by
  induction upper generalizing a with
  | nil => rw [List.append_nil, overlay, List.foldl_nil]
  | cons entry rest ih =>
    obtain ⟨k, v⟩ := entry
    have hk : k ∉ keys a := by
      intro hm
      rw [keys, List.map_append, List.nodup_append] at h
      exact h.2.2 k hm k (by simp) rfl
    have hcut : a ++ (k, v) :: rest = (a ++ [(k, v)]) ++ rest := by simp
    rw [overlay_cons, put_of_not_mem v hk, hcut, ih (hcut ▸ h)]

theorem mem_of_mem_put {a : Assoc κ α} {key : κ} {value : α} {entry : κ × α}
    (h : entry ∈ put a key value) : entry = (key, value) ∨ entry ∈ a := by
  induction a with
  | nil => exact Or.inl (List.mem_singleton.mp h)
  | cons first rest ih =>
    obtain ⟨k, v⟩ := first
    by_cases hk : k = key
    · rw [put, if_pos hk, hk, List.mem_cons] at h
      exact h.imp id (List.mem_cons_of_mem _)
    · rw [put, if_neg hk, List.mem_cons] at h
      rcases h with h | h
      · exact Or.inr (h ▸ List.mem_cons_self)
      · exact (ih h).imp id (List.mem_cons_of_mem _)

theorem mem_of_mem_overlay {a upper : Assoc κ α} {entry : κ × α} (h : entry ∈ overlay a upper) :
    entry ∈ a ∨ entry ∈ upper := by
  induction upper generalizing a with
  | nil => exact Or.inl h
  | cons first rest ih =>
    rcases ih h with h | h
    · rcases mem_of_mem_put h with h | h
      · exact Or.inr (h ▸ List.mem_cons_self)
      · exact Or.inl h
    · exact Or.inr (List.mem_cons_of_mem _ h)

/-- A map of pairs holds those pairs only. -/
theorem mem_of_mem_ofPairs {pairs : List (κ × α)} {entry : κ × α} (h : entry ∈ ofPairs pairs) :
    entry ∈ pairs :=
  (mem_of_mem_overlay h).resolve_left List.not_mem_nil

/-- Pairs with different keys are the map that they make. -/
theorem ofPairs_of_nodup {pairs : List (κ × α)} (h : (keys pairs).Nodup) :
    ofPairs pairs = pairs := by
  rw [ofPairs, overlay_of_nodup (by simpa using h), List.nil_append]

end Assoc

end Runbook
