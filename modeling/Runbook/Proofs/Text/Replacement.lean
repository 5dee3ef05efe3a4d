import Mathlib.Data.List.Basic
import Runbook.Proofs.Text.Pieces

/-!
# Replacing a pattern in a text

Every occurrence of a pattern is replaced in one pass from left to right. What is read off such a pass:

* `Replaced`: a text and what it becomes; `replaced_iff`: this is what `replaceAll` does;
* `Severed`: no occurrence of the pattern reaches over the place between two texts; `Replaced.append`: then
  each of them is replaced on its own;
* `Replaced.absent`, `Replaced.infix_of_free`: a replacement that shares no character with the start of
  the pattern leaves no occurrence, and what holds nothing of the replacement was there before;
* **`Replaced.exists_stretch`**: what stands in a text from which the pattern was taken out is what a stretch of
  the text becomes; `Replaced.infix_of_severed`: and the other way around, for a stretch that is severed;
* `Replaced.countP_le`, `Replaced.countP_lt`, `Replaced.length_lt`: how many characters are left.
-/

namespace Runbook.Text

/-- **A text with every occurrence of a pattern replaced**, from left to right and without overlap. -/
inductive Replaced (pattern replacement : List Char) : List Char → List Char → Prop
  | nil : Replaced pattern replacement [] []
  | found {s out : List Char} (later : Replaced pattern replacement s out) :
      Replaced pattern replacement (pattern ++ s) (replacement ++ out)
  | kept {c : Char} {s out : List Char} (h : ¬ pattern <+: c :: s)
      (later : Replaced pattern replacement s out) : Replaced pattern replacement (c :: s) (c :: out)

/-- No occurrence of a pattern reaches over the place between two texts. -/
def Severed (pattern a b : List Char) : Prop :=
  ∀ u v, pattern = u ++ v → u ≠ [] → v ≠ [] → u <:+ a → ¬ v <+: b

variable {p r s t a b out out' : List Char}

/-! ## 1. One pass -/

/-- The test for a pattern at a place, as `replaceAll` makes it. -/
theorem patternAt_iff {d c : Char} {ps rest : List Char} :
    (c = d && startsWith ps rest) = true ↔ d :: ps <+: c :: rest := by
  rw [Bool.and_eq_true, decide_eq_true_eq, startsWith_iff, List.cons_prefix_cons]
  exact and_congr_left fun _ => eq_comm

theorem replaceAll_found (hp : p ≠ []) (s : List Char) :
    replaceAll p r (p ++ s) = r ++ replaceAll p r s := by
  obtain ⟨d, ps, rfl⟩ := List.exists_cons_of_ne_nil hp
  have hread : (if d = d && startsWith ps (ps ++ s) then some ((), ps.length) else none) =
      some ((), ps.length) := if_pos (patternAt_iff.mpr (List.prefix_append (d :: ps) s))
  unfold replaceAll
  dsimp only
  rw [List.cons_append, pieces_of_some hread, List.flatMap_cons, List.drop_left]

theorem replaceAll_kept {c : Char} (h : ¬ p <+: c :: s) :
    replaceAll p r (c :: s) = c :: replaceAll p r s := by
  obtain ⟨d, ps, rfl⟩ := List.exists_cons_of_ne_nil fun hp : p = [] => h (hp ▸ List.nil_prefix)
  have hread : (if c = d && startsWith ps s then some ((), ps.length) else none) = none :=
    if_neg fun hc => h (patternAt_iff.mp hc)
  unfold replaceAll
  dsimp only
  rw [pieces_of_none hread]
  rfl

theorem replaced_replaceAll (hp : p ≠ []) (s : List Char) : Replaced p r s (replaceAll p r s) := by
  -- by the length of the text, as a pass goes on behind a whole occurrence
  suffices h : ∀ n, ∀ s : List Char, s.length ≤ n → Replaced p r s (replaceAll p r s) from
    h s.length s (Nat.le_refl _)
  intro n
  induction n with
  | zero =>
    intro s hs
    obtain rfl : s = [] := List.length_eq_zero_iff.mp (Nat.le_zero.mp hs)
    obtain ⟨d, ps, rfl⟩ := List.exists_cons_of_ne_nil hp
    exact .nil
  | succ n ih =>
    intro s hs
    by_cases h : p <+: s
    · obtain ⟨rest, rfl⟩ := h
      have hlt : 0 < p.length := List.length_pos_iff.mpr hp
      rw [List.length_append] at hs
      rw [replaceAll_found hp]
      exact .found (ih rest (by omega))
    · cases s with
      | nil =>
        obtain ⟨d, ps, rfl⟩ := List.exists_cons_of_ne_nil hp
        exact .nil
      | cons c rest =>
        rw [replaceAll_kept h]
        exact .kept h (ih rest (by simpa using hs))

/-- **What `replaceAll` does.** -/
theorem replaced_iff (hp : p ≠ []) : Replaced p r s out ↔ replaceAll p r s = out := by
  constructor
  · intro h
    induction h with
    | nil =>
      obtain ⟨d, ps, rfl⟩ := List.exists_cons_of_ne_nil hp
      rfl
    | found _ ih => rw [replaceAll_found hp, ih]
    | kept hc _ ih => rw [replaceAll_kept hc, ih]
  · intro h
    exact h ▸ replaced_replaceAll hp s

theorem Replaced.unique (hp : p ≠ []) (h : Replaced p r s out) (h' : Replaced p r s out') :
    out = out' := by
  rw [replaced_iff hp] at h h'
  exact h.symm.trans h'

/-- A text without the pattern stays as it is. -/
theorem replaced_of_absent (h : ¬ p <:+: s) : Replaced p r s s := by
  induction s with
  | nil => exact .nil
  | cons c s ih =>
    have hhere : ¬ p <+: c :: s := fun hp => h hp.isInfix
    have hlater : ¬ p <:+: s := fun hp => h (List.infix_cons hp)
    exact .kept hhere (ih hlater)

/-! ## 2. Where a text can be cut -/

/-- A place is severed in front of a character that stands nowhere in the pattern but at its start. -/
theorem severed_of_head (h : ∀ c ∈ b.head?, c ∉ p.tail) : Severed p a b := by
  intro u v hp hu hv _ hb
  obtain ⟨c, v, rfl⟩ := List.exists_cons_of_ne_nil hv
  obtain ⟨d, u, rfl⟩ := List.exists_cons_of_ne_nil hu
  obtain ⟨rest, rfl⟩ := hb
  have hc : c ∉ p.tail := h c rfl
  rw [hp] at hc
  simp at hc

/-- A place is severed behind a text that ends with no start of the pattern. -/
theorem severed_of_suffix (h : ∀ u v, p = u ++ v → u ≠ [] → v ≠ [] → ¬ u <:+ a) : Severed p a b :=
  fun u v hp hu hv ha => absurd ha (h u v hp hu hv)

namespace Replaced

/-- **On both sides of a place that is severed a text is replaced on its own.** -/
theorem append (ha : Replaced p r a out) (hb : Replaced p r b out') (hs : Severed p a b) :
    Replaced p r (a ++ b) (out ++ out') := by
  induction ha with
  | nil => exact hb
  | @found s out _ ih =>
    have hs' : Severed p s b := fun u v hp hu hv hus =>
      hs u v hp hu hv (hus.trans (List.suffix_append p s))
    have hlater := ih hs'
    rw [List.append_assoc, List.append_assoc]
    exact .found hlater
  | @kept c s out hc _ ih =>
    have hs' : Severed p s b := fun u v hp hu hv hus =>
      hs u v hp hu hv (hus.trans (List.suffix_cons c s))
    refine .kept (fun hp => ?_) (ih hs')
    obtain ⟨rest, hrest⟩ := hp
    have hboth : p ++ rest = (c :: s) ++ b := hrest
    rcases List.append_eq_append_iff.mp hboth with ⟨v, hv, hbv⟩ | ⟨v, hv, hbv⟩
    · exact hc ⟨v, hv.symm⟩
    · by_cases hne : v = []
      · rw [hne, List.append_nil] at hv
        exact hc (hv ▸ List.prefix_rfl)
      · exact hs (c :: s) v hv (List.cons_ne_nil c s) hne List.suffix_rfl ⟨rest, hbv.symm⟩

/-- **What a severed stretch of a text becomes stands in what the text becomes.** -/
theorem infix_of_severed (hp : p ≠ []) (h : Replaced p r (a ++ (t ++ b)) out)
    (ht : Replaced p r t out') (hfront : Severed p a (t ++ b)) (hback : Severed p t b) :
    ∃ a' b', out = a' ++ (out' ++ b') := by
  have ha := replaced_replaceAll (r := r) hp a
  have hb := replaced_replaceAll (r := r) hp b
  exact ⟨_, _, h.unique hp (ha.append (ht.append hb hback) hfront)⟩

/-- A text at the end stays there, if it does not hold the pattern and the place before it is severed. -/
theorem suffix_of_severed (hp : p ≠ []) {u : List Char} (h : Replaced p r s out) (hu : u <:+ s)
    (hfree : ¬ p <:+: u) (hs : ∀ a, Severed p a u) : u <:+ out := by
  obtain ⟨front, rfl⟩ := hu
  have hfront := replaced_replaceAll (r := r) hp front
  have heq := h.unique hp (hfront.append (replaced_of_absent hfree) (hs front))
  exact ⟨_, heq.symm⟩

/-! ## 3. What a text becomes -/

/-- The first character of a text is the first one of what it becomes, or of the pattern. -/
theorem head?_cases (hp : p ≠ []) (h : Replaced p r s out) :
    s.head? = out.head? ∨ s.head? = p.head? := by
  cases h with
  | nil => exact .inl rfl
  | found => exact .inr (List.head?_append_of_ne_nil p hp)
  | kept => exact .inl rfl

theorem mem_cases (h : Replaced p [] s out) {c : Char} (hc : c ∈ s) : c ∈ out ∨ c ∈ p := by
  induction h with
  | nil => cases hc
  | found _ ih =>
    rcases List.mem_append.mp hc with hc | hc
    · exact .inr hc
    · exact ih hc
  | kept _ _ ih =>
    rcases List.mem_cons.mp hc with heq | hc
    · exact .inl (List.mem_cons.mpr (.inl heq))
    · exact (ih hc).imp_left (List.mem_cons_of_mem _)

theorem exists_start (h : Replaced p [] s out) {f : List Char} (hf : f <+: out) :
    ∃ t, t <+: s ∧ Replaced p [] t f := by
  induction h generalizing f with
  | nil =>
    obtain rfl := List.prefix_nil.mp hf
    exact ⟨[], List.prefix_rfl, .nil⟩
  | found _ ih =>
    obtain ⟨t, ht, hr⟩ := ih hf
    exact ⟨p ++ t, (List.prefix_append_right_inj p).mpr ht, .found hr⟩
  | @kept c s out hc _ ih =>
    cases f with
    | nil => exact ⟨[], List.nil_prefix, .nil⟩
    | cons d f =>
      obtain ⟨rfl, htail⟩ := List.cons_prefix_cons.mp hf
      obtain ⟨t, ht, hr⟩ := ih htail
      have hds : d :: t <+: d :: s := List.cons_prefix_cons.mpr ⟨rfl, ht⟩
      exact ⟨d :: t, hds, .kept (fun hp => hc (hp.trans hds)) hr⟩

/-- **What stands in a text from which a pattern was taken out is what a stretch of the text becomes.** -/
theorem exists_stretch (h : Replaced p [] s out) {f : List Char} (hf : f <:+: out) :
    ∃ t, t <:+: s ∧ Replaced p [] t f := by
  induction h with
  | nil =>
    obtain rfl := List.infix_nil.mp hf
    exact ⟨[], List.infix_rfl, .nil⟩
  | found _ ih =>
    obtain ⟨t, ht, hr⟩ := ih hf
    exact ⟨t, ht.trans (List.suffix_append p _).isInfix, hr⟩
  | @kept c s out hc later ih =>
    rcases List.infix_cons_iff.mp hf with hf | hf
    · obtain ⟨t, ht, hr⟩ := (kept hc later).exists_start hf
      exact ⟨t, ht.isInfix, hr⟩
    · obtain ⟨t, ht, hr⟩ := ih hf
      exact ⟨t, List.infix_cons ht, hr⟩

/-! ## 4. Replacements that are told apart -/

variable {e : Char} {v : List Char}

/-- What holds no start of the replacement was there before, at the start of a text. -/
theorem prefix_of_free (h : Replaced p (e :: r) s out) (he : e ∉ v) (hv : v <+: out) : v <+: s := by
  induction h generalizing v with
  | nil => exact hv
  | found _ _ =>
    cases v with
    | nil => exact List.nil_prefix
    | cons d v =>
      obtain ⟨rfl, -⟩ := List.cons_prefix_cons.mp hv
      exact absurd List.mem_cons_self he
  | @kept c s out _ _ ih =>
    cases v with
    | nil => exact List.nil_prefix
    | cons d v =>
      obtain ⟨hd, hv⟩ := List.cons_prefix_cons.mp hv
      exact List.cons_prefix_cons.mpr ⟨hd, ih (fun h => he (List.mem_cons_of_mem d h)) hv⟩

/-- What starts in no part of a text stands behind it. -/
theorem infix_of_not_mem {c : Char} (hc : c ∉ a) (h : c :: v <:+: a ++ b) : c :: v <:+: b := by
  induction a with
  | nil => exact h
  | cons d a ih =>
    obtain ⟨hd, ha⟩ := List.ne_and_not_mem_of_not_mem_cons hc
    rcases List.infix_cons_iff.mp h with h | h
    · exact absurd (List.cons_prefix_cons.mp h).1 hd
    · exact ih ha h

/-- **What holds no start of the replacement, and starts in no part of it, was there before.** -/
theorem infix_of_free {c : Char} (h : Replaced p (e :: r) s out) (he : e ∉ c :: v) (hc : c ∉ r)
    (hv : c :: v <:+: out) : c :: v <:+: s := by
  have hr : c ∉ e :: r := List.not_mem_cons_of_ne_of_not_mem
    (List.ne_and_not_mem_of_not_mem_cons he).1.symm hc
  induction h with
  | nil => exact hv
  | found _ ih => exact (ih (infix_of_not_mem hr hv)).trans (List.suffix_append p _).isInfix
  | @kept d s out hd later ih =>
    rcases List.infix_cons_iff.mp hv with hhere | hlater
    · exact ((kept hd later).prefix_of_free he hhere).isInfix
    · exact List.infix_cons (ih hlater)

/-- **No occurrence of a pattern is left**, if the replacement shares no character with its start and
starts with none of its characters. -/
theorem absent {c : Char} {ps : List Char} (h : Replaced (c :: ps) (e :: r) s out)
    (he : e ∉ c :: ps) (hc : c ∉ r) : ¬ c :: ps <:+: out := by
  have hr : c ∉ e :: r := List.not_mem_cons_of_ne_of_not_mem
    (List.ne_and_not_mem_of_not_mem_cons he).1.symm hc
  induction h with
  | nil => exact fun hp => absurd (List.infix_nil.mp hp) (List.cons_ne_nil c ps)
  | found _ ih => exact fun hp => ih (infix_of_not_mem hr hp)
  | @kept d s out hd later ih =>
    intro hp
    rcases List.infix_cons_iff.mp hp with hhere | hlater
    · exact hd ((kept hd later).prefix_of_free he hhere)
    · exact ih hlater

/-! ## 5. How often a character is left -/

variable {q : Char → Bool}

theorem countP_le (h : Replaced p r s out) (hq : r.countP q ≤ p.countP q) :
    out.countP q ≤ s.countP q := by
  induction h with
  | nil => exact Nat.le_refl _
  | found _ ih =>
    rw [List.countP_append, List.countP_append]
    omega
  | kept _ _ ih =>
    rw [List.countP_cons, List.countP_cons]
    omega

/-- **Of characters that a replacement has fewer of, fewer are left**, if anything was replaced. -/
theorem countP_lt (h : Replaced p r s out) (hq : r.countP q < p.countP q) (hp : p <:+: s) :
    out.countP q < s.countP q := by
  induction h with
  | nil =>
    obtain rfl := List.infix_nil.mp hp
    cases hq
  | found later _ =>
    have hle := later.countP_le (Nat.le_of_lt hq)
    rw [List.countP_append, List.countP_append]
    omega
  | kept hd _ ih =>
    have hlater := ih ((List.infix_cons_iff.mp hp).resolve_left hd)
    rw [List.countP_cons, List.countP_cons]
    omega

/-- A text gets shorter where a shorter replacement is made. -/
theorem length_lt (h : Replaced p r s out) (hlength : r.length < p.length) (hp : p <:+: s) :
    out.length < s.length := by
  rw [← List.countP_true] at hlength ⊢
  exact h.countP_lt hlength hp

end Replaced

end Runbook.Text
