import Mathlib.Data.Finset.Card
import Mathlib.Logic.Relation
import Runbook.Definition.Document
import Runbook.Proofs.Definition.Refusal
import Runbook.Proofs.Fallible

/-!
# Definitions in documents

A document is no tree: a block of steps may come up inside itself. What becomes of its steps is said
here by the blocks that lie in each other:

* `Document.Carries`, `Document.Inner`: the blocks that a step carries, and those that lie in a block;
* `Document.Unending`: a block from which one gets to cases that are a single value, or to a block that
  lies in itself;
* **`blockValue_fails_iff`**: the blocks that no tree is made of are the unending ones;
* `listable_blockValue`: a tree that is made has cases that can be gone through;
* **`Workflow.ofDocument_unreported_iff`**: the documents whose error does not say what is wrong.
-/

namespace Runbook

/-! ## 1. Blocks in a document -/

namespace Document

/-- The number under a text key of a map. -/
def entry? (d : Document) (n : Nat) (name : String) : Option Nat :=
  match d.cell n with
  | .map fields => Value.lookup name fields
  | _ => none

theorem entry?_eq_some {d : Document} {n m : Nat} {name : String} : d.entry? n name = some m ↔
    ∃ fields, d.cell n = .map fields ∧ Value.lookup name fields = some m := by
  unfold entry?
  cases d.cell n <;> simp

/-- **The blocks that a step of a document carries**, whatever its kind is. -/
inductive Carries (d : Document) (step : Nat) : Nat → Prop
  | thenBlock {payload block : Nat} (here : d.entry? step "conditional" = some payload)
      (found : d.entry? payload "then_block" = some block) : Carries d step block
  | elseBlock {payload block : Nat} (here : d.entry? step "conditional" = some payload)
      (found : d.entry? payload "else_block" = some block) : Carries d step block
  | case {payload cases entry block : Nat} {entries : List Nat}
      (here : d.entry? step "branch" = some payload)
      (listed : d.entry? payload "cases" = some cases) (items : d.cell cases = .list entries)
      (member : entry ∈ entries) (found : d.entry? entry "steps" = some block) :
      Carries d step block
  | fallback {payload block : Nat} (here : d.entry? step "branch" = some payload)
      (found : d.entry? payload "default_case" = some block) : Carries d step block
  | body {payload block : Nat} (here : d.entry? step "loop" = some payload)
      (found : d.entry? payload "steps" = some block) : Carries d step block

/-- A step with cases that are a single value. -/
def SingleCases (d : Document) (step : Nat) : Prop :=
  ∃ payload cases s, d.entry? step "branch" = some payload ∧
    d.entry? payload "cases" = some cases ∧ d.cell cases = .scalar s ∧ (Value.scalar s).IsSingle

/-- A block lies directly in another one: a step of that one carries it. -/
def Inner (d : Document) (block inner : Nat) : Prop :=
  ∃ items step, d.cell block = .list items ∧ step ∈ items ∧ d.Carries step inner

/-- A block of which a step has cases that are a single value. -/
def Clogged (d : Document) (block : Nat) : Prop :=
  ∃ items step, d.cell block = .list items ∧ step ∈ items ∧ d.SingleCases step

/-- **A block whose steps cannot be gone through to the end**: at some depth there are cases that are a
single value, or there is a block that lies in itself. -/
def Unending (d : Document) (block : Nat) : Prop :=
  ∃ inner, Relation.ReflTransGen d.Inner block inner ∧
    (d.Clogged inner ∨ Relation.TransGen d.Inner inner inner)

theorem Unending.outward {d : Document} {block inner : Nat} (h : d.Unending inner)
    (hin : d.Inner block inner) : d.Unending block := by
  obtain ⟨m, hm, hr⟩ := h
  exact ⟨m, hm.head hin, hr⟩

theorem lt_size_of_list {d : Document} {n : Nat} {items : List Nat} (h : d.cell n = .list items) :
    n < d.cells.size := by
  by_contra hn
  unfold cell at h
  rw [Array.getD_eq_getD_getElem?, Array.getElem?_eq_none (Nat.le_of_not_lt hn)] at h
  cases h

/-- What is no map in a document is none as a tree. -/
theorem value_ne_map {d : Document} {n : Nat} (h : ∀ fields, d.cell n ≠ .map fields) (depth : Nat)
    (fields : List (Scalar × Value)) : d.value depth n ≠ .map fields := by
  cases depth <;> unfold value <;> cases hc : d.cell n <;> simp_all

/-- What is no list in a document is none as a tree, or a list of pairs. -/
theorem value_of_not_list {d : Document} {n : Nat} (h : ∀ items, d.cell n ≠ .list items)
    {depth : Nat} {items : List Value} (hv : d.value depth n = .list items) :
    ∀ v ∈ items, ∃ pair, v = .list pair := by
  cases hc : d.cell n with
  | list items => exact absurd hc (h items)
  | scalar s | set members | map fields => cases depth <;> simp [value, hc] at hv
  | pairs entries =>
    intro v hmem
    cases depth with
    | zero =>
      simp only [value, hc, Value.list.injEq] at hv
      subst hv
      cases hmem
    | succ depth =>
      simp only [value, hc, Value.list.injEq] at hv
      subst hv
      obtain ⟨⟨k, w⟩, -, rfl⟩ := List.mem_map.mp hmem
      exact ⟨_, rfl⟩

end Document

namespace Definition

variable {d : Document} {fields : List (Scalar × Nat)} {e : DefinitionError} {v : Value}
  {named : List (String × (Nat → Except DefinitionError Value))}
  {block : Nat → Except DefinitionError Value}

/-! ## 2. Maps with made fields -/

/-- What becomes of a named field of a map, if the map has it. -/
def makeField (fields : List (Scalar × Nat))
    (entry : String × (Nat → Except DefinitionError Value)) :
    Except DefinitionError (Option (String × Value)) :=
  match Value.lookup entry.1 fields with
  | some n => do return some (entry.1, ← entry.2 n)
  | none => return none

/-- The fields of a map, with made values for some of them. -/
def withMade (d : Document) (made : List (String × Value)) (fields : List (Scalar × Nat)) :
    List (Scalar × Value) :=
  fields.map fun (k, n) =>
    match k with
    | .text name =>
      (k, ((made.find? fun entry => entry.1 = name).map (·.2)).getD (fieldValue d n))
    | _ => (k, fieldValue d n)

theorem lookup_withMade (made : List (String × Value)) (name : String) :
    Value.lookup name (withMade d made fields) = (Value.lookup name fields).map fun n =>
      ((made.find? fun entry => entry.1 = name).map (·.2)).getD (fieldValue d n) := by
  unfold withMade
  induction fields with
  | nil => rfl
  | cons entry rest ih =>
    obtain ⟨k, n⟩ := entry
    cases k with
    | text k =>
      by_cases hk : k = name
      · simp [Value.lookup, hk]
      · simpa [Value.lookup, hk] using ih
    | null | bool | int | real | brokenText | bytes | date | moment =>
      simpa [Value.lookup] using ih

theorem mapValue_eq (d : Document) (fields : List (Scalar × Nat))
    (named : List (String × (Nat → Except DefinitionError Value))) :
    mapValue d fields named =
      (named.filterMapM (makeField fields)).map fun made => .map (withMade d made fields) := by
  unfold mapValue
  show (named.filterMapM (makeField fields) >>= fun made => pure _) = _
  cases named.filterMapM (makeField fields) <;> rfl

theorem makeField_eq_error {entry : String × (Nat → Except DefinitionError Value)} :
    makeField fields entry = .error e ↔
      ∃ n, Value.lookup entry.1 fields = some n ∧ entry.2 n = .error e := by
  unfold makeField
  cases Value.lookup entry.1 fields with
  | none => simp [pure, Except.pure]
  | some n => cases h : entry.2 n <;> simp [h, bind, Except.bind, pure, Except.pure]

theorem name_of_makeField {entry : String × (Nat → Except DefinitionError Value)}
    {field : String × Value} (h : makeField fields entry = .ok (some field)) :
    field.1 = entry.1 := by
  unfold makeField at h
  split at h
  · obtain ⟨v, -, h⟩ := bind_eq_ok.mp h
    cases h
    rfl
  · cases h

/-- A named field that a map has is found among the made ones. -/
theorem find?_of_made {made : List (String × Value)} {name : String}
    {make : Nat → Except DefinitionError Value} {n : Nat}
    (h : named.filterMapM (makeField fields) = .ok made) (hn : (named.map (·.1)).Nodup)
    (hmem : (name, make) ∈ named) (hl : Value.lookup name fields = some n) :
    ∃ v, make n = .ok v ∧ made.find? (fun entry => entry.1 = name) = some (name, v) := by
  induction named generalizing made with
  | nil => cases hmem
  | cons entry rest ih =>
    obtain ⟨hfirst, hn⟩ := List.nodup_cons.mp hn
    rw [List.filterMapM_cons] at h
    obtain ⟨first, hf, h⟩ := bind_eq_ok.mp h
    rcases List.mem_cons.mp hmem with rfl | hmem
    · simp only [makeField, hl] at hf
      obtain ⟨v, hv, hf⟩ := bind_eq_ok.mp hf
      cases hf
      obtain ⟨others, -, h⟩ := bind_eq_ok.mp h
      cases h
      exact ⟨v, hv, by simp⟩
    · cases first with
      | none => exact ih h hn hmem
      | some b =>
        obtain ⟨others, hothers, h⟩ := bind_eq_ok.mp h
        cases h
        obtain ⟨v, hv, hfind⟩ := ih hothers hn hmem
        -- the names are all different, so that the first one is passed over
        have hne : b.1 ≠ name := by
          intro hb
          have hentry : entry.1 = name := (name_of_makeField hf).symm.trans hb
          exact hfirst (List.mem_map.mpr ⟨_, hmem, hentry.symm⟩)
        exact ⟨v, hv, by rw [List.find?_cons_of_neg (by simpa using hne), hfind]⟩

/-- **The named fields of a map that was made are made as asked for.** -/
theorem exists_of_mapValue_ok (h : mapValue d fields named = .ok v)
    (hn : (named.map (·.1)).Nodup) : ∃ out, v = .map out ∧ ∀ name make, (name, make) ∈ named →
      ∀ w, Value.lookup name out = some w →
        ∃ n, Value.lookup name fields = some n ∧ make n = .ok w := by
  rw [mapValue_eq] at h
  obtain ⟨made, hmade, rfl⟩ := map_eq_ok.mp h
  refine ⟨_, rfl, fun name make hmem w hw => ?_⟩
  rw [lookup_withMade] at hw
  obtain ⟨n, hl, hw⟩ := Option.map_eq_some_iff.mp hw
  obtain ⟨v, hv, hfind⟩ := find?_of_made hmade hn hmem hl
  rw [hfind] at hw
  obtain rfl : v = w := hw
  exact ⟨n, hl, hv⟩

/-! ## 3. Why no tree is made -/

/-- A map is not made because one of its named fields is not. -/
theorem mapAt_eq_error {n : Nat} (h : mapAt d named n = .error e) :
    ∃ entry ∈ named, ∃ m, d.entry? n entry.1 = some m ∧ entry.2 m = .error e := by
  unfold mapAt at h
  split at h
  · rename_i fields hc
    rw [mapValue_eq] at h
    obtain ⟨entry, hentry, hfield⟩ := exists_of_filterMapM_error (map_eq_error.mp h)
    obtain ⟨m, hl, hm⟩ := makeField_eq_error.mp hfield
    exact ⟨entry, hentry, m, Document.entry?_eq_some.mpr ⟨fields, hc, hl⟩, hm⟩
  · cases h

/-- A map is not made if one of its named fields is not. -/
theorem mapAt_fails {n m : Nat} {entry : String × (Nat → Except DefinitionError Value)}
    (hentry : entry ∈ named) (hl : d.entry? n entry.1 = some m) (hm : entry.2 m = .error e) :
    ∃ e', mapAt d named n = .error e' := by
  obtain ⟨fields, hc, hl⟩ := Document.entry?_eq_some.mp hl
  obtain ⟨e', he'⟩ := filterMapM_fails hentry (makeField_eq_error.mpr ⟨m, hl, hm⟩)
  refine ⟨e', ?_⟩
  unfold mapAt
  rw [hc]
  dsimp only
  rw [mapValue_eq, map_eq_error.mpr he']

/-- Cases are not made because they are a single value, or because of a block of one of them. -/
theorem casesValue_eq_error {n : Nat} (h : casesValue d block n = .error e) :
    (e = .unlistableCases ∧ ∃ s, d.cell n = .scalar s ∧ (Value.scalar s).IsSingle) ∨
      ∃ entries entry m, d.cell n = .list entries ∧ entry ∈ entries ∧
        d.entry? entry "steps" = some m ∧ block m = .error e := by
  unfold casesValue at h
  split at h
  · rename_i entries hc
    rcases bind_eq_error.mp h with h | ⟨made, -, h⟩
    · obtain ⟨entry, hentry, h⟩ := exists_of_mapM_error h
      obtain ⟨named, hnamed, m, hl, hm⟩ := mapAt_eq_error h
      obtain rfl := List.mem_singleton.mp hnamed
      exact Or.inr ⟨entries, entry, m, hc, hentry, hl, hm⟩
    · cases h
  · rename_i s hc
    split at h
    · cases h
    · rename_i hloose
      cases h
      refine Or.inl ⟨rfl, s, hc, ?_⟩
      by_contra hsingle
      exact hloose (isSome_looseItems?_iff.mpr ⟨hsingle, by simp⟩)
  · cases h

theorem casesValue_of_single {n : Nat} {s : Scalar} (hc : d.cell n = .scalar s)
    (hs : (Value.scalar s).IsSingle) : casesValue d block n = .error .unlistableCases := by
  have hloose : ¬ (looseItems? (.scalar s)).isSome = true :=
    fun h => (isSome_looseItems?_iff.mp h).1 hs
  unfold casesValue
  rw [hc]
  dsimp only
  rw [if_neg hloose]

theorem casesValue_fails {n entry m : Nat} {entries : List Nat} (hc : d.cell n = .list entries)
    (hentry : entry ∈ entries) (hl : d.entry? entry "steps" = some m) (hm : block m = .error e) :
    ∃ e', casesValue d block n = .error e' := by
  have hcase : ∃ e', mapAt d [("steps", block)] entry = .error e' :=
    mapAt_fails List.mem_cons_self hl hm
  obtain ⟨e₁, h₁⟩ := hcase
  obtain ⟨e₂, h₂⟩ := mapM_fails hentry h₁
  refine ⟨e₂, ?_⟩
  unfold casesValue
  rw [hc]
  dsimp only
  rw [h₂]
  rfl

/-- **A step is not made because its cases are a single value, or because of a block that it carries.** -/
theorem stepValue_eq_error {step : Nat} (h : stepValue d block step = .error e) :
    (e = .unlistableCases ∧ d.SingleCases step) ∨ ∃ m, d.Carries step m ∧ block m = .error e := by
  obtain ⟨named, hnamed, p, hp, h⟩ := mapAt_eq_error h
  simp only [List.mem_cons, List.not_mem_nil, or_false] at hnamed
  rcases hnamed with rfl | rfl | rfl | rfl
  · -- the name of a kind can always be taken
    dsimp only [kindValue] at h
    split at h <;> cases h
  · obtain ⟨named, hnamed, m, hm, h⟩ := mapAt_eq_error h
    simp only [List.mem_cons, List.not_mem_nil, or_false] at hnamed
    rcases hnamed with rfl | rfl
    · exact Or.inr ⟨m, .thenBlock hp hm, h⟩
    · exact Or.inr ⟨m, .elseBlock hp hm, h⟩
  · obtain ⟨named, hnamed, m, hm, h⟩ := mapAt_eq_error h
    simp only [List.mem_cons, List.not_mem_nil, or_false] at hnamed
    rcases hnamed with rfl | rfl
    · rcases casesValue_eq_error h with ⟨he, s, hc, hs⟩ | ⟨entries, entry, b, hc, hentry, hb, h⟩
      · exact Or.inl ⟨he, p, m, s, hp, hm, hc, hs⟩
      · exact Or.inr ⟨b, .case hp hm hc hentry hb, h⟩
    · exact Or.inr ⟨m, .fallback hp hm, h⟩
  · obtain ⟨named, hnamed, m, hm, h⟩ := mapAt_eq_error h
    obtain rfl := List.mem_singleton.mp hnamed
    exact Or.inr ⟨m, .body hp hm, h⟩

/-- The payloads of a conditional, a branch and a loop are named fields of a step. -/
theorem stepValue_fails {step p : Nat} {entry : String × (Nat → Except DefinitionError Value)}
    (hentry : entry ∈ [("conditional", mapAt d [("then_block", block), ("else_block", block)]),
      ("branch", mapAt d [("cases", casesValue d block), ("default_case", block)]),
      ("loop", mapAt d [("steps", block)])])
    (hp : d.entry? step entry.1 = some p) (h : ∃ e', entry.2 p = .error e') :
    ∃ e', stepValue d block step = .error e' := by
  obtain ⟨e₁, h₁⟩ := h
  exact mapAt_fails (List.mem_cons_of_mem _ hentry) hp h₁

theorem stepValue_fails_of_single {step : Nat} (h : d.SingleCases step) :
    ∃ e', stepValue d block step = .error e' := by
  obtain ⟨p, c, s, hp, hc, hs, hsingle⟩ := h
  have hbranch : ∃ e', mapAt d [("cases", casesValue d block), ("default_case", block)] p =
      .error e' := mapAt_fails List.mem_cons_self hc (casesValue_of_single hs hsingle)
  exact stepValue_fails (List.mem_cons_of_mem _ List.mem_cons_self) hp hbranch

theorem stepValue_fails_of_carried {step m : Nat} (h : d.Carries step m) (hm : block m = .error e) :
    ∃ e', stepValue d block step = .error e' := by
  cases h with
  | thenBlock here found =>
    exact stepValue_fails List.mem_cons_self here (mapAt_fails List.mem_cons_self found hm)
  | elseBlock here found =>
    exact stepValue_fails List.mem_cons_self here
      (mapAt_fails (List.mem_cons_of_mem _ List.mem_cons_self) found hm)
  | case here listed items member found =>
    obtain ⟨e₁, h₁⟩ := casesValue_fails items member found hm
    exact stepValue_fails (List.mem_cons_of_mem _ List.mem_cons_self) here
      (mapAt_fails List.mem_cons_self listed h₁)
  | fallback here found =>
    exact stepValue_fails (List.mem_cons_of_mem _ List.mem_cons_self) here
      (mapAt_fails (List.mem_cons_of_mem _ List.mem_cons_self) found hm)
  | body here found =>
    exact stepValue_fails (List.mem_cons_of_mem _ (List.mem_cons_of_mem _ List.mem_cons_self)) here
      (mapAt_fails List.mem_cons_self found hm)

/-! ## 4. Blocks -/

/-- **A block is not made because of the cases of a step in it, because of a block that lies in it, or
because there is no fuel left.** -/
theorem blockValue_eq_error {fuel n : Nat} (h : blockValue d (fuel + 1) n = .error e) :
    (e = .unlistableCases ∧ d.Clogged n) ∨ ∃ m, d.Inner n m ∧ blockValue d fuel m = .error e := by
  unfold blockValue at h
  split at h
  · rename_i items hc
    rcases bind_eq_error.mp h with h | ⟨made, -, h⟩
    · obtain ⟨step, hstep, h⟩ := exists_of_mapM_error h
      rcases stepValue_eq_error h with ⟨he, hs⟩ | ⟨m, hm, h⟩
      · exact Or.inl ⟨he, items, step, hc, hstep, hs⟩
      · exact Or.inr ⟨m, ⟨items, step, hc, hstep, hm⟩, h⟩
    · cases h
  · cases h

theorem blockValue_fails_of_step {fuel n step : Nat} {items : List Nat}
    (hc : d.cell n = .list items) (hstep : step ∈ items)
    (h : ∃ e', stepValue d (blockValue d fuel) step = .error e') :
    ∃ e', blockValue d (fuel + 1) n = .error e' := by
  obtain ⟨e₁, h₁⟩ := h
  obtain ⟨e₂, h₂⟩ := mapM_fails hstep h₁
  refine ⟨e₂, ?_⟩
  unfold blockValue
  rw [hc]
  dsimp only
  rw [h₂]
  rfl

theorem blockValue_fails_of_clogged {n : Nat} (h : d.Clogged n) (fuel : Nat) :
    ∃ e', blockValue d fuel n = .error e' := by
  cases fuel with
  | zero => exact ⟨_, rfl⟩
  | succ fuel =>
    obtain ⟨items, step, hc, hstep, hs⟩ := h
    exact blockValue_fails_of_step hc hstep (stepValue_fails_of_single hs)

theorem blockValue_fails_of_inner {fuel n m : Nat} (h : d.Inner n m)
    (hm : ∃ e', blockValue d fuel m = .error e') : ∃ e', blockValue d (fuel + 1) n = .error e' := by
  obtain ⟨items, step, hc, hstep, hcarried⟩ := h
  obtain ⟨e₁, h₁⟩ := hm
  exact blockValue_fails_of_step hc hstep (stepValue_fails_of_carried hcarried h₁)

/-- The errors of blocks do not say what is wrong. -/
theorem not_isReported_of_blockValue {fuel n : Nat} (h : blockValue d fuel n = .error e) :
    ¬ e.IsReported := by
  induction fuel generalizing n with
  | zero =>
    cases h
    exact fun hr => hr.2 rfl
  | succ fuel ih =>
    rcases blockValue_eq_error h with ⟨rfl, -⟩ | ⟨m, -, h⟩
    · exact fun hr => hr.1 rfl
    · exact ih h

/-- **An unending block is never made**, however much fuel there is. -/
theorem blockValue_fails_of_unending {n : Nat} (h : d.Unending n) (fuel : Nat) :
    ∃ e', blockValue d fuel n = .error e' := by
  obtain ⟨m, hpath, hclogged | hcycle⟩ := h
  · induction hpath using Relation.ReflTransGen.head_induction_on generalizing fuel with
    | refl => exact blockValue_fails_of_clogged hclogged fuel
    | head hin _ ih =>
      cases fuel with
      | zero => exact ⟨_, rfl⟩
      | succ fuel => exact blockValue_fails_of_inner hin (ih fuel)
  · -- from wherever one gets to the cycle one can go one block further, until there is no fuel left
    induction fuel generalizing n with
    | zero => exact ⟨_, rfl⟩
    | succ fuel ih =>
      obtain ⟨k, hin, hk⟩ : ∃ k, d.Inner n k ∧ Relation.ReflTransGen d.Inner k m := by
        rcases hpath.cases_head with rfl | ⟨k, hin, hk⟩
        · exact Relation.TransGen.head'_iff.mp hcycle
        · exact ⟨k, hin, hk⟩
      exact blockValue_fails_of_inner hin (ih hk)

/-- **With fuel for all cells a block is not made only if it is unending**: the blocks above it are lists
among the cells, and all different unless one of them lies in itself. -/
theorem unending_of_blockValue_error {fuel n : Nat} (above : Finset Nat)
    (hcells : ∀ a ∈ above, a < d.cells.size) (hpath : ∀ a ∈ above, Relation.TransGen d.Inner a n)
    (hfuel : d.cells.size < above.card + fuel) (h : blockValue d fuel n = .error e) :
    d.Unending n := by
  induction fuel generalizing n above with
  | zero =>
    have hsub : above ⊆ Finset.range d.cells.size := fun a ha => Finset.mem_range.mpr (hcells a ha)
    have hle := Finset.card_le_card hsub
    rw [Finset.card_range] at hle
    omega
  | succ fuel ih =>
    rcases blockValue_eq_error h with ⟨-, hclogged⟩ | ⟨m, hin, h⟩
    · exact ⟨n, .refl, Or.inl hclogged⟩
    · by_cases hn : n ∈ above
      · exact ⟨n, .refl, Or.inr (hpath n hn)⟩
      · have hlt : n < d.cells.size := by
          obtain ⟨items, step, hc, -⟩ := hin
          exact Document.lt_size_of_list hc
        refine Document.Unending.outward (ih (insert n above) ?_ ?_ ?_ h) hin
        · exact Finset.forall_mem_insert _ _ _ |>.mpr ⟨hlt, hcells⟩
        · exact Finset.forall_mem_insert _ _ _ |>.mpr
            ⟨.single hin, fun a ha => (hpath a ha).tail hin⟩
        · rw [Finset.card_insert_of_notMem hn]
          omega

/-- **The blocks of which no tree is made are the unending ones.** -/
theorem blockValue_fails_iff {n : Nat} :
    (∃ e, blockValue d (d.cells.size + 1) n = .error e) ↔ d.Unending n := by
  constructor
  · rintro ⟨e, h⟩
    exact unending_of_blockValue_error ∅ (by simp) (by simp) (by simp) h
  · exact fun h => blockValue_fails_of_unending h _

/-! ## 5. What is made of a block -/

/-- What is made of a map is one whose named fields are made as asked for; all else is made as it is. -/
theorem exists_of_mapAt_ok {n : Nat} (h : mapAt d named n = .ok v) (hn : (named.map (·.1)).Nodup) :
    (∀ fields, v ≠ .map fields) ∨ ∃ out, v = .map out ∧ ∀ name make, (name, make) ∈ named →
      ∀ w, Value.lookup name out = some w → ∃ m, make m = .ok w := by
  unfold mapAt at h
  split at h
  · obtain ⟨out, hout, hmade⟩ := exists_of_mapValue_ok h hn
    refine Or.inr ⟨out, hout, fun name make hmem w hw => ?_⟩
    obtain ⟨m, -, hm⟩ := hmade name make hmem w hw
    exact ⟨m, hm⟩
  · rename_i hc
    cases h
    exact Or.inl fun fields => Document.value_ne_map hc _ fields

/-- Blocks that are made can be gone through, and so can what is made of them. -/
def Listable (block : Nat → Except DefinitionError Value) : Prop :=
  ∀ n v, block n = .ok v → blockListed v = true

theorem casesListed_of_casesValue (hb : Listable block) {n : Nat}
    (h : casesValue d block n = .ok v) : casesListed v = true := by
  rw [casesListed_iff]
  unfold casesValue at h
  split at h
  · obtain ⟨made, hmade, h⟩ := bind_eq_ok.mp h
    cases h
    refine ⟨id, ?_⟩
    rintro _ ⟨⟩ entry hentry
    obtain ⟨i, -, hi⟩ := exists_of_mapM_ok hmade hentry
    rcases exists_of_mapAt_ok hi (by simp) with hnone | ⟨out, hout, hall⟩
    · exact absurd rfl (hnone entry)
    · cases hout
      rw [fieldListed_iff]
      intro w hw
      obtain ⟨m, hm⟩ := hall "steps" block List.mem_cons_self w hw
      exact hb m w hm
  · split at h
    · rename_i hloose
      cases h
      exact ⟨(isSome_looseItems?_iff.mp hloose).1, nofun⟩
    · cases h
  · rename_i hlist hscalar
    cases h
    constructor
    · intro hsingle
      cases hc : d.cell n with
      | scalar s => exact hscalar s hc
      | list items => exact hlist items hc
      | pairs entries => simp [fieldValue, fieldDepth, Document.value, hc, Value.IsSingle] at hsingle
      | set members => simp [fieldValue, fieldDepth, Document.value, hc, Value.IsSingle] at hsingle
      | map fields => simp [fieldValue, fieldDepth, Document.value, hc, Value.IsSingle] at hsingle
    · intro entries he entry hentry
      obtain ⟨pair, hp⟩ := Document.value_of_not_list hlist he _ hentry
      cases hp

theorem stepListed_of_stepValue (hb : Listable block) {n : Nat}
    (h : stepValue d block n = .ok v) : stepListed v = true := by
  rcases exists_of_mapAt_ok h (by simp) with hnone | ⟨out, rfl, hall⟩
  · exact stepListed_of_ne_map hnone
  · have field : ∀ {named : List (String × (Nat → Except DefinitionError Value))} {m payload},
        mapAt d named m = .ok (.map payload) → (named.map (·.1)).Nodup → ∀ name,
        (name, block) ∈ named → fieldListed name payload = true := by
      intro named m payload hm hn name hmem
      rcases exists_of_mapAt_ok hm hn with hnone | ⟨out, hout, hmade⟩
      · exact absurd rfl (hnone payload)
      · cases hout
        rw [fieldListed_iff]
        intro w hw
        obtain ⟨k, hk⟩ := hmade name block hmem w hw
        exact hb k w hk
    rw [stepListed_map]
    refine ⟨fun w hw => ?_, fun w hw => ?_, fun w hw => ?_⟩
    · rw [conditionalListed_iff]
      rintro payload rfl
      obtain ⟨m, hm⟩ := hall _ _ (List.mem_cons_of_mem _ List.mem_cons_self) _ hw
      exact ⟨field hm (by simp) _ (by simp), field hm (by simp) _ (by simp)⟩
    · rw [branchListed_iff]
      rintro payload rfl
      obtain ⟨m, hm⟩ := hall _ _
        (List.mem_cons_of_mem _ (List.mem_cons_of_mem _ List.mem_cons_self)) _ hw
      refine ⟨fun cases hcases => ?_, field hm (by simp) _ (by simp)⟩
      rcases exists_of_mapAt_ok hm (by simp) with hnone | ⟨out, hout, hmade⟩
      · exact absurd rfl (hnone payload)
      · cases hout
        obtain ⟨k, hk⟩ := hmade _ _ List.mem_cons_self _ hcases
        exact casesListed_of_casesValue hb hk
    · rw [loopListed_iff]
      rintro payload rfl
      obtain ⟨m, hm⟩ := hall _ _ (List.mem_cons_of_mem _
        (List.mem_cons_of_mem _ (List.mem_cons_of_mem _ List.mem_cons_self))) _ hw
      exact field hm (by simp) _ (by simp)

/-- **The tree that is made of a block can be gone through.** -/
theorem listable_blockValue (d : Document) (fuel : Nat) : Listable (blockValue d fuel) := by
  induction fuel with
  | zero =>
    intro n v h
    cases h
  | succ fuel ih =>
    intro n v h
    unfold blockValue at h
    split at h
    · obtain ⟨made, hmade, h⟩ := bind_eq_ok.mp h
      cases h
      rw [blockListed, itemsListed_iff]
      intro x hx
      obtain ⟨step, -, hstep⟩ := exists_of_mapM_ok hmade hx
      exact stepListed_of_stepValue ih hstep
    · rename_i hlist
      cases h
      cases hv : fieldValue d n with
      | list items =>
        rw [blockListed, itemsListed_iff]
        intro x hx
        obtain ⟨pair, rfl⟩ := Document.value_of_not_list hlist hv x hx
        exact stepListed_of_ne_map fun _ h => by cases h
      | scalar s => exact blockListed_of_ne_list fun _ h => by cases h
      | set members => exact blockListed_of_ne_list fun _ h => by cases h
      | map fields => exact blockListed_of_ne_list fun _ h => by cases h

end Definition

/-! ## 6. Workflows -/

open Definition

namespace Document

/-- The fields that a document gives as those of a workflow, on its own or under the key of one. -/
inductive WorkflowFields (d : Document) : List (Scalar × Nat) → Prop
  | flat {fields : List (Scalar × Nat)} (whole : d.cell d.root = .map fields)
      (h : Value.lookup "workflow" fields = none) : WorkflowFields d fields
  | nested {fields inner : List (Scalar × Nat)} {n : Nat} (whole : d.cell d.root = .map fields)
      (h : Value.lookup "workflow" fields = some n) (below : d.cell n = .map inner) :
      WorkflowFields d inner

/-- The block that fields give as the steps of a workflow with a name. -/
def NamedSteps (d : Document) (fields : List (Scalar × Nat)) (block : Nat) : Prop :=
  ∃ name, Value.lookup "name" fields = some name ∧ (fieldValue d name).isTruthy = true ∧
    Value.lookup "steps" fields = some block

/-- The block that a document gives as the steps of a workflow with a name. -/
def WorkflowSteps (d : Document) (block : Nat) : Prop :=
  ∃ fields, d.WorkflowFields fields ∧ d.NamedSteps fields block

end Document

/-- What is read from fields whose steps have been made can be gone through. -/
theorem Definition.ofValue_ne_unlistable {now : Int} {d : Document} {fields : List (Scalar × Nat)}
    {fuel : Nat} {v : Value} (h : mapValue d fields [("steps", blockValue d fuel)] = .ok v) :
    Workflow.ofValue now (.map [(.text "workflow", v)]) ≠ .error .unlistableCases := by
  intro hv
  obtain ⟨block, ⟨inner, name, hinner, -, -, hsteps⟩, hclogged⟩ :=
    Workflow.ofValue_eq_unlistable_iff.mp hv
  obtain ⟨out, rfl, hmade⟩ := exists_of_mapValue_ok h (by simp)
  cases hinner.unique (.nested rfl)
  obtain ⟨n, -, hn⟩ := hmade _ _ List.mem_cons_self _ hsteps
  have hlisted := listable_blockValue d fuel n block hn
  rw [blockListed_eq_false_iff.mpr hclogged] at hlisted
  cases hlisted

/-- The fields of a workflow are not made because the block of its steps is not. -/
theorem Definition.mapValue_steps_eq_error {d : Document} {fields : List (Scalar × Nat)}
    {block : Nat → Except DefinitionError Value} {e : DefinitionError} :
    mapValue d fields [("steps", block)] = .error e ↔
      ∃ n, Value.lookup "steps" fields = some n ∧ block n = .error e := by
  rw [mapValue_eq, map_eq_error]
  constructor
  · intro h
    obtain ⟨entry, hentry, hfield⟩ := exists_of_filterMapM_error h
    obtain rfl := List.mem_singleton.mp hentry
    exact makeField_eq_error.mp hfield
  · intro h
    rw [List.filterMapM_cons]
    exact bind_eq_error.mpr (Or.inl (makeField_eq_error.mpr h))

/-- A named workflow is read once its steps are made; only the wording of its name is its own. -/
theorem Definition.workflowOf_eq_error {now : Int} {d : Document} {fields : List (Scalar × Nat)}
    {name : Nat} {e : DefinitionError} (hname : Value.lookup "name" fields = some name)
    (ht : (fieldValue d name).isTruthy = true) (hr : ¬ e.IsReported) :
    workflowOf now d fields = .error e ↔
      mapValue d fields [("steps", blockValue d (d.cells.size + 1))] = .error e := by
  unfold workflowOf
  rw [hname]
  dsimp only
  rw [ht, if_neg (by simp)]
  cases hv : mapValue d fields [("steps", blockValue d (d.cells.size + 1))] with
  | error e' => simp [bind, Except.bind]
  | ok v =>
    have hlisted : Workflow.ofValue now (.map [(.text "workflow", v)]) ≠ .error .unlistableCases :=
      ofValue_ne_unlistable hv
    have hends : Workflow.ofValue now (.map [(.text "workflow", v)]) ≠ .error .endlessSteps :=
      Workflow.ofValue_ne_endlessSteps
    refine ⟨fun h => absurd ⟨?_, ?_⟩ hr, nofun⟩ <;> rintro rfl
    · simp only [bind, Except.bind] at h
      split at h
      · cases h
      · exact hlisted h
    · simp only [bind, Except.bind] at h
      split at h
      · cases h
      · exact hends h

/-- The error of a workflow does not say what is wrong only if its steps are unending. -/
theorem Definition.workflowOf_unreported_iff {now : Int} {d : Document}
    {fields : List (Scalar × Nat)} : (∃ e, workflowOf now d fields = .error e ∧ ¬ e.IsReported) ↔
      ∃ block, d.NamedSteps fields block ∧ d.Unending block := by
  constructor
  · rintro ⟨e, he, hr⟩
    have hnamed : ∃ name, Value.lookup "name" fields = some name ∧
        (fieldValue d name).isTruthy = true := by
      unfold workflowOf at he
      split at he
      · cases he
        exact absurd ⟨nofun, nofun⟩ hr
      · rename_i name hname
        split at he
        · cases he
          exact absurd ⟨nofun, nofun⟩ hr
        · rename_i ht
          exact ⟨name, hname, by simpa using ht⟩
    obtain ⟨name, hname, ht⟩ := hnamed
    obtain ⟨block, hblock, hfails⟩ :=
      mapValue_steps_eq_error.mp ((workflowOf_eq_error hname ht hr).mp he)
    exact ⟨block, ⟨name, hname, ht, hblock⟩, blockValue_fails_iff.mp ⟨e, hfails⟩⟩
  · rintro ⟨block, ⟨name, hname, ht, hblock⟩, hunending⟩
    obtain ⟨e, he⟩ := blockValue_fails_iff.mpr hunending
    have hr := not_isReported_of_blockValue he
    exact ⟨e, (workflowOf_eq_error hname ht hr).mpr (mapValue_steps_eq_error.mpr ⟨block, hblock, he⟩),
      hr⟩

/-- **The error of a document does not say what is wrong if and only if the steps that it gives are
unending.** -/
theorem Workflow.ofDocument_unreported_iff {now : Int} {d : Document} :
    (∃ e, Workflow.ofDocument now d = .error e ∧ ¬ e.IsReported) ↔
      ∃ block, d.WorkflowSteps block ∧ d.Unending block := by
  have of_fields : ∀ {fields : List (Scalar × Nat)}, d.WorkflowFields fields →
      Workflow.ofDocument now d = workflowOf now d fields := by
    intro fields h
    unfold Workflow.ofDocument
    cases h with
    | flat whole h => simp only [whole, h]
    | nested whole h below => simp only [whole, h, below]
  constructor
  · rintro ⟨e, he, hr⟩
    have hfields : ∃ fields, d.WorkflowFields fields := by
      unfold Workflow.ofDocument at he
      split at he
      · rename_i fields whole
        split at he
        · rename_i hkey
          exact ⟨fields, .flat whole hkey⟩
        · rename_i n hkey
          split at he
          · rename_i inner below
            exact ⟨inner, .nested whole hkey below⟩
          · cases he
            exact absurd ⟨nofun, nofun⟩ hr
      · cases he
        exact absurd ⟨nofun, nofun⟩ hr
    obtain ⟨fields, hfields⟩ := hfields
    rw [of_fields hfields] at he
    obtain ⟨block, hnamed, hunending⟩ := workflowOf_unreported_iff.mp ⟨e, he, hr⟩
    exact ⟨block, ⟨fields, hfields, hnamed⟩, hunending⟩
  · rintro ⟨block, ⟨fields, hfields, hnamed⟩, hunending⟩
    rw [of_fields hfields]
    exact workflowOf_unreported_iff.mpr ⟨block, hnamed, hunending⟩

end Runbook
