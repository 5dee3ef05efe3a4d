import Mathlib.Data.List.Basic
import Runbook.Proofs.StepTree

/-!
# Places in a step tree

A step stands at a place: the number of a step on the top level, then of a child of it, and so on down.

* `Step.below?`, `Step.at?`: the step at a place;
* `Step.Visits`: a list that goes to every place of a tree once, a step before what it holds and all
  from left to right;
* **`Step.visits_walkBlock`**: the walk over a tree is such a list; `Step.mem_walkBlock_iff_at?`: so it
  comes to what stands at some place.
-/

namespace Runbook

namespace Step

/-- The step at a place below a step, each number of the place being that of a child. -/
def below? : Step → List Nat → Option Step
  | s, [] => some s
  | s, i :: place => s.children[i]?.bind fun c => c.below? place

/-- The step at a place of a tree. -/
def at? (steps : List Step) : List Nat → Option Step
  | [] => none
  | i :: place => steps[i]?.bind fun s => s.below? place

theorem at?_cons (steps : List Step) (i : Nat) (place : List Nat) :
    at? steps (i :: place) = steps[i]?.bind fun s => s.below? place := rfl

theorem below?_cons (s : Step) (i : Nat) (place : List Nat) :
    s.below? (i :: place) = at? s.children (i :: place) := rfl

theorem below?_of_ne_nil (s : Step) {place : List Nat} (h : place ≠ []) :
    s.below? place = at? s.children place := by
  obtain ⟨i, place, rfl⟩ := List.exists_cons_of_ne_nil h
  exact below?_cons s i place

theorem ne_nil_of_isSome_at? {steps : List Step} {place : List Nat}
    (h : (at? steps place).isSome) : place ≠ [] := by
  rintro rfl
  exact Bool.false_ne_true h

@[simp] theorem at?_nil (place : List Nat) : at? [] place = none := by
  cases place <;> rfl

/-! ## 1. Visiting every place -/

/-- **A list of steps visits every place once**: it is what `find` gives at the places where it finds a
step, each taken once and in the order of the tree. In that order of lists of numbers a step comes before
what it holds and before what stands to the right of it. -/
def Visits (find : List Nat → Option Step) (visited : List Step) : Prop :=
  ∃ places : List (List Nat), places.Pairwise (· < ·) ∧
    (∀ place, place ∈ places ↔ (find place).isSome) ∧ places.map find = visited.map some

/-- The same place one step further to the right. -/
def shift : List Nat → List Nat
  | [] => []
  | i :: place => (i + 1) :: place

theorem at?_shift (s : Step) (rest : List Step) (place : List Nat) :
    at? (s :: rest) (shift place) = at? rest place := by
  cases place <;> rfl

theorem shift_lt_shift {p q : List Nat} (hp : p ≠ []) (h : p < q) : shift p < shift q := by
  cases p with
  | nil => exact absurd rfl hp
  | cons i p =>
    cases q with
    | nil => exact absurd h (List.not_lt_nil _)
    | cons j q =>
      rw [List.cons_lt_cons_iff] at h
      unfold shift
      rw [List.cons_lt_cons_iff, Nat.add_lt_add_iff_right, Nat.add_right_cancel_iff]
      exact h

theorem zero_cons_lt_shift {p q : List Nat} (hq : q ≠ []) : 0 :: p < shift q := by
  cases q with
  | nil => exact absurd rfl hq
  | cons j q => exact List.cons_lt_cons_iff.mpr (Or.inl (Nat.succ_pos j))

/-- The places of a block are those below its first step and those of the others, shifted. -/
theorem mem_places_cons {s : Step} {rest : List Step} {places further : List (List Nat)}
    (hfirst : ∀ place, place ∈ places ↔ (s.below? place).isSome)
    (hrest : ∀ place, place ∈ further ↔ (at? rest place).isSome) (place : List Nat) :
    place ∈ places.map (0 :: ·) ++ further.map shift ↔ (at? (s :: rest) place).isSome := by
  rw [List.mem_append, List.mem_map, List.mem_map]
  constructor
  · rintro (⟨p, hp, rfl⟩ | ⟨q, hq, rfl⟩)
    · exact (hfirst p).mp hp
    · rw [at?_shift]
      exact (hrest q).mp hq
  · intro h
    match place, h with
    | 0 :: p, h => exact Or.inl ⟨p, (hfirst p).mpr h, rfl⟩
    | (i + 1) :: p, h => exact Or.inr ⟨i :: p, (hrest (i :: p)).mpr h, rfl⟩

/-- A step comes before what it holds. -/
theorem Visits.below {s : Step} {visited : List Step} (h : Visits (at? s.children) visited) :
    Visits s.below? (s :: visited) := by
  obtain ⟨places, hsorted, hmem, hfind⟩ := h
  -- the place without numbers is the step itself, and none of its children
  have hne : ∀ place ∈ places, place ≠ [] :=
    fun place hp => ne_nil_of_isSome_at? ((hmem place).mp hp)
  have hbelow : places.map s.below? = visited.map some := by
    rw [List.map_congr_left fun place hp => below?_of_ne_nil s (hne place hp), hfind]
  refine ⟨[] :: places, List.pairwise_cons.mpr ⟨fun place hp => ?_, hsorted⟩, fun place => ?_, ?_⟩
  · obtain ⟨i, place, rfl⟩ := List.exists_cons_of_ne_nil (hne place hp)
    exact List.nil_lt_cons i place
  · cases place with
    | nil => simp [below?]
    | cons i place => rw [List.mem_cons, hmem, below?_cons]; simp
  · rw [List.map_cons, List.map_cons, hbelow]
    rfl

/-- What stands to the left comes first. -/
theorem Visits.cons {s : Step} {rest visited others : List Step} (h : Visits s.below? visited)
    (hrest : Visits (at? rest) others) : Visits (at? (s :: rest)) (visited ++ others) := by
  obtain ⟨places, hsorted, hmem, hfind⟩ := h
  obtain ⟨further, hsorted', hmem', hfind'⟩ := hrest
  have hne : ∀ place ∈ further, place ≠ [] :=
    fun place hp => ne_nil_of_isSome_at? ((hmem' place).mp hp)
  refine ⟨places.map (0 :: ·) ++ further.map shift, List.pairwise_append.mpr ⟨?_, ?_, ?_⟩,
    mem_places_cons hmem hmem', ?_⟩
  · rw [List.pairwise_map]
    exact hsorted.imp fun h => List.cons_lt_cons_iff.mpr (Or.inr ⟨rfl, h⟩)
  · rw [List.pairwise_map]
    exact hsorted'.imp_of_mem fun hp _ h => shift_lt_shift (hne _ hp) h
  · intro first hfirst other hother
    obtain ⟨p, -, rfl⟩ := List.mem_map.mp hfirst
    obtain ⟨q, hq, rfl⟩ := List.mem_map.mp hother
    exact zero_cons_lt_shift (hne q hq)
  · have hleft : at? (s :: rest) ∘ (0 :: ·) = s.below? := rfl
    have hright : at? (s :: rest) ∘ shift = at? rest := funext (at?_shift s rest)
    rw [List.map_append, List.map_map, List.map_map, hleft, hright, hfind, hfind', List.map_append]

theorem visits_nil : Visits (at? []) [] :=
  ⟨[], List.Pairwise.nil, fun place => by simp, rfl⟩

/-- Walks that visit what is below the steps of a block visit the block. -/
theorem visits_block {block : List Step} (h : ∀ s ∈ block, Visits s.below? s.walk) :
    Visits (at? block) (walkBlock block) := by
  induction block with
  | nil => exact visits_nil
  | cons s rest ih =>
    obtain ⟨hs, hrest⟩ := List.forall_mem_cons.mp h
    exact hs.cons (ih hrest)

theorem visits_walk (s : Step) : Visits s.below? s.walk := by
  induction s using childInduction with
  | h s ih =>
    rw [walk_eq]
    exact (visits_block ih).below

/-- **The walk over a tree visits every place of it once.** -/
theorem visits_walkBlock (steps : List Step) : Visits (at? steps) (walkBlock steps) :=
  visits_block fun s _ => visits_walk s

/-- The walk comes to what stands at some place, and to nothing else. -/
theorem mem_walkBlock_iff_at? {steps : List Step} {s : Step} :
    s ∈ walkBlock steps ↔ ∃ place, at? steps place = some s := by
  obtain ⟨places, -, hmem, hfind⟩ := visits_walkBlock steps
  have hwalk : s ∈ walkBlock steps ↔ some s ∈ places.map (at? steps) := by
    rw [hfind, List.mem_map_of_injective (fun _ _ => Option.some.inj)]
  rw [hwalk, List.mem_map]
  constructor
  · rintro ⟨place, -, h⟩
    exact ⟨place, h⟩
  · rintro ⟨place, h⟩
    exact ⟨place, (hmem place).mpr (by rw [h]; rfl), h⟩

end Step

end Runbook
