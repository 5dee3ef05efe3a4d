import Mathlib.Data.List.Basic
import Runbook.Pattern.Basic

/-!
# What a pattern matches

A search moves a set of positions through the pattern. What a pattern matches can be said without sets, by
the stretches of a text that it goes over:

* `Pattern.Spans`: a pattern leads from one position of a text to another;
* `Marks.Holds`, `Marks.Follows`: a position is in a set; a step on sets does what a relation of positions
  says;
* `Marks.follows_times`, `Marks.follows_within`, **`Marks.follows_closure`**: steps that are repeated so
  often, at most so often, and as often as there are positions;
* **`Pattern.search_iff`**: a pattern that asks for no group again is found in a text exactly if it leads
  from one of its positions to another;
* `Pattern.isOpenEnded`, **`Pattern.search_append`**: patterns that are still found where the text goes on.
-/

namespace Runbook

/-! ## 1. Stretches of a text -/

namespace Marks

/-- A position is in a set of positions. -/
def Holds (a : Marks) (i : Nat) : Prop := a[i]? = some true

end Marks

/-- So many steps lead from one place to another. -/
inductive Times (R : Nat → Nat → Prop) : Nat → Nat → Nat → Prop
  | zero {i : Nat} : Times R 0 i i
  | succ {n i k j : Nat} (first : R i k) (rest : Times R n k j) : Times R (n + 1) i j

/-- **Where a pattern leads from a position of a text**: over one character of a set; over nothing, where
something is asserted of the position; over what its parts go over. A repetition goes over as many
stretches as it may; nothing is said of groups here, so the text of one that is asked for again is none. -/
def Pattern.Spans (text : List Char) : Pattern → Nat → Nat → Prop
  | .empty, i, j => i = j
  | .char set, i, j => j = i + 1 ∧ ∃ c, text[i]? = some c ∧ set.contains c = true
  | .anchor a, i, j => i = j ∧ (a.marks text).Holds i
  | .seq p q, i, j => ∃ k, p.Spans text i k ∧ q.Spans text k j
  | .alt p q, i, j => p.Spans text i j ∨ q.Spans text i j
  | .repeated p least most, i, j =>
    ∃ n, least ≤ n ∧ (∀ m ∈ most, n ≤ max least m) ∧ Times (p.Spans text) n i j
  | .ahead isNegated p, i, j => i = j ∧ ((∃ k, p.Spans text i k) ↔ isNegated = false)
  | .behind isNegated width p, i, j =>
    i = j ∧ ((∃ k, k + width = i ∧ p.Spans text k i) ↔ isNegated = false)
  | .group _ p, i, j => p.Spans text i j
  | .again _, _, _ => False

theorem Times.mono {R S : Nat → Nat → Prop} (h : ∀ i j, R i j → S i j) {n i j : Nat}
    (ht : Times R n i j) : Times S n i j := by
  induction ht with
  | zero => exact .zero
  | succ first _ ih => exact .succ (h _ _ first) ih

theorem Times.add {R : Nat → Nat → Prop} {m n i k j : Nat} (h : Times R m i k)
    (h' : Times R n k j) : Times R (m + n) i j := by
  induction h with
  | zero => rwa [Nat.zero_add]
  | succ first _ ih =>
    rw [Nat.add_right_comm]
    exact .succ first (ih h')

theorem Times.split {R : Nat → Nat → Prop} {m n i j : Nat} (h : Times R (m + n) i j) :
    ∃ k, Times R m i k ∧ Times R n k j := by
  induction m generalizing i with
  | zero =>
    rw [Nat.zero_add] at h
    exact ⟨i, .zero, h⟩
  | succ m ih =>
    rw [Nat.add_right_comm] at h
    cases h with
    | succ first rest =>
      obtain ⟨k, hk, hj⟩ := ih rest
      exact ⟨k, .succ first hk, hj⟩

/-- So many steps and then some more that meet a condition are, together, at least so many. -/
theorem Times.exists_more_iff {R : Nat → Nat → Prop} {P : Nat → Prop} {least i j : Nat} :
    (∃ k, Times R least i k ∧ ∃ m, P m ∧ Times R m k j) ↔
      ∃ n, least ≤ n ∧ P (n - least) ∧ Times R n i j := by
  constructor
  · rintro ⟨k, hk, m, hm, hj⟩
    refine ⟨least + m, Nat.le_add_right _ _, ?_, hk.add hj⟩
    rwa [Nat.add_sub_cancel_left]
  · rintro ⟨n, hle, hP, ht⟩
    rw [← Nat.add_sub_cancel' hle] at ht
    obtain ⟨k, hk, hj⟩ := ht.split
    exact ⟨k, hk, n - least, hP, hj⟩

/-- Some of so many steps may stay where they are. -/
theorem Times.or_iff {R : Nat → Nat → Prop} {n i j : Nat} :
    Times (fun i j => i = j ∨ R i j) n i j ↔ ∃ m ≤ n, Times R m i j := by
  constructor
  · intro h
    induction h with
    | zero => exact ⟨0, Nat.le_refl 0, .zero⟩
    | succ first _ ih =>
      obtain ⟨m, hm, ht⟩ := ih
      rcases first with rfl | first
      · exact ⟨m, Nat.le_succ_of_le hm, ht⟩
      · exact ⟨m + 1, Nat.succ_le_succ hm, .succ first ht⟩
  · rintro ⟨m, hm, ht⟩
    have hwait : ∀ k, Times (fun i j => i = j ∨ R i j) k j j := fun k => by
      induction k with
      | zero => exact .zero
      | succ k ih => exact .succ (.inl rfl) ih
    have hsum := (ht.mono fun _ _ h => .inr h).add (hwait (n - m))
    rwa [Nat.add_sub_cancel' hm] at hsum

/-! ## 2. Sets of positions -/

namespace Marks

variable {a b : Marks} {i j : Nat}

theorem Holds.lt (h : a.Holds i) : i < a.length :=
  (List.getElem?_eq_some_iff.mp h).1

theorem holds_union (h : a.length = b.length) :
    (union a b).Holds i ↔ a.Holds i ∨ b.Holds i := by
  unfold Holds union
  rw [List.getElem?_zipWith]
  rcases Nat.lt_or_ge i a.length with hi | hi
  · rw [List.getElem?_eq_getElem hi, List.getElem?_eq_getElem (h ▸ hi)]
    simp
  · rw [List.getElem?_eq_none hi, List.getElem?_eq_none (h ▸ hi)]
    simp

theorem holds_inter : (inter a b).Holds i ↔ a.Holds i ∧ b.Holds i := by
  unfold Holds inter
  rw [List.getElem?_zipWith]
  cases a[i]? <;> cases b[i]? <;> simp

theorem any_iff : a.any = true ↔ ∃ i, a.Holds i := by
  unfold any Holds
  rw [List.contains_iff_mem, List.mem_iff_getElem?]

theorem holds_step {set : CharSet} {text : List Char} : (step set text a).Holds j ↔
    ∃ i, a.Holds i ∧ j = i + 1 ∧ ∃ c, text[i]? = some c ∧ set.contains c = true := by
  unfold Holds step
  cases j with
  | zero => simp
  | succ j =>
    rw [List.getElem?_cons_succ, List.getElem?_zipWith]
    cases ha : a[j]? <;> cases ht : text[j]? <;> simp [ha, ht]

theorem length_union (h : a.length = b.length) : (union a b).length = a.length := by
  unfold union
  rw [List.length_zipWith, h, Nat.min_self]

/-- A set that gains from another one misses fewer positions than before. -/
theorem count_false_union_lt (h : a.length = b.length) (hne : union a b ≠ a) :
    (union a b).count false < a.count false := by
  induction a generalizing b with
  | nil => exact absurd rfl hne
  | cons x a ih =>
    cases b with
    | nil => simp at h
    | cons y b =>
      have hcons : union (x :: a) (y :: b) = (x || y) :: union a b := rfl
      by_cases hab : union a b = a
      · rw [hcons, hab] at hne ⊢
        cases x <;> cases y <;> simp at hne ⊢
      · have hlt := ih (Nat.succ.inj h) hab
        rw [hcons]
        cases x <;> cases y <;> simp <;> omega

/-! ## 3. Steps on sets -/

/-- A function on sets of positions, of so many each, takes a set to all places that a relation leads to
from its positions. -/
def Follows (size : Nat) (f : Marks → Marks) (R : Nat → Nat → Prop) : Prop :=
  ∀ a : Marks, a.length = size →
    (f a).length = size ∧ ∀ j, (f a).Holds j ↔ ∃ i, a.Holds i ∧ R i j

variable {size : Nat} {f : Marks → Marks} {R : Nat → Nat → Prop}

theorem Follows.congr {S : Nat → Nat → Prop} (h : Follows size f R) (hRS : ∀ i j, R i j ↔ S i j) :
    Follows size f S := by
  intro a ha
  obtain ⟨hlen, hstep⟩ := h a ha
  refine ⟨hlen, fun j => (hstep j).trans ?_⟩
  simp only [hRS]

theorem Follows.comp {g : Marks → Marks} {S : Nat → Nat → Prop} (hf : Follows size f R)
    (hg : Follows size g S) : Follows size (fun a => g (f a)) (fun i j => ∃ k, R i k ∧ S k j) := by
  intro a ha
  obtain ⟨hlen, hfirst⟩ := hf a ha
  obtain ⟨hlen', hsecond⟩ := hg (f a) hlen
  refine ⟨hlen', fun j => (hsecond j).trans ?_⟩
  constructor
  · rintro ⟨k, hk, hkj⟩
    obtain ⟨i, hi, hik⟩ := (hfirst k).mp hk
    exact ⟨i, hi, k, hik, hkj⟩
  · rintro ⟨i, hi, k, hik, hkj⟩
    exact ⟨k, (hfirst k).mpr ⟨i, hi, hik⟩, hkj⟩

theorem Follows.id : Follows size (fun a => a) (fun i j => i = j) := by
  refine fun a ha => ⟨ha, fun j => ⟨fun hj => ⟨j, hj, rfl⟩, ?_⟩⟩
  rintro ⟨i, hi, rfl⟩
  exact hi

theorem Follows.union {g : Marks → Marks} {S : Nat → Nat → Prop} (hf : Follows size f R)
    (hg : Follows size g S) :
    Follows size (fun a => (f a).union (g a)) (fun i j => R i j ∨ S i j) := by
  intro a ha
  obtain ⟨hlen, hleft⟩ := hf a ha
  obtain ⟨hlen', hright⟩ := hg a ha
  have heq := hlen.trans hlen'.symm
  refine ⟨(length_union heq).trans hlen, fun j => (holds_union heq).trans ?_⟩
  rw [hleft, hright]
  simp only [and_or_left, exists_or]

/-- A test of each position of a set on its own. -/
theorem Follows.test {p : Nat → Prop} (h : ∀ a : Marks, a.length = size →
    (f a).length = size ∧ ∀ j, (f a).Holds j ↔ a.Holds j ∧ p j) :
    Follows size f (fun i j => i = j ∧ p i) := by
  intro a ha
  obtain ⟨hlen, htest⟩ := h a ha
  refine ⟨hlen, fun j => (htest j).trans ?_⟩
  constructor
  · rintro ⟨hj, hp⟩
    exact ⟨j, hj, rfl, hp⟩
  · rintro ⟨i, hi, rfl, hp⟩
    exact ⟨hi, hp⟩

theorem times_of_fixed (h : f a = a) (n : Nat) : times f n a = a := by
  cases n with
  | zero => rfl
  | succ n => simp only [times, h, if_true]

/-- Stopping where nothing changes makes no difference. -/
theorem times_succ (n : Nat) : times f (n + 1) a = times f n (f a) := by
  by_cases h : f a = a
  · rw [h, times_of_fixed h, times_of_fixed h]
  · simp only [times, h, if_false]

theorem within_eq_times (n : Nat) (a : Marks) :
    within f n a = times (fun b => union b (f b)) n a := by
  induction n generalizing a with
  | zero => rfl
  | succ n ih => simp only [within, times, ih]

theorem follows_times (h : Follows size f R) (n : Nat) : Follows size (times f n) (Times R n) := by
  induction n with
  | zero =>
    refine Follows.id.congr fun i j => ⟨?_, ?_⟩
    · rintro rfl
      exact .zero
    · rintro ⟨⟩
      rfl
  | succ n ih =>
    rw [show times f (n + 1) = fun a => times f n (f a) from funext fun a => times_succ n]
    refine (h.comp ih).congr fun i j => ⟨?_, ?_⟩
    · rintro ⟨k, hik, hkj⟩
      exact .succ hik hkj
    · rintro (_ | ⟨hik, hkj⟩)
      exact ⟨_, hik, hkj⟩

/-- A step that keeps the positions it starts from. -/
theorem follows_gain (h : Follows size f R) :
    Follows size (fun b => b.union (f b)) (fun i j => i = j ∨ R i j) :=
  Follows.id.union h

theorem follows_within (h : Follows size f R) (n : Nat) :
    Follows size (within f n) (fun i j => ∃ m ≤ n, Times R m i j) := by
  rw [show within f n = _ from funext (within_eq_times n)]
  exact (follows_times (follows_gain h) n).congr fun i j => Times.or_iff

/-- As many rounds as positions are missing lead to a set that gains no more. -/
theorem within_fixed (h : Follows size f R) (n : Nat) (ha : a.length = size)
    (hn : a.count false ≤ n) :
    union (within f n a) (f (within f n a)) = within f n a := by
  induction n generalizing a with
  | zero =>
    by_contra hne
    change ¬union a (f a) = a at hne
    have hlt := count_false_union_lt (by rw [(h a ha).1, ha]) hne
    exact absurd (Nat.lt_of_lt_of_le hlt hn) (Nat.not_lt_zero _)
  | succ n ih =>
    by_cases hfix : union a (f a) = a
    · rw [within_eq_times, times_of_fixed hfix, hfix]
    · have hlt := count_false_union_lt (by rw [(h a ha).1, ha]) hfix
      rw [within_eq_times, times_succ, ← within_eq_times]
      exact ih (follows_gain h a ha).1 (by omega)

/-- **As many rounds as there are positions reach all that any number of rounds reaches.** -/
theorem follows_closure (h : Follows size f R) :
    Follows size (within f size) (fun i j => ∃ m, Times R m i j) := by
  intro a ha
  obtain ⟨hlen, hstep⟩ := follows_within h size a ha
  refine ⟨hlen, fun j => ⟨fun hj => ?_, ?_⟩⟩
  · obtain ⟨i, hi, m, -, ht⟩ := (hstep j).mp hj
    exact ⟨i, hi, m, ht⟩
  · rintro ⟨i, hi, m, ht⟩
    have hfix := within_fixed h size ha (ha ▸ List.count_le_length)
    replace hi : (within f size a).Holds i := (hstep i).mpr ⟨i, hi, 0, Nat.zero_le _, .zero⟩
    -- the set that is reached is closed under single steps, hence under any number of them
    induction ht with
    | zero => exact hi
    | succ first _ ih =>
      refine ih ?_
      rw [← hfix, holds_union (by rw [hlen, (h _ hlen).1])]
      exact .inr (((h _ hlen).2 _).mpr ⟨_, hi, first⟩)

/-! ## 4. Positions one by one -/

/-- The positions of a set that pass a test. -/
theorem holds_tested (q : Nat → Bool) :
    Holds (a.zipIdx.map fun (marked, i) => marked && q i) j ↔ a.Holds j ∧ q j = true := by
  unfold Holds
  rw [List.getElem?_map, List.getElem?_zipIdx, Nat.zero_add]
  cases a[j]? <;> simp

/-- The set of the positions that meet a condition. -/
theorem holds_range (size : Nat) (p : Nat → Bool) (i : Nat) :
    Holds ((List.range size).map p) i ↔ i < size ∧ p i = true := by
  unfold Holds
  rw [List.getElem?_map, Option.map_eq_some_iff]
  constructor
  · rintro ⟨k, hk, hp⟩
    obtain ⟨hlt, rfl⟩ := List.getElem?_eq_some_iff.mp hk
    rw [List.length_range] at hlt
    rw [List.getElem_range] at hp
    exact ⟨hlt, hp⟩
  · rintro ⟨hlt, hp⟩
    exact ⟨i, List.getElem?_range hlt, hp⟩

end Marks

/-! ## 5. Patterns -/

theorem length_wordEdges (before : Option Char) (text : List Char) :
    (wordEdges before text).length = text.length + 1 := by
  induction text generalizing before with
  | nil => rfl
  | cons c rest ih => simp only [wordEdges, List.length_cons, ih]

theorem length_lineEnds (text : List Char) : (lineEnds text).length = text.length + 1 := by
  fun_induction lineEnds text with
  | case1 => rfl
  | case2 => rfl
  | case3 _ _ _ ih => simp only [List.length_cons, ih]

theorem length_lineStarts (atStart : Bool) (text : List Char) :
    (lineStarts atStart text).length = text.length + 1 := by
  induction text generalizing atStart with
  | nil => rfl
  | cons c rest ih => simp only [lineStarts, List.length_cons, ih]

theorem length_everyLineEnds (text : List Char) :
    (everyLineEnds text).length = text.length + 1 := by
  induction text with
  | nil => rfl
  | cons c rest ih => simp only [everyLineEnds, List.length_cons, ih]

theorem Anchor.length_marks (text : List Char) (x : Anchor) :
    (x.marks text).length = text.length + 1 := by
  cases x with
  | start => simp [Anchor.marks]
  | lineEnd => exact length_lineEnds text
  | finish => simp [Anchor.marks]
  | everyLineStart => exact length_lineStarts true text
  | everyLineEnd => exact length_everyLineEnds text
  | wordEdge => exact length_wordEdges none text
  | noWordEdge =>
    unfold Anchor.marks
    cases text with
    | nil => rfl
    | cons c rest => simp [length_wordEdges]

namespace Pattern

open Marks

variable {text : List Char}

/-- **A pattern that asks for no group again takes a set to all places that it leads to from the positions
of the set.** -/
theorem follows_imageWith {p : Pattern} (h : p.asked = []) :
    Follows (text.length + 1) (imageWith [] text p) (p.Spans text) := by
  induction p with
  | empty => exact .id
  | char set =>
    intro a ha
    refine ⟨?_, fun j => holds_step⟩
    simp [imageWith, step, ha]
  | anchor x =>
    refine .test fun a ha => ⟨?_, fun j => holds_inter⟩
    simp [imageWith, inter, ha, Anchor.length_marks]
  | seq p q ihp ihq =>
    obtain ⟨hp, hq⟩ := List.append_eq_nil_iff.mp h
    exact (ihp hp).comp (ihq hq)
  | alt p q ihp ihq =>
    obtain ⟨hp, hq⟩ := List.append_eq_nil_iff.mp h
    exact (ihp hp).union (ihq hq)
  | repeated p least most ih =>
    have hleast := follows_times (ih h) least
    cases most with
    | none =>
      refine (hleast.comp (follows_closure (ih h))).congr fun i j => ?_
      have hall : (∃ k, Times (p.Spans text) least i k ∧ ∃ m, True ∧ Times (p.Spans text) m k j) ↔ _ :=
        Times.exists_more_iff
      simpa [Spans] using hall
    | some n =>
      refine (hleast.comp (follows_within (ih h) (n - least))).congr fun i j => ?_
      rw [Times.exists_more_iff]
      simp only [Spans, Option.mem_def, Option.some.injEq, forall_eq']
      refine exists_congr fun m => and_congr_right fun hm => ?_
      rw [show m - least ≤ n - least ↔ m ≤ max least n by omega]
  | ahead isNegated p ih =>
    refine .test fun a ha => ⟨?_, fun j => ?_⟩
    · simp [imageWith, singles, ha]
    · let here (i : Nat) : Marks := (List.range a.length).map (· == i)
      have htest : imageWith [] text (.ahead isNegated p) a = a.zipIdx.map fun (marked, i) =>
          marked && (imageWith [] text p (here i)).any != isNegated := List.map_map
      have hany : (imageWith [] text p (here j)).any = true ↔
          ∃ k i, (i < a.length ∧ i = j) ∧ p.Spans text i k := by
        obtain ⟨-, hstep⟩ := ih h (here j) (by simp [here, ha])
        simp only [any_iff, hstep, here, holds_range, beq_iff_eq]
      rw [htest]
      refine (holds_tested fun i => (imageWith [] text p (here i)).any != isNegated).trans ?_
      refine and_congr_right fun hj => ?_
      have hfrom : (∃ k i, (i < a.length ∧ i = j) ∧ p.Spans text i k) ↔ ∃ k, p.Spans text j k :=
        exists_congr fun k => ⟨fun ⟨i, hi, hk⟩ => hi.2 ▸ hk, fun hk => ⟨j, ⟨hj.lt, rfl⟩, hk⟩⟩
      rw [← hfrom, ← hany]
      cases isNegated <;> simp
  | behind isNegated width p ih =>
    refine .test fun a ha => ⟨?_, fun j => ?_⟩
    · simp [imageWith, ha]
    · let start (j : Nat) : Marks := (List.range a.length).map fun i => i + width == j
      have hback : (imageWith [] text p (start j)).Holds j ↔
          ∃ i, (i < a.length ∧ i + width = j) ∧ p.Spans text i j := by
        obtain ⟨-, hstep⟩ := ih h (start j) (by simp [start, ha])
        simp only [hstep, start, holds_range, beq_iff_eq]
      refine (holds_tested fun i =>
        (imageWith [] text p (start i))[i]?.getD false != isNegated).trans ?_
      refine and_congr_right fun hj => ?_
      have hfrom : (∃ i, (i < a.length ∧ i + width = j) ∧ p.Spans text i j) ↔
          ∃ i, i + width = j ∧ p.Spans text i j :=
        exists_congr fun i => ⟨fun ⟨⟨_, hi⟩, hk⟩ => ⟨hi, hk⟩,
          fun ⟨hi, hk⟩ => ⟨⟨by have := hj.lt; omega, hi⟩, hk⟩⟩
      rw [← hfrom, ← hback]
      unfold Holds
      rcases h : (imageWith [] text p (start j))[j]? with _ | _ | _ <;> cases isNegated <;> simp
  | group n p ih => exact ih h
  | again n => cases h

/-- **A pattern that asks for no group again is found in a text exactly if it leads from one position to
another there.** -/
theorem search_iff {p : Pattern} (h : p.asked = []) :
    p.search text = true ↔ ∃ i ≤ text.length, ∃ j, p.Spans text i j := by
  have himage : ∀ a, p.image text a = imageWith [] text p a := fun a => by
    unfold image
    rw [h]
    rfl
  have hall : ∀ i, Marks.Holds (true :: text.map fun _ => true) i ↔ i ≤ text.length := fun i => by
    unfold Holds
    cases i with
    | zero => simp
    | succ i =>
      rw [List.getElem?_cons_succ, List.getElem?_map, Nat.add_one_le_iff]
      cases ht : text[i]? with
      | none => simpa using List.getElem?_eq_none_iff.mp ht
      | some c => simpa using (List.getElem?_eq_some_iff.mp ht).1
  unfold search
  rw [himage, any_iff]
  have hfollows : Follows (text.length + 1) (imageWith [] text p) _ := follows_imageWith h
  obtain ⟨-, hstep⟩ := hfollows (true :: text.map fun _ => true) (by simp)
  simp only [hstep, hall]
  exact ⟨fun ⟨j, i, hi, hij⟩ => ⟨i, hi, j, hij⟩, fun ⟨i, hi, j, hij⟩ => ⟨j, i, hi, hij⟩⟩

/-! ## 6. Texts that go on -/

/-- Whether a pattern asks nothing of what follows its match, but whether it is part of a word. -/
def isOpenEnded : Pattern → Bool
  | .empty => true
  | .char _ => true
  | .anchor x => x == .wordEdge
  | .seq p q => isOpenEnded p && isOpenEnded q
  | .alt p q => isOpenEnded p && isOpenEnded q
  | .repeated p _ _ => isOpenEnded p
  | .group _ p => isOpenEnded p
  | .ahead _ _ => false
  | .behind _ _ _ => false
  | .again _ => false

theorem asked_of_isOpenEnded {p : Pattern} (h : p.isOpenEnded = true) : p.asked = [] := by
  induction p with
  | empty => rfl
  | char set => rfl
  | anchor x => rfl
  | seq p q ihp ihq =>
    obtain ⟨hp, hq⟩ := Bool.and_eq_true_iff.mp h
    exact List.append_eq_nil_iff.mpr ⟨ihp hp, ihq hq⟩
  | alt p q ihp ihq =>
    obtain ⟨hp, hq⟩ := Bool.and_eq_true_iff.mp h
    exact List.append_eq_nil_iff.mpr ⟨ihp hp, ihq hq⟩
  | repeated p least most ih => exact ih h
  | group n p ih => exact ih h
  | ahead _ _ _ => cases h
  | behind _ _ _ _ => cases h
  | again _ => cases h

/-- A word that ends with a text also ends where the text goes on with no part of a word. -/
theorem holds_wordEdges_append {more : List Char} (hmore : ∀ c ∈ more.head?, Text.isWordChar c = false)
    {before : Option Char} {i : Nat} (h : Holds (wordEdges before text) i) :
    Holds (wordEdges before (text ++ more)) i := by
  induction text generalizing before i with
  | nil =>
    cases i with
    | zero =>
      cases more with
      | nil => exact h
      | cons c rest =>
        have hc : Text.isWordChar c = false := hmore c rfl
        simpa [wordEdges, Holds, isWordEdge, hc] using h
    | succ i => simp [wordEdges, Holds] at h
  | cons c rest ih =>
    cases i with
    | zero => exact h
    | succ i => exact ih h

/-- **What an open-ended pattern goes over it also goes over where the text goes on**, if what follows is no
part of a word. -/
theorem Spans.append {p : Pattern} (hopen : p.isOpenEnded = true) {more : List Char}
    (hmore : ∀ c ∈ more.head?, Text.isWordChar c = false) {i j : Nat} (h : p.Spans text i j) :
    p.Spans (text ++ more) i j := by
  induction p generalizing i j with
  | empty => exact h
  | char set =>
    obtain ⟨hj, c, hc, hset⟩ := h
    exact ⟨hj, c, List.getElem?_append_left (List.getElem?_eq_some_iff.mp hc).1 ▸ hc, hset⟩
  | anchor x =>
    obtain rfl : x = .wordEdge := eq_of_beq hopen
    exact ⟨h.1, holds_wordEdges_append hmore h.2⟩
  | seq p q ihp ihq =>
    obtain ⟨hp, hq⟩ := Bool.and_eq_true_iff.mp hopen
    obtain ⟨k, hik, hkj⟩ := h
    exact ⟨k, ihp hp hik, ihq hq hkj⟩
  | alt p q ihp ihq =>
    obtain ⟨hp, hq⟩ := Bool.and_eq_true_iff.mp hopen
    exact h.imp (ihp hp) (ihq hq)
  | repeated p least most ih =>
    obtain ⟨n, hleast, hmost, htimes⟩ := h
    exact ⟨n, hleast, hmost, htimes.mono fun _ _ => ih hopen⟩
  | group n p ih => exact ih hopen h
  | ahead _ _ _ => cases hopen
  | behind _ _ _ _ => cases hopen
  | again _ => cases hopen

/-- **A text in which an open-ended pattern is found may go on.** -/
theorem search_append {p : Pattern} (hopen : p.isOpenEnded = true) {more : List Char}
    (hmore : ∀ c ∈ more.head?, Text.isWordChar c = false) (h : p.search text = true) :
    p.search (text ++ more) = true := by
  have hasked := asked_of_isOpenEnded hopen
  obtain ⟨i, hi, j, hij⟩ := (search_iff hasked).mp h
  refine (search_iff hasked).mpr ⟨i, ?_, j, hij.append hopen hmore⟩
  rw [List.length_append]
  omega

end Pattern

end Runbook
