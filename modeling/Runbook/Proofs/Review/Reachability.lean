import Runbook.Proofs.Review.Circles

/-!
# Every step can be reached

From each step of the top level the search for steps that can be reached goes on to the next one, so whatever
names it jumps by, it finds all of them:

* `Search`, `Round`, `Rounds`: the search as rounds, of which none is made at a position without a step;
* `Search.debt`, `Round.debt_lt`: what a search still has to look at, and that each round lowers it;
* `Sound`, `Round.sound`: what holds in front of each round;
* `reach_of_rounds`: the positions that are found are those at the end of the rounds;
* `Searched`, **`searched`**: the search ends, stays among the steps and finds each of them once;
* `Reviewer.ReachesAll`, **`review_reachesAll`**: so no review says of a step that it may be unreachable.
-/

namespace Runbook

namespace Review

/-! ## 1. Rounds -/

/-- A state of the search: the positions that were found, and those in the queue. -/
structure Search where
  seen : List Nat
  queue : List Nat

/-- **A round of the search** takes the first position from the queue. One that was found before is dropped; else
the step there is looked at, and the positions that the search goes on to are queued. Without a step at the
position there is no round. -/
inductive Round (steps : List Step) : Search → Search → Prop
  | dropped {i : Nat} {seen rest : List Nat} (h : i ∈ seen) :
      Round steps ⟨seen, i :: rest⟩ ⟨seen, rest⟩
  | found {i : Nat} {seen rest : List Nat} {s : Step} (h : i ∉ seen) (hs : steps[i]? = some s) :
      Round steps ⟨seen, i :: rest⟩ ⟨i :: seen, rest ++ successors steps i s⟩

/-- So many rounds, one after the other. -/
inductive Rounds (steps : List Step) : Nat → Search → Search → Prop
  | none {x : Search} : Rounds steps 0 x x
  | more {n : Nat} {x y z : Search} (h : Round steps x y) (hs : Rounds steps n y z) :
      Rounds steps (n + 1) x z

/-- The search before its first round: the first position is in the queue, if there is a step. -/
def Search.start (steps : List Step) : Search := ⟨[], if steps.isEmpty then [] else [0]⟩

/-- What the search still has to take from the queue: what is there, and what it can still put there. -/
def Search.debt (steps : List Step) (x : Search) : Nat :=
  outstanding steps x.seen (List.range steps.length) + x.queue.length

variable {steps : List Step} {x y : Search} {n : Nat}

/-- **Each round lowers the debt.** -/
theorem Round.debt_lt (h : Round steps x y) : y.debt steps < x.debt steps := by
  cases h with
  | @dropped i seen rest h =>
    simp only [Search.debt, List.length_cons]
    omega
  | @found i seen rest s h hs =>
    obtain ⟨hi, -⟩ := List.getElem?_eq_some_iff.mp hs
    have hpaid := outstanding_cons_add_fanOut_le steps (List.mem_range.mpr hi) h
    simp only [fanOut, hs] at hpaid
    simp only [Search.debt, List.length_append, List.length_cons]
    omega

/-- So the debt bounds the number of rounds. -/
theorem Rounds.add_debt_le (h : Rounds steps n x y) : n + y.debt steps ≤ x.debt steps := by
  induction h with
  | none => omega
  | more h _ ih =>
    have hlt := h.debt_lt
    omega

/-! ## 2. What holds in front of each round -/

/-- **The search is sound**: it stays among the steps and has found no position twice; the first position, and
with each position that was found the next one, was found or is in the queue. -/
structure Sound (steps : List Step) (x : Search) : Prop where
  queued : ∀ i ∈ x.queue, i < steps.length
  seen : ∀ i ∈ x.seen, i < steps.length
  once : x.seen.Nodup
  first : 0 < steps.length → 0 ∈ x.seen ∨ 0 ∈ x.queue
  next : ∀ i ∈ x.seen, i + 1 < steps.length → i + 1 ∈ x.seen ∨ i + 1 ∈ x.queue

theorem positionOf?_lt {name : String} {i : Nat} (h : positionOf? steps name = some i) :
    i < steps.length :=
  (List.findIdx?_eq_some_iff_getElem.mp h).1

/-- The search goes on to positions of steps only. -/
theorem lt_of_mem_successors {i j : Nat} {s : Step} (h : j ∈ successors steps i s) :
    j < steps.length := by
  unfold successors at h
  have named : j ∈ s.children.filterMap (fun c => positionOf? steps c.name) → j < steps.length := by
    intro h
    obtain ⟨c, -, hc⟩ := List.mem_filterMap.mp h
    exact positionOf?_lt hc
  rcases List.mem_append.mp h with h | h
  · split at h
    · rwa [List.mem_singleton.mp h]
    · cases h
  · cases hk : s.kind with
    | conditional | branch => exact named (by simpa only [hk] using h)
    | command | auth | loop => simp [hk] at h

theorem next_mem_successors {i : Nat} {s : Step} (h : i + 1 < steps.length) :
    i + 1 ∈ successors steps i s := by
  unfold successors
  rw [if_pos h]
  exact List.mem_cons_self

theorem sound_start (steps : List Step) : Sound steps (Search.start steps) where
  queued i hi := by
    unfold Search.start at hi
    cases steps with
    | nil => cases hi
    | cons s rest =>
      rw [List.mem_singleton.mp hi]
      exact Nat.zero_lt_succ _
  seen := List.forall_mem_nil _
  once := List.nodup_nil
  first h := by
    cases steps with
    | nil => cases h
    | cons s rest => exact Or.inr List.mem_cons_self
  next := List.forall_mem_nil _

/-- **A round keeps the search sound.** -/
theorem Round.sound (h : Round steps x y) (hx : Sound steps x) : Sound steps y := by
  cases h with
  | @dropped i seen rest h =>
    -- the dropped position is not lost, as it was found before
    have still : ∀ j, j ∈ seen ∨ j ∈ i :: rest → j ∈ seen ∨ j ∈ rest := by
      rintro j (hj | hj)
      · exact Or.inl hj
      · rcases List.mem_cons.mp hj with rfl | hj
        · exact Or.inl h
        · exact Or.inr hj
    exact {
      queued := fun j hj => hx.queued j (List.mem_cons_of_mem i hj)
      seen := hx.seen
      once := hx.once
      first := fun h0 => still 0 (hx.first h0)
      next := fun j hj hn => still (j + 1) (hx.next j hj hn) }
  | @found i seen rest s h hs =>
    have still : ∀ j, j ∈ seen ∨ j ∈ i :: rest →
        j ∈ i :: seen ∨ j ∈ rest ++ successors steps i s := by
      rintro j (hj | hj)
      · exact Or.inl (List.mem_cons_of_mem i hj)
      · rcases List.mem_cons.mp hj with rfl | hj
        · exact Or.inl List.mem_cons_self
        · exact Or.inr (List.mem_append_left _ hj)
    refine ⟨fun j hj => ?_, ?_, List.nodup_cons.mpr ⟨h, hx.once⟩, fun h0 => still 0 (hx.first h0), ?_⟩
    · rcases List.mem_append.mp hj with hj | hj
      · exact hx.queued j (List.mem_cons_of_mem i hj)
      · exact lt_of_mem_successors hj
    · exact List.forall_mem_cons.mpr ⟨hx.queued i List.mem_cons_self, hx.seen⟩
    · intro j hj hn
      rcases List.mem_cons.mp hj with rfl | hj
      · exact Or.inr (List.mem_append_right _ (next_mem_successors hn))
      · exact still (j + 1) (hx.next j hj hn)

theorem Rounds.sound (h : Rounds steps n x y) (hx : Sound steps x) : Sound steps y := by
  induction h with
  | none => exact hx
  | more h _ ih => exact ih (h.sound hx)

/-- A sound search with positions in its queue has a further round. -/
theorem Sound.exists_round (hx : Sound steps x) (hq : x.queue ≠ []) : ∃ y, Round steps x y := by
  obtain ⟨seen, queue⟩ := x
  cases queue with
  | nil => exact absurd rfl hq
  | cons i rest =>
    by_cases h : i ∈ seen
    · exact ⟨_, .dropped h⟩
    · exact ⟨_, .found h (List.getElem?_eq_getElem (hx.queued i List.mem_cons_self))⟩

/-- **A sound search gets to the end of its queue**, by induction on its debt. -/
theorem Sound.exists_rounds (hx : Sound steps x) : ∃ n seen, Rounds steps n x ⟨seen, []⟩ := by
  induction hd : x.debt steps using Nat.strong_induction_on generalizing x with
  | _ debt ih =>
    by_cases hq : x.queue = []
    · obtain ⟨seen, queue⟩ := x
      obtain rfl : queue = [] := hq
      exact ⟨0, seen, .none⟩
    · obtain ⟨y, h⟩ := hx.exists_round hq
      obtain ⟨n, seen, hs⟩ := ih (y.debt steps) (hd ▸ h.debt_lt) (h.sound hx) rfl
      exact ⟨n + 1, seen, .more h hs⟩

/-- A sound search with an empty queue has found every position: the first one, and so the next one each
time. -/
theorem Sound.mem_seen_iff {seen : List Nat} (hx : Sound steps ⟨seen, []⟩) {i : Nat} :
    i ∈ seen ↔ i < steps.length := by
  refine ⟨hx.seen i, fun hi => ?_⟩
  induction i with
  | zero => exact (hx.first hi).resolve_right List.not_mem_nil
  | succ i ih => exact (hx.next i (ih (Nat.lt_of_succ_lt hi)) hi).resolve_right List.not_mem_nil

/-! ## 3. The whole search -/

theorem Round.reach_eq (h : Round steps x y) :
    reach steps x.seen x.queue = reach steps y.seen y.queue := by
  cases h with
  | dropped h => rw [reach, dif_pos h]
  | found h hs =>
    obtain ⟨hi, rfl⟩ := List.getElem?_eq_some_iff.mp hs
    rw [reach, dif_neg h, dif_pos hi]

/-- **The positions that are found are those at the end of the rounds.** -/
theorem reach_of_rounds {seen : List Nat} (h : Rounds steps n x ⟨seen, []⟩) :
    reach steps x.seen x.queue = seen := by
  generalize hy : (⟨seen, []⟩ : Search) = y at h
  induction h with
  | none =>
    subst hy
    rw [reach]
  | more h _ ih => rw [h.reach_eq, ih hy]

/-- **The search through the top level of a workflow.**

* `ends`: it ends with an empty queue and the positions that count as reached;
* `bounded`: no search makes more rounds than one and one for each position that a step leads on to;
* `inside`: in front of each round only positions of steps are in the queue;
* `onward`: a search with positions in its queue has a further round, so it does not stop at a position without
  a step;
* `all`, `once`: what it finds is every position of a step, and each once. -/
structure Searched (steps : List Step) : Prop where
  ends : ∃ n, Rounds steps n (Search.start steps) ⟨reachable steps, []⟩
  bounded : ∀ n x, Rounds steps n (Search.start steps) x →
    n ≤ outstanding steps [] (List.range steps.length) + 1
  inside : ∀ n x, Rounds steps n (Search.start steps) x → ∀ i ∈ x.queue, i < steps.length
  onward : ∀ n x, Rounds steps n (Search.start steps) x → x.queue ≠ [] → ∃ y, Round steps x y
  all : ∀ i, i ∈ reachable steps ↔ i < steps.length
  once : (reachable steps).Nodup

theorem debt_start_le (steps : List Step) :
    (Search.start steps).debt steps ≤ outstanding steps [] (List.range steps.length) + 1 := by
  unfold Search.debt Search.start
  cases steps <;> simp

/-- **The search ends and finds every step**, whatever names the steps have and whatever they hold. -/
theorem searched (steps : List Step) : Searched steps := by
  obtain ⟨n, seen, h⟩ := (sound_start steps).exists_rounds
  have hreach : reachable steps = seen := reach_of_rounds h
  have hsound := h.sound (sound_start steps)
  exact {
    ends := ⟨n, hreach ▸ h⟩
    bounded := fun m x hm => by
      have hle := hm.add_debt_le
      have hstart := debt_start_le steps
      omega
    inside := fun m x hm => (hm.sound (sound_start steps)).queued
    onward := fun m x hm => (hm.sound (sound_start steps)).exists_round
    all := fun i => hreach ▸ hsound.mem_seen_iff
    once := hreach ▸ hsound.once }

/-- No step is found to be unreachable. -/
theorem unreachableIssues_eq_nil (w : Workflow) : unreachableIssues w = [] := by
  unfold unreachableIssues
  rw [List.flatMap_eq_nil_iff]
  rintro ⟨s, i⟩ h
  have hfound : (reachable w.steps).contains i = true := by
    rw [List.contains_iff_mem]
    exact ((searched w.steps).all i).mpr (List.mem_zipIdx' h).1
  dsimp only
  rw [hfound]
  rfl

/-! ## 4. Reviews -/

/-- The finding says of some step that it may be unreachable. -/
def Issue.DoubtsReach (i : Issue) : Prop :=
  ∃ name : String, i.message = "Step '" ++ name ++ "' may be unreachable"

/-- The last two characters of a text, the last one in front. -/
def lastTwo (text : String) : List Char := text.toList.reverse.take 2

theorem lastTwo_append (a b : String) (h : 2 ≤ b.toList.length) : lastTwo (a ++ b) = lastTwo b := by
  unfold lastTwo
  rw [String.toList_append, List.reverse_append, List.take_append_of_le_length (by simpa using h)]

/-- Doubts about a step begin and end in a way of their own. -/
theorem Issue.DoubtsReach.ends {i : Issue} (h : i.DoubtsReach) :
    i.initial? = some 'S' ∧ lastTwo i.message = ['e', 'l'] := by
  obtain ⟨name, h⟩ := h
  refine ⟨?_, ?_⟩
  · rw [Issue.initial?, h]
    simp
  · rw [h, lastTwo_append _ _ (by decide)]
    decide

theorem not_doubtsReach_of_initial {i : Issue} {c : Char} (h : i.initial? = some c) (hc : c ≠ 'S') :
    ¬ i.DoubtsReach := by
  intro hd
  rw [hd.ends.1] at h
  exact hc (Option.some.inj h).symm

theorem not_doubtsReach_of_last {i : Issue} {start ending : String} (h : i.message = start ++ ending)
    (hlong : 2 ≤ ending.toList.length) (hlast : lastTwo ending ≠ ['e', 'l']) : ¬ i.DoubtsReach := by
  intro hd
  have hends := hd.ends.2
  rw [h, lastTwo_append _ _ hlong] at hends
  exact hlast hends

theorem not_doubtsReach_of_mem_metadataIssues {w : Workflow} {i : Issue}
    (h : i ∈ metadataIssues w) : ¬ i.DoubtsReach := by
  obtain ⟨s, -, h⟩ := List.mem_flatMap.mp h
  simp only [metadataOf, List.mem_append, mem_issueIf] at h
  rcases h with (⟨-, rfl⟩ | ⟨-, rfl⟩) | ⟨-, rfl⟩
  · have hmessage : "Step has empty name" = "Step has " ++ "empty name" := rfl
    exact not_doubtsReach_of_last hmessage (by decide) (by decide)
  · exact not_doubtsReach_of_last rfl (by decide) (by decide)
  · exact not_doubtsReach_of_last rfl (by decide) (by decide)

theorem not_doubtsReach_of_mem_loopIssues {w : Workflow} {i : Issue} (h : i ∈ loopIssues w) :
    ¬ i.DoubtsReach := by
  obtain ⟨s, -, h⟩ := List.mem_flatMap.mp h
  cases s with
  | loop head condition body =>
    rw [loopOf, List.mem_append, mem_issueIf] at h
    rcases h with ⟨-, rfl⟩ | h
    · exact not_doubtsReach_of_last rfl (by decide) (by decide)
    · split at h
      · cases h
      · obtain ⟨-, rfl⟩ := mem_issueIf.mp h
        exact not_doubtsReach_of_initial (c := 'L') (by simp [Issue.initial?]) (by decide)
  | command | auth | conditional | branch => cases h

theorem not_doubtsReach_of_mem_commandIssues {w : Workflow} {i : Issue}
    (h : i ∈ commandIssues w) : ¬ i.DoubtsReach := by
  have own : ∀ {head : StepHead}, i ∈ commandOf head → ¬ i.DoubtsReach := by
    intro head h
    rw [commandOf] at h
    split at h
    · cases h
    · rw [List.mem_append, mem_issueIf, mem_issueIf] at h
      rcases h with ⟨-, rfl⟩ | ⟨-, rfl⟩
      · exact not_doubtsReach_of_last rfl (by decide) (by decide)
      · exact not_doubtsReach_of_last rfl (by decide) (by decide)
  obtain ⟨s, -, h⟩ := List.mem_flatMap.mp h
  cases s with
  | command head => exact own h
  | auth head => exact own h
  | conditional | branch | loop => cases h

end Review

open Review

namespace Reviewer

/-- **What a review says of steps that cannot be reached.**

* `search`: the search that the check is made by finds all steps of the top level;
* `silent`: so the check has no findings;
* `unsaid`: no finding of a report, of whatever check, says of any step that it may be unreachable. -/
structure ReachesAll (r : Reviewer) (w : Workflow) : Prop where
  search : Searched w.steps
  silent : unreachableIssues w = []
  unsaid : ∀ i ∈ (r.review w).issues, ∀ name : String,
    i.message ≠ "Step '" ++ name ++ "' may be unreachable"

theorem not_doubtsReach_of_mem_issues {r : Reviewer} {w : Workflow} {i : Issue}
    (h : i ∈ r.issues w) : ¬ i.DoubtsReach := by
  simp only [issues, List.mem_append, unreachableIssues_eq_nil, List.not_mem_nil, or_false] at h
  rcases h with ((((h | h) | h) | h) | h) | h
  · rcases initial_of_mem_cycleIssues h with h | h <;>
      exact not_doubtsReach_of_initial h (by decide)
  · exact not_doubtsReach_of_initial (initial_of_mem_variableIssues h) (by decide)
  · exact not_doubtsReach_of_mem_metadataIssues h
  · exact not_doubtsReach_of_mem_loopIssues h
  · exact not_doubtsReach_of_initial (initial_of_mem_duplicateIssues h) (by decide)
  · exact not_doubtsReach_of_mem_commandIssues h

/-- **No review doubts that a step can be reached.** -/
theorem review_reachesAll (r : Reviewer) (w : Workflow) : r.ReachesAll w where
  search := searched w.steps
  silent := unreachableIssues_eq_nil w
  unsaid _ hi name hname := not_doubtsReach_of_mem_issues hi ⟨name, hname⟩

end Reviewer

end Runbook
