import Mathlib.Algebra.Group.Nat.Defs
import Mathlib.Data.Nat.Find
import Mathlib.Data.Nat.Log
import Mathlib.Logic.Function.Iterate
import Runbook.Proofs.Sanitize.Paths

/-!
# How the slashes of a text are collapsed

The slashes of a path are collapsed in passes, and what they come to is said without the passes:

* `run_infix_halveSlashes_iff`: a pass leaves of every run half of its slashes;
* **`doubled_after_iff`**: two slashes are side by side after some passes exactly if the text has more in a
  row than two to that power;
* `collapseSlashes_of_passes`: the loop stops where two slashes are side by side no longer;
* `SingleRuns`: a text and what it becomes with one slash for every maximal run of slashes;
  `singleRuns_iff`: this is `singleSlashes`;
* `Collapsing`, **`slashes_collapsed`**: how many passes are made, and what is left in the end.
-/

namespace Runbook.Sanitize

variable {s t : List Char}

/-! ## 1. One pass -/

/-- A slash that no slash follows is no longer run. -/
theorem not_run_of_alone (hs : ¬ ['/'] <+: s) (n : Nat) :
    ¬ List.replicate (n + 2) '/' <+: '/' :: s := by
  intro h
  have hbehind : List.replicate (n + 1) '/' <+: s := (List.cons_prefix_cons.mp h).2
  exact hs ((List.prefix_append ['/'] (List.replicate n '/')).trans hbehind)

/-- **The slashes at the start of a text are halved**, and an odd one counts as a pair. -/
theorem run_prefix_of_replaced (h : Text.Replaced ['/', '/'] ['/'] s t) (m : Nat) :
    List.replicate (m + 1) '/' <+: t ↔ List.replicate (2 * m + 1) '/' <+: s := by
  induction h generalizing m with
  | nil => simp [List.replicate_succ]
  | @found s t _ ih =>
    cases m with
    | zero => simp
    | succ m =>
      have hpair : List.replicate (2 * (m + 1) + 1) '/' =
          '/' :: '/' :: List.replicate (2 * m + 1) '/' := rfl
      rw [hpair, List.replicate_succ]
      simpa using ih m
  | @kept c s t hc _ ih =>
    by_cases hslash : c = '/'
    · subst hslash
      -- the slash stands alone, before and after
      have halone : ¬ ['/'] <+: s := fun hs => hc (by simpa using hs)
      have halone' : ¬ ['/'] <+: t := fun ht => halone ((ih 0).mp ht)
      cases m with
      | zero => simp
      | succ m =>
        exact iff_of_false (not_run_of_alone halone' m) (not_run_of_alone halone (2 * m + 1))
    · simp [List.replicate_succ, Ne.symm hslash]

theorem run_infix_of_replaced (h : Text.Replaced ['/', '/'] ['/'] s t) (m : Nat) :
    List.replicate (m + 1) '/' <:+: t ↔ List.replicate (2 * m + 1) '/' <:+: s := by
  induction h with
  | nil => simp [List.replicate_succ]
  | @found s t later ih =>
    have hfirst := run_prefix_of_replaced (.found later) m
    -- a run that starts at the second slash of a pair starts at the first one as well
    have hsecond : List.replicate (2 * m + 1) '/' <+: '/' :: s →
        List.replicate (2 * m + 1) '/' <+: '/' :: '/' :: s := fun hp =>
      List.cons_prefix_cons.mpr ⟨rfl, List.IsPrefix.trans ⟨['/'], List.replicate_succ'.symm⟩ hp⟩
    change _ <:+: '/' :: t ↔ _ <:+: '/' :: '/' :: s
    rw [List.infix_cons_iff, List.infix_cons_iff, List.infix_cons_iff, ← ih]
    constructor
    · exact Or.imp hfirst.mp Or.inr
    · rintro (hp | hp | hlater)
      · exact Or.inl (hfirst.mpr hp)
      · exact Or.inl (hfirst.mpr (hsecond hp))
      · exact Or.inr hlater
  | @kept c s t hc later ih =>
    rw [List.infix_cons_iff, List.infix_cons_iff, ih, run_prefix_of_replaced (.kept hc later)]

/-- **A pass leaves more than `m` slashes in a row exactly where there were more than `2 * m`.** -/
theorem run_infix_halveSlashes_iff (s : List Char) (m : Nat) :
    List.replicate (m + 1) '/' <:+: halveSlashes s ↔ List.replicate (2 * m + 1) '/' <:+: s :=
  run_infix_of_replaced (replaced_halveSlashes s) m

/-! ## 2. The loop -/

/-- **Two slashes are side by side after some passes exactly if the text has more in a row than two to that
power.** -/
theorem doubled_after_iff (s : List Char) (passes : Nat) :
    ['/', '/'] <:+: halveSlashes^[passes] s ↔ List.replicate (2 ^ passes + 1) '/' <:+: s := by
  induction passes generalizing s with
  | zero => rfl
  | succ passes ih =>
    rw [Function.iterate_succ_apply, ih, run_infix_halveSlashes_iff, Nat.pow_succ, Nat.mul_comm]

/-- The loop stops where two slashes are side by side no longer. -/
theorem collapseSlashes_of_passes {passes fuel : Nat} (hfuel : passes ≤ fuel)
    (hgoes : ∀ k < passes, ['/', '/'] <:+: halveSlashes^[k] s)
    (hends : ¬ ['/', '/'] <:+: halveSlashes^[passes] s) :
    collapseSlashes fuel s = halveSlashes^[passes] s := by
  induction passes generalizing s fuel with
  | zero =>
    cases fuel with
    | zero => rfl
    | succ fuel => exact if_neg (mt Text.occursIn_iff.mp hends)
  | succ passes ih =>
    obtain ⟨fuel, rfl⟩ := Nat.exists_eq_add_of_le' hfuel
    have hfirst : ['/', '/'] <:+: s := hgoes 0 (Nat.succ_pos passes)
    rw [← Nat.add_assoc, collapseSlashes, if_pos (Text.occursIn_iff.mpr hfirst),
      Function.iterate_succ_apply]
    exact ih (Nat.le_add_left _ _) (fun k hk => hgoes (k + 1) (Nat.succ_lt_succ hk)) hends

/-! ## 3. One slash for every run -/

/-- **A text and what it becomes with one slash for every maximal run of slashes**: all other characters
are kept, in their order. -/
inductive SingleRuns : List Char → List Char → Prop
  | nil : SingleRuns [] []
  | kept {c : Char} {s t : List Char} (hc : c ≠ '/') (later : SingleRuns s t) :
      SingleRuns (c :: s) (c :: t)
  | run {s t : List Char} (n : Nat) (hs : s.head? ≠ some '/') (later : SingleRuns s t) :
      SingleRuns (List.replicate (n + 1) '/' ++ s) ('/' :: t)

theorem singleRuns_singleSlashes (s : List Char) : SingleRuns s (singleSlashes s) := by
  -- by the length of the text, as a run is passed over as a whole
  induction hn : s.length using Nat.strong_induction_on generalizing s with
  | _ n ih =>
    obtain ⟨m, rest, rfl, hrest⟩ := exists_run s
    cases m with
    | zero =>
      cases rest with
      | nil => exact .nil
      | cons c rest =>
        have hc : c ≠ '/' := fun hc => hrest (hc ▸ rfl)
        rw [List.replicate_zero, List.nil_append, singleSlashes_cons, if_neg fun h => hc h.1]
        exact .kept hc (ih rest.length (by simp [← hn]) rest rfl)
    | succ m =>
      rw [singleSlashes_run m hrest]
      exact .run m hrest (ih rest.length (by simp [← hn]) rest rfl)

/-- **Every text becomes one text, which is that with single slashes.** -/
theorem singleRuns_iff : SingleRuns s t ↔ singleSlashes s = t := by
  constructor
  · intro h
    induction h with
    | nil => rfl
    | kept hc _ ih => rw [singleSlashes_cons, if_neg fun h => hc h.1, ih]
    | run n hs _ ih => rw [singleSlashes_run n hs, ih]
  · rintro rfl
    exact singleRuns_singleSlashes s

/-! ## 4. What the passes come to -/

/-- **What is said of the loop that collapses the slashes of a text** when it makes so many passes: two
slashes are side by side in front of every pass, and no longer behind the last one. It takes the passes
until two to their power reaches the longest run, so no more than the logarithm of the length. A loop that
is given room for them leaves what they leave, and this is the text with one slash for every maximal run. -/
structure Collapsing (s : List Char) (passes : Nat) : Prop where
  goesOn : ∀ k < passes, ['/', '/'] <:+: halveSlashes^[k] s
  ends : ¬ ['/', '/'] <:+: halveSlashes^[passes] s
  longest : ∀ k, passes ≤ k ↔ ¬ List.replicate (2 ^ k + 1) '/' <:+: s
  few : passes ≤ Nat.clog 2 s.length
  leaves : ∀ fuel, passes ≤ fuel → collapseSlashes fuel s = halveSlashes^[passes] s
  single : ∀ t, SingleRuns s t ↔ collapseSlashes s.length s = t

theorem run_infix_mono {m n : Nat} (hmn : m ≤ n) (h : List.replicate n '/' <:+: s) :
    List.replicate m '/' <:+: s := by
  obtain ⟨k, rfl⟩ := Nat.exists_eq_add_of_le hmn
  rw [List.replicate_add] at h
  exact (List.prefix_append _ _).isInfix.trans h

/-- The longest run is no longer than the text. -/
theorem not_run_clog (s : List Char) :
    ¬ List.replicate (2 ^ Nat.clog 2 s.length + 1) '/' <:+: s := by
  intro h
  have hlength := h.length_le
  have hpower := Nat.le_pow_clog (b := 2) (by decide) s.length
  rw [List.length_replicate] at hlength
  omega

/-- **Collapsing the slashes of a text ends after finitely many passes, with one slash for every run.** -/
theorem slashes_collapsed (s : List Char) : ∃ passes, Collapsing s passes := by
  have hends : ∃ n, ¬ List.replicate (2 ^ n + 1) '/' <:+: s := ⟨_, not_run_clog s⟩
  -- the loop makes the least number of passes that leaves no two slashes side by side
  obtain ⟨passes, hpasses, hleast⟩ : ∃ n, ¬ List.replicate (2 ^ n + 1) '/' <:+: s ∧
      ∀ k < n, List.replicate (2 ^ k + 1) '/' <:+: s :=
    ⟨Nat.find hends, Nat.find_spec hends, fun k hk => not_not.mp (Nat.find_min hends hk)⟩
  have hlongest : ∀ k, passes ≤ k ↔ ¬ List.replicate (2 ^ k + 1) '/' <:+: s := fun k =>
    ⟨fun hk hrun => hpasses (run_infix_mono
      (Nat.add_le_add_right (Nat.pow_le_pow_right (by decide) hk) 1) hrun),
      fun hrun => Nat.le_of_not_lt fun hk => hrun (hleast k hk)⟩
  have hgoes : ∀ k < passes, ['/', '/'] <:+: halveSlashes^[k] s := fun k hk =>
    (doubled_after_iff s k).mpr (hleast k hk)
  have hstops : ¬ ['/', '/'] <:+: halveSlashes^[passes] s := fun h =>
    hpasses ((doubled_after_iff s passes).mp h)
  refine ⟨passes, hgoes, hstops, hlongest, (hlongest _).mpr (not_run_clog s), ?_, ?_⟩
  · exact fun fuel hfuel => collapseSlashes_of_passes hfuel hgoes hstops
  · intro t
    rw [singleRuns_iff, collapseSlashes_eq (Nat.le_refl _)]

/-- Four slashes take two passes, and a fifth one takes a third. -/
example : halveSlashes^[2] "a////b/c".toList = "a/b/c".toList ∧
    halveSlashes^[2] "a/////b/c".toList = "a//b/c".toList := by decide

end Runbook.Sanitize
