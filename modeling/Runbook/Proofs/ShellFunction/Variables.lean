import Mathlib.Data.List.Infix
import Mathlib.Data.List.Nodup
import Runbook.Proofs.ShellFunction.Declared

/-!
# The variables of a body

The parameters and the names of a body are gathered each for themselves, and put into one list:

* `pairwise_distinct`: in a list without repetitions, what was found first comes first;
* `Text.tokens_eq_filterMap`: tokens that hide no others are what can be read at the places of a text;
* `StandsAt`: a number or a name stands behind a dollar sign at a place; `readAt_variableAt_iff`,
  `readAt_parameterAt_iff`: it is what is read there;
* `Used`, `used`: the highest number that a body uses, and its names in the order of their first use;
* **`extractVariables_used`**: these are the variables, a parameter for each number up to the highest and a
  variable for each name; and no two have one name, unless a body uses a name that is the name of one of
  its parameters; `namesake_repeated`: then two have.
-/

namespace Runbook

/-! ## 1. First appearances -/

/-- What is kept behind values that were seen before: the distinct values that were not. -/
theorem foldl_distinct {α : Type} [DecidableEq α] (xs seen : List α) :
    xs.foldl (fun seen x => if x ∈ seen then seen else seen ++ [x]) seen =
      seen ++ (distinct xs).filter (· ∉ seen) := by
  unfold distinct
  induction xs generalizing seen with
  | nil => simp
  | cons x xs ih =>
    rw [List.foldl_cons, List.foldl_cons, if_neg List.not_mem_nil, List.nil_append, ih [x]]
    by_cases hx : x ∈ seen
    · rw [if_pos hx, ih seen, List.filter_append, List.filter_filter]
      have hone : [x].filter (· ∉ seen) = [] := by simp [hx]
      rw [hone, List.nil_append]
      refine congrArg _ (List.filter_congr fun y _ => ?_)
      by_cases hy : y = x
      · simp [hy, hx]
      · simp [hy]
    · rw [if_neg hx, ih (seen ++ [x]), List.filter_append, List.filter_filter]
      have hone : [x].filter (· ∉ seen) = [x] := by simp [hx]
      rw [hone, List.append_assoc]
      refine congrArg _ (congrArg _ (List.filter_congr fun y _ => ?_))
      simp [not_or]

theorem distinct_cons {α : Type} [DecidableEq α] (x : α) (xs : List α) :
    distinct (x :: xs) = x :: (distinct xs).filter (· ≠ x) := by
  have h := foldl_distinct xs [x]
  simp only [List.mem_singleton] at h
  exact h

/-- **Of the distinct values found in a list, one comes before another if it is found at a place up to
which the other is not.** -/
theorem pairwise_distinct {α β : Type} [DecidableEq β] (f : α → Option β) (xs : List α) :
    (distinct (xs.filterMap f)).Pairwise fun a b =>
      ∃ i : Nat, xs[i]?.bind f = some a ∧ ∀ j ≤ i, xs[j]?.bind f ≠ some b := by
  induction xs with
  | nil => exact List.Pairwise.nil
  | cons x xs ih =>
    have later : ∀ {a b : β}, f x ≠ some b →
        (∃ i : Nat, xs[i]?.bind f = some a ∧ ∀ j ≤ i, xs[j]?.bind f ≠ some b) →
          ∃ i : Nat, (x :: xs)[i]?.bind f = some a ∧ ∀ j ≤ i, (x :: xs)[j]?.bind f ≠ some b := by
      rintro a b hx ⟨i, hi, hfirst⟩
      refine ⟨i + 1, hi, fun j hj => ?_⟩
      cases j with
      | zero => exact hx
      | succ j => exact hfirst j (Nat.le_of_succ_le_succ hj)
    cases hx : f x with
    | none =>
      rw [List.filterMap_cons_none hx]
      exact ih.imp (later (by simp [hx]))
    | some v =>
      rw [List.filterMap_cons_some hx, distinct_cons, List.pairwise_cons]
      constructor
      · intro b hb
        have hne : b ≠ v := by simpa using List.of_mem_filter hb
        refine ⟨0, hx, fun j hj => ?_⟩
        rw [Nat.le_zero.mp hj]
        exact fun he => hne (Option.some.inj (he.symm.trans hx))
      · refine (ih.filter _).imp_of_mem fun {a b} _ hb => later ?_
        have hne : b ≠ v := by simpa using List.of_mem_filter hb
        rw [hx]
        exact fun he => hne (Option.some.inj he).symm

namespace Text

/-! ## 2. What can be read at the places of a text -/

variable {α : Type} {read : Char → List Char → Option (α × Nat)}

/-- The value of the token that can be read at the start of a text, if there is one. -/
def readAt (read : Char → List Char → Option (α × Nat)) : List Char → Option α
  | [] => none
  | c :: rest => (read c rest).map (·.1)

/-- Places at which nothing can be read make no difference. -/
theorem filterMap_tails_drop {n : Nat} {s : List Char}
    (h : ∀ front d more, s = front ++ d :: more → front.length < n → read d more = none) :
    s.tails.filterMap (readAt read) = (s.drop n).tails.filterMap (readAt read) := by
  induction n generalizing s with
  | zero => rfl
  | succ n ih =>
    cases s with
    | nil => rfl
    | cons d more =>
      have hd : readAt read (d :: more) = none := by
        rw [readAt, h [] d more rfl (Nat.zero_lt_succ n), Option.map_none]
      rw [List.tails_cons, List.filterMap_cons_none hd, List.drop_succ_cons]
      refine ih fun front d' more' he hlt => h (d :: front) d' more' ?_ ?_
      · rw [he, List.cons_append]
      · exact Nat.succ_lt_succ hlt

/-- **If tokens hide no others, the tokens of a text are what can be read at its places, in their
order.** -/
theorem tokens_eq_filterMap (hu : Unhidden read) (s : List Char) :
    tokens (pieces read s) = s.tails.filterMap (readAt read) := by
  induction s using cutInduction read with
  | nil => rfl
  | plain c rest h ih =>
    have hc : readAt read (c :: rest) = none := by rw [readAt, h, Option.map_none]
    rw [tokens_pieces_of_none h, List.tails_cons, List.filterMap_cons_none hc, ih]
  | token c rest value n h ih =>
    have hc : readAt read (c :: rest) = some value := by rw [readAt, h, Option.map_some]
    rw [tokens_pieces_of_some h, List.tails_cons, List.filterMap_cons_some hc, ih]
    refine congrArg _ (filterMap_tails_drop fun front d more he hlt => ?_).symm
    exact hu c front d more value n (he ▸ h) hlt

/-- The tails of a text are what is left of it from its places on. -/
theorem getElem?_tails_bind (s : List Char) (i : Nat) :
    s.tails[i]?.bind (readAt read) = readAt read (s.drop i) := by
  rcases Nat.lt_or_ge i s.tails.length with hlt | hge
  · rw [List.getElem?_eq_getElem hlt, Option.bind_some, List.getElem_tails]
  · rw [List.length_tails] at hge
    rw [List.getElem?_eq_none (by rwa [List.length_tails]), List.drop_of_length_le (by omega)]
    rfl

theorem mem_filterMap_tails {s : List Char} {value : α} :
    value ∈ s.tails.filterMap (readAt read) ↔ ∃ i, readAt read (s.drop i) = some value := by
  rw [List.mem_filterMap]
  constructor
  · rintro ⟨t, ht, hvalue⟩
    obtain ⟨front, rfl⟩ := (List.mem_tails t s).mp ht
    exact ⟨front.length, by rwa [List.drop_left]⟩
  · rintro ⟨i, hvalue⟩
    exact ⟨s.drop i, (List.mem_tails _ _).mpr (List.drop_suffix i s), hvalue⟩

end Text

namespace ShellFunction

open Text

/-! ## 3. Numbers and names behind dollar signs -/

/-- **Characters of a class stand behind a dollar sign at a place of a text**, perhaps with a brace in
front, as far as they go. -/
def StandsAt (p : Char → Bool) (text : List Char) (i : Nat) (s : List Char) : Prop :=
  ∃ brace after, (brace = [] ∨ brace = ['\x7b']) ∧ text.drop i = '$' :: (brace ++ (s ++ after)) ∧
    (∀ d ∈ s, p d = true) ∧ ∀ d ∈ after.head?, p d = false

theorem behindDollar_of_head {brace s : List Char} (hb : brace = [] ∨ brace = ['\x7b'])
    (hs : ∀ d ∈ s.head?, d ≠ '\x7b') : behindDollar '$' (brace ++ s) = some (s, brace.length) := by
  rcases hb with rfl | rfl
  · unfold behindDollar
    rw [if_pos rfl, List.nil_append]
    split
    · exact absurd rfl (hs _ rfl)
    · rfl
  · rfl

/-- **What is read behind a dollar sign** is what stands there, if it is read from the characters of a
class and a brace is of no such class. -/
theorem readAt_iff {α : Type} {read : Char → List Char → Option (α × Nat)} {p : Char → Bool}
    (hp : p '\x7b' = false) {Fits : List Char → Prop} {value : List Char → α} {s : List Char}
    (hread : ∀ c rest, (read c rest).map (·.1) = some (value s) ↔
      ∃ t n, behindDollar c rest = some (t, n) ∧ t.takeWhile p = s ∧ Fits s)
    (hs : Fits s → s ≠ []) {text : List Char} {i : Nat} :
    readAt read (text.drop i) = some (value s) ↔ Fits s ∧ StandsAt p text i s := by
  constructor
  · intro h
    cases htext : text.drop i with
    | nil =>
      rw [htext] at h
      cases h
    | cons c rest =>
      rw [htext] at h
      obtain ⟨t, n, ht, rfl, hfits⟩ := (hread c rest).mp h
      obtain ⟨rfl, brace, hbrace, rfl, -⟩ := behindDollar_eq_some ht
      refine ⟨hfits, brace, t.dropWhile p, hbrace, ?_, fun d hd => List.mem_takeWhile_imp hd,
        dropWhile_stop p t⟩
      rw [List.takeWhile_append_dropWhile, htext]
  · rintro ⟨hfits, brace, after, hbrace, htext, hclass, hstop⟩
    rw [htext]
    refine (hread _ _).mpr ⟨s ++ after, brace.length, behindDollar_of_head hbrace ?_,
      (takeWhile_stop hclass hstop).1, hfits⟩
    obtain ⟨first, more, rfl⟩ := List.exists_cons_of_ne_nil (hs hfits)
    rintro d ⟨⟩ rfl
    rw [hclass _ List.mem_cons_self] at hp
    cases hp

/-- **The number that is read at a place is the one that stands there.** -/
theorem readAt_parameterAt_iff {text digits : List Char} {i : Nat} :
    readAt parameterAt (text.drop i) = some digits ↔ digits ≠ [] ∧ StandsAt isDecimal text i digits := by
  refine @readAt_iff _ parameterAt isDecimal (by decide) (· ≠ []) id digits (fun c rest => ?_) id
    text i
  unfold parameterAt
  cases behindDollar c rest with
  | none => simp
  | some found =>
    obtain ⟨t, n⟩ := found
    rw [Option.bind_some]
    dsimp only
    cases htake : t.takeWhile isDecimal with
    | nil => simp +contextual [htake]
    | cons d ds => simp +contextual [htake, eq_comm]

theorem variableName_ofList_takeWhile {first : Char} {t : List Char} (h : isIdentStart first = true) :
    VariableName (String.ofList ((first :: t).takeWhile isIdentChar)) where
  start := by
    rw [String.toList_ofList, List.takeWhile_cons_of_pos (isIdentChar_of_isIdentStart h)]
    exact ⟨first, rfl, h⟩
  chars := by
    rw [String.toList_ofList]
    exact fun d hd => List.mem_takeWhile_imp hd

/-- **The name that is read at a place is the one that stands there.** -/
theorem readAt_variableAt_iff {text : List Char} {name : String} {i : Nat} :
    readAt variableAt (text.drop i) = some name ↔
      VariableName name ∧ StandsAt isIdentChar text i name.toList := by
  have hne : VariableName (String.ofList name.toList) → name.toList ≠ [] := by
    rw [String.ofList_toList]
    rintro ⟨⟨first, hfirst, -⟩, -⟩ hnil
    rw [hnil] at hfirst
    cases hfirst
  have h := @readAt_iff _ variableAt isIdentChar (by decide)
    (fun s => VariableName (String.ofList s)) String.ofList name.toList (fun c rest => ?_) hne text i
  · rwa [String.ofList_toList] at h
  unfold variableAt
  cases behindDollar c rest with
  | none => simp
  | some found =>
    obtain ⟨t, n⟩ := found
    rw [Option.bind_some, String.ofList_toList]
    dsimp only
    cases t with
    | nil =>
      refine ⟨nofun, ?_⟩
      rintro ⟨_, _, ⟨⟩, htake, hname⟩
      exact absurd htake.symm (hne (by rwa [String.ofList_toList]))
    | cons first t =>
      dsimp only
      cases hfirst : isIdentStart first with
      | true =>
        rw [if_pos rfl, Option.map_some, Option.some_inj]
        constructor
        · rintro rfl
          exact ⟨_, _, rfl, String.toList_ofList.symm, variableName_ofList_takeWhile hfirst⟩
        · rintro ⟨_, _, ⟨⟩, htake, -⟩
          rw [htake, String.ofList_toList]
      | false =>
        refine ⟨nofun, ?_⟩
        rintro ⟨_, _, ⟨⟩, htake, ⟨⟨start, hstart, hs⟩, -⟩⟩
        rw [← htake, List.takeWhile_cons] at hstart
        split at hstart
        · cases hstart
          rw [hs] at hfirst
          cases hfirst
        · cases hstart

/-! ## 4. The variables -/

/-- A body uses a parameter: its number stands somewhere behind a dollar sign. -/
def HasNumber (body : String) (digits : List Char) : Prop :=
  digits ≠ [] ∧ ∃ i, StandsAt isDecimal body.toList i digits

/-- A body uses a name: it stands somewhere behind a dollar sign. -/
def HasName (body name : String) : Prop :=
  VariableName name ∧ ∃ i, StandsAt isIdentChar body.toList i name.toList

/-- **What a body uses.**

* `bounded`, `reached`: the highest number of a parameter, zero if there is none;
* `named`, `once`, `ordered`: the names, each once, and in the order of their first use. -/
structure Used (body : String) (highest : Nat) (names : List String) : Prop where
  bounded : ∀ digits, HasNumber body digits → numberOf digits ≤ highest
  reached : highest = 0 ∨ ∃ digits, HasNumber body digits ∧ numberOf digits = highest
  named : ∀ name, name ∈ names ↔ HasName body name
  once : names.Nodup
  ordered : names.Pairwise fun a b => ∃ i, StandsAt isIdentChar body.toList i a.toList ∧
    ∀ j ≤ i, ¬ StandsAt isIdentChar body.toList j b.toList

theorem mem_parametersUsed_iff {body : String} {digits : List Char} :
    digits ∈ parametersUsed body ↔ HasNumber body digits := by
  rw [parametersUsed, tokens_eq_filterMap unhidden_parameterAt, mem_filterMap_tails]
  simp only [readAt_parameterAt_iff, exists_and_left]
  exact Iff.rfl

theorem mem_namesUsed_iff {body name : String} : name ∈ namesUsed body ↔ HasName body name := by
  rw [namesUsed, mem_distinct, tokens_eq_filterMap unhidden_variableAt, mem_filterMap_tails]
  simp only [readAt_variableAt_iff, exists_and_left]
  exact Iff.rfl

/-- **The numbers and names that are gathered from a body are those that it uses.** -/
theorem used (body : String) : Used body (highestParameter body) (namesUsed body) where
  bounded digits h := le_highestParameter (mem_parametersUsed_iff.mpr h)
  reached := by
    have hmem : highestParameter body ∈ 0 :: (parametersUsed body).map numberOf :=
      (List.max?_eq_some_iff.mp List.max?_cons').1
    rcases List.mem_cons.mp hmem with hzero | hmem
    · exact Or.inl hzero
    · obtain ⟨digits, hdigits, heq⟩ := List.mem_map.mp hmem
      exact Or.inr ⟨digits, mem_parametersUsed_iff.mp hdigits, heq⟩
  named _ := mem_namesUsed_iff
  once := nodup_distinct _
  ordered := by
    have hnames : namesUsed body = distinct (body.toList.tails.filterMap (readAt variableAt)) := by
      rw [namesUsed, tokens_eq_filterMap unhidden_variableAt]
    have hfirst := pairwise_distinct (readAt variableAt) body.toList.tails
    rw [← hnames] at hfirst
    refine hfirst.imp_of_mem fun {a b} _ hb => ?_
    rintro ⟨i, hi, hbefore⟩
    rw [getElem?_tails_bind, readAt_variableAt_iff] at hi
    refine ⟨i, hi.2, fun j hj hs => hbefore j hj ?_⟩
    rw [getElem?_tails_bind, readAt_variableAt_iff]
    exact ⟨(mem_namesUsed_iff.mp hb).1, hs⟩

/-- The name of the variable of a parameter. -/
def parameterName (n : Nat) : String := "param" ++ toString n

theorem parameterName_inj {m n : Nat} (h : parameterName m = parameterName n) : m = n := by
  have hchars := congrArg String.toList h
  rw [parameterName, parameterName, String.toList_append, String.toList_append] at hchars
  have hdigits := List.append_cancel_left hchars
  rw [Nat.toString_eq_ofList_toDigits, Nat.toString_eq_ofList_toDigits, String.toList_ofList,
    String.toList_ofList] at hdigits
  rw [← Nat.ofDigitChars_ten_toDigits (n := m), hdigits, Nat.ofDigitChars_ten_toDigits]

/-- The variables for so many parameters and for names. -/
def variablesFor (highest : Nat) (names : List String) : List Variable :=
  (List.range highest).map (fun i => parameterVariable (i + 1)) ++ names.map namedVariable

theorem map_name_variablesFor (highest : Nat) (names : List String) :
    (variablesFor highest names).map (·.name) =
      (List.range highest).map (fun i => parameterName (i + 1)) ++ names := by
  have hparameters : ((List.range highest).map fun i => parameterVariable (i + 1)).map (·.name) =
      (List.range highest).map fun i => parameterName (i + 1) := by
    rw [List.map_map]
    rfl
  have hnamed : (names.map namedVariable).map (·.name) = names := by
    rw [List.map_map]
    exact List.map_id names
  rw [variablesFor, List.map_append, hparameters, hnamed]

/-- **No two variables have one name unless a name is the name of a parameter.** -/
theorem nodup_variablesFor_iff {highest : Nat} {names : List String} (hnames : names.Nodup) :
    ((variablesFor highest names).map (·.name)).Nodup ↔
      ∀ n, 0 < n → n ≤ highest → parameterName n ∉ names := by
  rw [map_name_variablesFor, List.nodup_append]
  constructor
  · rintro ⟨-, -, hapart⟩ n hpos hle hn
    refine hapart (parameterName n) (List.mem_map.mpr ⟨n - 1, List.mem_range.mpr (by omega), ?_⟩) _ hn rfl
    rw [Nat.sub_add_cancel hpos]
  · intro hapart
    refine ⟨?_, hnames, ?_⟩
    · exact List.Nodup.map (fun i j h => Nat.succ_injective (parameterName_inj h)) List.nodup_range
    · intro name hparameter other hother
      rintro rfl
      obtain ⟨i, hi, rfl⟩ := List.mem_map.mp hparameter
      exact hapart (i + 1) (Nat.succ_pos i) (List.mem_range.mp hi) hother

/-- **The variables of a body**: a parameter whose number has too many digits is an error. All else has a
required variable for each number up to the highest that the body uses, and behind them an optional one for
each name that it uses, in the order of their first use; no two have the same name, unless a name is that
of such a parameter. -/
theorem extractVariables_used (body : String) :
    (extractVariables body = .error .oversizedNumber ∧
      ∃ digits, HasNumber body digits ∧ maxDigits < digits.length) ∨
    ((∀ digits, HasNumber body digits → digits.length ≤ maxDigits) ∧
      ∃ highest names, Used body highest names ∧
        extractVariables body = .ok (variablesFor highest names) ∧
        (((variablesFor highest names).map (·.name)).Nodup ↔
          ∀ n, 0 < n → n ≤ highest → parameterName n ∉ names)) := by
  unfold extractVariables
  cases hlong : hasOversizedParameter body with
  | true =>
    obtain ⟨digits, hd, hlt⟩ := List.any_eq_true.mp hlong
    exact Or.inl ⟨rfl, digits, mem_parametersUsed_iff.mp hd, of_decide_eq_true hlt⟩
  | false =>
    refine Or.inr ⟨fun digits hd => ?_, _, _, used body, rfl, nodup_variablesFor_iff (nodup_distinct _)⟩
    have hshort := List.any_eq_false.mp hlong digits (mem_parametersUsed_iff.mpr hd)
    exact Nat.le_of_not_lt fun hlt => hshort (decide_eq_true hlt)

/-- A body that uses its first parameter, and a name that is the name of that parameter. -/
theorem namesake_repeated :
    extractVariables "echo $1 $param1" = .ok [⟨"param1", "Function parameter $1", none, true⟩,
      ⟨"param1", "Shell variable: param1", none, false⟩] ∧
    ¬ ∀ body vs, extractVariables body = .ok vs → (vs.map (·.name)).Nodup := by
  have h : extractVariables "echo $1 $param1" = .ok [⟨"param1", "Function parameter $1", none, true⟩,
      ⟨"param1", "Shell variable: param1", none, false⟩] := by decide +kernel
  exact ⟨h, fun hall => absurd (hall _ _ h) (by decide)⟩

end ShellFunction

end Runbook
