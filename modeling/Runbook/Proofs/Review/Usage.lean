import Runbook.Proofs.Condition.Substitution
import Runbook.Proofs.Review.Circles
import Runbook.Proofs.Template.Dependence
import Runbook.Proofs.Text.Tidy

/-!
# Variables that a run puts in and a review counts

A run puts values in for the placeholders of a text, and in a condition also for shell variables. A
review reads both for itself, and takes more characters for part of a shell variable than a condition
does:

* `shellVariableAt_braced`, `shellVariableAt_plain`, `shellVariableAt_eq_some`: what the review reads at
  such places;
* `RunsOn`: a variable that the review takes to be longer than the condition does;
* `Reviewer.Counts`: the review counts a variable as used; `Reviewer.counts_of_mem`;
* **`Reviewer.counts_of_changed`**: it counts what a run can put in, except where the name runs on.
-/

namespace Runbook

/-! ## 1. Tokens that change a text -/

/-- A text that changes with the value of a name has a token of that name. -/
theorem Text.mem_tokens_of_changed {read : Char → List Char → Option (String × Nat)}
    {name value : String} {s : List Char}
    (h : (Text.pieces read s).flatMap (Template.resolvePiece [(name, value)]) ≠ s) :
    name ∈ Text.tokens (Text.pieces read s) := by
  by_contra hname
  refine h (Eq.trans (List.flatMap_congr fun piece hp => ?_) (Text.flatMap_source_pieces read s))
  cases piece with
  | plain c => rfl
  | token other source =>
    have hne : name ≠ other := by
      rintro rfl
      exact hname (Text.mem_tokens.mpr ⟨source, hp⟩)
    simp [Template.resolvePiece, Assoc.get?, hne, Text.Piece.source]

theorem Template.mem_placeholderNames_of_changed {name value text : String}
    (h : resolve [(name, value)] text ≠ text) : name ∈ placeholderNames text := by
  rw [placeholderNames, mem_distinct]
  have hpieces : (placeholders text).flatMap (resolvePiece [(name, value)]) ≠ text.toList := by
    intro he
    rw [resolve, he, String.ofList_toList] at h
    exact h rfl
  exact Text.mem_tokens_of_changed hpieces

namespace Review

/-! ## 2. What a review reads -/

theorem shellVariableAt_of_ne {c : Char} (hc : c ≠ '$') (rest : List Char) :
    shellVariableAt c rest = none := if_neg hc

theorem shellVariableAt_braced {name after : List Char} (hne : name ≠ [])
    (hname : ∀ d ∈ name, Text.isWordChar d = true) :
    shellVariableAt '$' ('\x7b' :: (name ++ '\x7d' :: after)) =
      some (String.ofList name, name.length + 2) := by
  have hclosed : ∀ d ∈ ('\x7d' :: after).head?, Text.isWordChar d = false := by
    simp only [List.head?_cons, Option.mem_some_iff, forall_eq']
    decide
  obtain ⟨htake, hdrop⟩ := Text.takeWhile_stop hname hclosed
  obtain ⟨first, more, rfl⟩ := List.exists_cons_of_ne_nil hne
  simp only [shellVariableAt, htake, hdrop, if_true]

theorem shellVariableAt_plain {name after : List Char} (hne : name ≠ [])
    (hname : ∀ d ∈ name, Text.isWordChar d = true)
    (hafter : ∀ d ∈ after.head?, Text.isWordChar d = false) :
    shellVariableAt '$' (name ++ after) = some (String.ofList name, name.length) := by
  obtain ⟨htake, -⟩ := Text.takeWhile_stop hname hafter
  obtain ⟨first, more, rfl⟩ := List.exists_cons_of_ne_nil hne
  unfold shellVariableAt
  rw [if_pos rfl]
  split
  · rename_i heq
    cases heq
    exact absurd (hname _ List.mem_cons_self) (by decide)
  · rw [htake]

/-- What is read is a name in braces, or one without braces that goes on as long as it can. -/
theorem shellVariableAt_eq_some {c : Char} {rest : List Char} {name : String} {n : Nat}
    (h : shellVariableAt c rest = some (name, n)) : c = '$' ∧ name.toList ≠ [] ∧
      (∀ d ∈ name.toList, Text.isWordChar d = true) ∧ ∃ after,
        (rest = '\x7b' :: (name.toList ++ '\x7d' :: after) ∧ n = name.toList.length + 2) ∨
        (rest = name.toList ++ after ∧ n = name.toList.length ∧
          ∀ d ∈ after.head?, Text.isWordChar d = false) := by
  unfold shellVariableAt at h
  split at h
  · rename_i hc
    split at h
    · rename_i body
      have hbody := List.takeWhile_append_dropWhile (p := Text.isWordChar) (l := body)
      split at h
      · cases h
      · rename_i after hafter hne
        cases h
        rw [hafter] at hbody
        rw [String.toList_ofList]
        exact ⟨hc, hne, fun d hd => List.mem_takeWhile_imp hd, after, Or.inl ⟨by rw [hbody], rfl⟩⟩
      · cases h
    · split at h
      · cases h
      · rename_i hne
        cases h
        rw [String.toList_ofList]
        exact ⟨hc, hne, fun d hd => List.mem_takeWhile_imp hd, rest.dropWhile Text.isWordChar,
          Or.inr ⟨List.takeWhile_append_dropWhile.symm, rfl, Text.dropWhile_stop Text.isWordChar rest⟩⟩
  · cases h

/-- No shell variable starts inside of another one. -/
theorem unhidden_shellVariableAt : Text.Unhidden shellVariableAt := by
  refine Text.unhidden_of_chars fun c rest value n h d hd more => ?_
  obtain ⟨-, -, hname, after, ⟨rfl, rfl⟩ | ⟨rfl, rfl, -⟩⟩ := shellVariableAt_eq_some h
  · rw [List.take_succ_cons, List.take_length_add_append, List.mem_cons, List.mem_append] at hd
    refine shellVariableAt_of_ne ?_ more
    rintro rfl
    rcases hd with hd | hd | hd
    · cases hd
    · exact absurd (hname _ hd) (by decide)
    · exact absurd (List.mem_singleton.mp hd) (by decide)
  · rw [List.take_left] at hd
    refine shellVariableAt_of_ne ?_ more
    rintro rfl
    exact absurd (hname _ hd) (by decide)

/-- What is read at a place of a text is one of its names. -/
theorem mem_namesInText_of_suffix {text : String} {rest : List Char} {name : String} {n : Nat}
    (hs : '$' :: rest <:+ text.toList) (hr : shellVariableAt '$' rest = some (name, n)) :
    name ∈ namesInText text :=
  List.mem_append_left _ (Text.mem_tokens_of_suffix unhidden_shellVariableAt hs hr)

/-- **The variable is written without braces, and to the review its name runs on**: more characters
follow that can stand in a name, of which the first one is not from ASCII. -/
structure RunsOn (name more text : String) : Prop where
  ne_empty : more ≠ ""
  beyond : ∀ d ∈ more.toList.head?, Text.isIdentChar d = false
  word : ∀ d ∈ more.toList, Text.isWordChar d = true
  written : '$' :: (name.toList ++ more.toList) <:+: text.toList

/-- A variable in braces that a condition has is one to the review. -/
theorem mem_namesInText_of_braced {text name : String}
    (h : name ∈ Text.tokens (Text.pieces Expression.bracedAt text.toList)) :
    name ∈ namesInText text := by
  obtain ⟨c, rest, n, hs, hr⟩ := Text.exists_of_mem_tokens h
  obtain ⟨after, rfl, rfl, hne, hname, -⟩ := Expression.bracedAt_eq_some hr
  have hword : ∀ d ∈ name.toList, Text.isWordChar d = true :=
    fun d hd => Text.isWordChar_of_isIdentChar (hname d hd)
  have hread : shellVariableAt '$' ('\x7b' :: (name.toList ++ '\x7d' :: after)) = _ :=
    shellVariableAt_braced hne hword
  rw [String.ofList_toList] at hread
  exact mem_namesInText_of_suffix hs hread

/-- A variable without braces that a condition has is one to the review, or its name runs on. -/
theorem mem_namesInText_of_plain {text name : String}
    (h : name ∈ Text.tokens (Text.pieces Expression.plainAt text.toList)) :
    name ∈ namesInText text ∨ ∃ more, RunsOn name more text ∧ name ++ more ∈ namesInText text := by
  obtain ⟨c, rest, n, hs, hr⟩ := Text.exists_of_mem_tokens h
  obtain ⟨after, rfl, rfl, hne, hname, hafter, -⟩ := Expression.plainAt_eq_some hr
  have hword : ∀ d ∈ name.toList, Text.isWordChar d = true :=
    fun d hd => Text.isWordChar_of_isIdentChar (hname d hd)
  by_cases hstop : ∀ d ∈ after.head?, Text.isWordChar d = false
  · left
    have hread := shellVariableAt_plain hne hword hstop
    rw [String.ofList_toList] at hread
    exact mem_namesInText_of_suffix hs hread
  · right
    obtain ⟨d, tail, rfl, hd⟩ : ∃ d tail, after = d :: tail ∧ Text.isWordChar d = true := by
      cases after with
      | nil => exact absurd nofun hstop
      | cons d tail => exact ⟨d, tail, rfl, by simpa using hstop⟩
    have hmore : ∀ e ∈ d :: tail.takeWhile Text.isWordChar, Text.isWordChar e = true :=
      List.forall_mem_cons.mpr ⟨hd, fun e he => List.mem_takeWhile_imp he⟩
    have hcut : name.toList ++ d :: tail = (name.toList ++ d :: tail.takeWhile Text.isWordChar) ++
        tail.dropWhile Text.isWordChar := by simp
    rw [hcut] at hs
    have hread := shellVariableAt_plain (by simp) (List.forall_mem_append.mpr ⟨hword, hmore⟩)
      (Text.dropWhile_stop Text.isWordChar tail)
    rw [String.ofList_append, String.ofList_toList] at hread
    refine ⟨_, ⟨?_, ?_, ?_, ?_⟩, mem_namesInText_of_suffix hs hread⟩
    · simp [← String.toList_inj]
    · simpa using hafter
    · simpa using hmore
    · rw [String.toList_ofList]
      exact (List.prefix_append _ _).isInfix.trans hs.isInfix

/-! ## 3. What a review counts -/

theorem mem_usedNames {steps : List Step} {name : String} : name ∈ usedNames steps ↔
    ∃ s ∈ Step.walkBlock steps, name ∈ s.selector?.toList ∨
      ∃ text ∈ s.templates, name ∈ namesInText text := by
  simp only [usedNames, mem_distinct, namesInStep, List.mem_flatMap, List.mem_append]

/-- The names of every text that a run goes by are used. -/
theorem mem_usedNames_of_text {w : Workflow} {s : Step} (hs : s ∈ w.allSteps) {text name : String}
    (ht : text = s.commandText ∨ text ∈ s.conditions ∨ text ∈ s.caseValues)
    (hname : name ∈ namesInText text) : name ∈ usedNames w.steps := by
  refine mem_usedNames.mpr ⟨s, hs, Or.inr ⟨text, ?_, hname⟩⟩
  rcases ht with rfl | ht | ht
  · refine Step.commandText_mem_templates fun hempty => ?_
    rw [hempty] at hname
    cases hname
  · exact List.mem_append_left _ (List.mem_append_right _ ht)
  · exact List.mem_append_right _ ht

end Review

open Review

namespace Reviewer

/-- **A review counts a variable as used**: it never says that the variable is not used, and it says
that it is not defined, if it is neither declared nor known to exist. -/
structure Counts (r : Reviewer) (w : Workflow) (name : String) : Prop where
  used : name ∈ usedNames w.steps
  notUnused : ∀ i ∈ (r.review w).issues, i.message ≠ (unused name).message
  undeclared : name ∉ w.declarations.map (·.name) → isBuiltin r.builtins name = false →
    Review.undeclared name ∈ (r.review w).issues

/-- Only findings about variables have messages that begin like theirs. -/
theorem mem_variableIssues_of_initial {r : Reviewer} {w : Workflow} {i : Issue}
    (h : i ∈ (r.review w).issues) (hi : i.initial? = some 'V') :
    i ∈ variableIssues r.builtins w := by
  have hne : ∀ {c}, i.initial? = some c → c = 'V' := fun hc => Option.some.inj (hc.symm.trans hi)
  simp only [review, issues, List.mem_append] at h
  rcases h with (((((h | h) | h) | h) | h) | h) | h
  · rcases initial_of_mem_cycleIssues h with hc | hc <;> cases hne hc
  · cases hne (initial_of_mem_unreachableIssues h)
  · exact h
  · cases hne (initial_of_mem_metadataIssues h)
  · rcases initial_of_mem_loopIssues h with hc | hc <;> cases hne hc
  · cases hne (initial_of_mem_duplicateIssues h)
  · cases hne (initial_of_mem_commandIssues h)

theorem unused_message_inj {name other : String}
    (h : (unused other).message = (unused name).message) : other = name := by
  have hlists := congrArg String.toList h
  simpa [unused, String.toList_inj] using hlists

/-- The two messages about a variable end differently. -/
theorem undeclared_message_ne (name other : String) :
    (Review.undeclared name).message ≠ (unused other).message := by
  intro h
  have hends := congrArg (fun s => s.toList.reverse.take 3) h
  simp [Review.undeclared, unused] at hends

/-- **A variable that is used is counted.** -/
theorem counts_of_mem {r : Reviewer} {w : Workflow} {name : String}
    (h : name ∈ usedNames w.steps) : r.Counts w name where
  used := h
  notUnused i hi he := by
    have hinitial : i.initial? = some 'V' := by simp [Issue.initial?, he, unused]
    rcases List.mem_append.mp (mem_variableIssues_of_initial hi hinitial) with hi | hi
    · obtain ⟨other, -, rfl⟩ := List.mem_map.mp hi
      exact undeclared_message_ne other name he
    · obtain ⟨other, hother, rfl⟩ := List.mem_map.mp hi
      cases unused_message_inj he
      simp [h] at hother
  undeclared hd hb := by
    simp only [review, issues, variableIssues, List.mem_append, List.mem_map, List.mem_filter]
    refine Or.inl (Or.inl (Or.inl (Or.inl (Or.inr (Or.inl ⟨name, ⟨h, ?_⟩, rfl⟩)))))
    simp [hb, hd]

/-- **A name whose value can change a text is counted as used; in a condition, at least if its name
does not run on, and if it does, the longer name is counted.** -/
theorem counts_of_changed (r : Reviewer) {w : Workflow} {s : Step} (hs : s ∈ w.allSteps)
    (text name : String) :
    (text = s.commandText ∨ text ∈ s.conditions ∨ text ∈ s.caseValues →
      (∃ value, Template.resolve [(name, value)] text ≠ text) → r.Counts w name) ∧
    (text ∈ s.conditions →
      (∃ value, Expression.substituteVariables [(name, value)] text ≠ text) →
        r.Counts w name ∨ ∃ more, RunsOn name more text ∧ r.Counts w (name ++ more)) := by
  constructor
  · rintro ht ⟨value, hchanged⟩
    have hname := mem_distinct.mp (Template.mem_placeholderNames_of_changed hchanged)
    exact counts_of_mem (mem_usedNames_of_text hs ht (List.mem_append_right _ hname))
  · rintro ht ⟨value, hchanged⟩
    have counts : ∀ {other}, other ∈ namesInText text → r.Counts w other :=
      fun hn => counts_of_mem (mem_usedNames_of_text hs (Or.inr (Or.inl ht)) hn)
    by_cases hbraced : name ∈ Text.tokens (Text.pieces Expression.bracedAt text.toList)
    · exact Or.inl (counts (mem_namesInText_of_braced hbraced))
    · have hsame : Expression.substituteWith Expression.bracedAt [(name, value)] text.toList =
          text.toList := by
        by_contra hne
        exact hbraced (Text.mem_tokens_of_changed hne)
      have hpieces : Expression.substituteWith Expression.plainAt [(name, value)] text.toList ≠
          text.toList := by
        intro he
        rw [Expression.substituteVariables, hsame, he, String.ofList_toList] at hchanged
        exact hchanged rfl
      rcases mem_namesInText_of_plain (Text.mem_tokens_of_changed hpieces) with
        hn | ⟨more, hruns, hn⟩
      · exact Or.inl (counts hn)
      · exact Or.inr ⟨more, hruns, counts hn⟩

/-- A workflow whose condition has a variable in front of an accented letter. -/
def accented (declared : List String) : Workflow where
  name := "accented"
  description := ""
  steps := [.conditional ⟨"Check", "", "", false, false⟩ ⟨"$né", none⟩
    [.command ⟨"Say", "", "echo \x7b\x7bm\x7d\x7d", false, false⟩] none none]
  declarations := declared.map fun name => ⟨name, "", none, false⟩
  profiles := []
  tags := []
  createdAt := 0
  lastUsed := none
  useCount := 0

/-- The value of the variable goes into the condition, and the review says that it is never used; it
says of a longer name that it is not defined, and nothing of the variable where it is not. -/
theorem accented_uncounted :
    let r : Reviewer := ⟨[], [], []⟩
    "$né" ∈ (accented ["n"]).allSteps.flatMap Step.conditions ∧
      Expression.substituteVariables [("n", "1")] "$né" = "1é" ∧
      "n" ∉ usedNames (accented ["n"]).steps ∧
      unused "n" ∈ (r.review (accented ["n"])).issues ∧
      undeclared "né" ∈ (r.review (accented ["n"])).issues ∧
      isBuiltin r.builtins "n" = false ∧
      undeclared "n" ∉ (r.review (accented [])).issues := by
  decide +kernel

/-- What is put in for the placeholder of the command is counted, and in the condition the variable is
or its name runs on. -/
theorem accented_counts :
    let r : Reviewer := ⟨[], [], []⟩
    r.Counts (accented ["n"]) "m" ∧ (r.Counts (accented ["n"]) "n" ∨
      ∃ more, RunsOn "n" more "$né" ∧ r.Counts (accented ["n"]) ("n" ++ more)) := by
  intro r
  have hsay : Step.command ⟨"Say", "", "echo \x7b\x7bm\x7d\x7d", false, false⟩ ∈
      (accented ["n"]).allSteps := by decide +kernel
  have hcheck : (accented ["n"]).steps.head (by decide) ∈ (accented ["n"]).allSteps := by
    decide +kernel
  exact ⟨(counts_of_changed r hsay _ "m").1 (Or.inl rfl) ⟨"1", by decide +kernel⟩,
    (counts_of_changed r hcheck "$né" "n").2 (by decide +kernel) ⟨"1", by decide +kernel⟩⟩

end Reviewer

end Runbook
