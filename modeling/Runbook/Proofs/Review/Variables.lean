import Runbook.Proofs.Review.Usage
import Runbook.Proofs.Template.Placeholders

/-!
# What a review says of variables

A review warns of every variable that is used and not declared, and notes every one that is declared and
not used:

* `Refers`, `Mentions`: a variable stands in a text; `Uses`: it is used by some step of a tree;
* `mem_usedNames_iff`: the names that the review gathers are those that are used; `uses_iff`: how they are;
* `Reviewer.Undeclared`, `Workflow.Unused`: when there is something to say;
* `Reviewer.ReportsVariables`, **`Reviewer.variables_reported`**: it is said once, and nothing else is.
-/

namespace Runbook

namespace Review

/-! ## 1. Variables in texts -/

/-- **A shell variable stands in a text**: its name in braces, or without, in which case the name goes on
as long as it can. -/
inductive Refers (text : List Char) : List Char → Prop
  | braced {name : List Char} (hne : name ≠ []) (hname : ∀ d ∈ name, Text.isWordChar d = true)
      (h : '$' :: '\x7b' :: (name ++ ['\x7d']) <:+: text) : Refers text name
  | plain {name after : List Char} (hne : name ≠ []) (hname : ∀ d ∈ name, Text.isWordChar d = true)
      (hafter : ∀ d ∈ after.head?, Text.isWordChar d = false)
      (h : '$' :: (name ++ after) <:+ text) : Refers text name

/-- **The shell variables that a text is cut at are those that stand in it.** -/
theorem mem_shellVariables_iff {text name : String} :
    name ∈ Text.tokens (Text.pieces shellVariableAt text.toList) ↔
      Refers text.toList name.toList := by
  rw [Text.mem_tokens_iff unhidden_shellVariableAt]
  constructor
  · rintro ⟨c, rest, n, hs, hr⟩
    obtain ⟨rfl, hne, hname, after, ⟨rfl, -⟩ | ⟨rfl, -, hafter⟩⟩ := shellVariableAt_eq_some hr
    · refine .braced hne hname (List.IsInfix.trans ⟨[], after, ?_⟩ hs.isInfix)
      simp
    · exact .plain hne hname hafter hs
  · intro h
    generalize hchars : name.toList = chars at h
    cases h with
    | braced hne hname h =>
      obtain ⟨front, back, htext⟩ := h
      have hread : shellVariableAt '$' ('\x7b' :: (chars ++ '\x7d' :: back)) = _ :=
        shellVariableAt_braced hne hname
      rw [← hchars, String.ofList_toList] at hread
      exact ⟨_, _, _, ⟨front, by simp [← htext, ← hchars]⟩, hread⟩
    | plain hne hname hafter h =>
      have hread := shellVariableAt_plain hne hname hafter
      rw [← hchars, String.ofList_toList] at hread
      rw [← hchars] at h
      exact ⟨_, _, _, h, hread⟩

/-- **A text mentions a name**, as a shell variable or as a placeholder. -/
def Mentions (text name : String) : Prop :=
  Refers text.toList name.toList ∨ Template.HasPlaceholder text.toList name.toList

theorem mem_namesInText_iff {text name : String} : name ∈ namesInText text ↔ Mentions text name := by
  rw [namesInText, List.mem_append, mem_shellVariables_iff, Template.mem_tokens_placeholders_iff]
  exact Iff.rfl

instance (text name : String) : Decidable (Mentions text name) :=
  decidable_of_iff _ mem_namesInText_iff

/-- A variable without braces takes in all characters of names, and one in braces must be closed. -/
example : Mentions "$a.b$\x7bc\x7d\x7b\x7b d \x7d\x7d" "d" ∧ Mentions "$a.b" "a" ∧
    ¬ Mentions "$ab" "a" ∧ ¬ Mentions "$\x7ba b\x7d" "a" := by
  decide +kernel

theorem not_mentions_empty (name : String) : ¬ Mentions "" name := by
  rw [← mem_namesInText_iff]
  exact List.not_mem_nil

/-! ## 2. Variables of steps -/

/-- **The steps of a tree use a name**: it is the selector of a branch of the walk, or mentioned by the
command, the condition or the value of a case of one of its steps. -/
def Uses (steps : List Step) (name : String) : Prop :=
  ∃ s ∈ Step.walkBlock steps, s.selector? = some name ∨
    ∃ text, (text = s.commandText ∨ text ∈ s.conditions ∨ text ∈ s.caseValues) ∧ Mentions text name

/-- The templates of a step are its texts, save for an empty command. -/
theorem mem_templates_iff {s : Step} {text : String} (hne : text ≠ "") :
    text ∈ s.templates ↔ text = s.commandText ∨ text ∈ s.conditions ∨ text ∈ s.caseValues := by
  unfold Step.templates Step.texts
  rw [List.mem_append, List.mem_append, or_assoc]
  refine or_congr ?_ Iff.rfl
  by_cases hempty : s.commandText = ""
  · rw [if_pos hempty, hempty]
    simp [hne]
  · rw [if_neg hempty, List.mem_singleton]

/-- **The names that a review gathers are those that are used.** -/
theorem mem_usedNames_iff {steps : List Step} {name : String} :
    name ∈ usedNames steps ↔ Uses steps name := by
  rw [mem_usedNames, Uses]
  refine exists_congr fun s => and_congr_right fun _ => or_congr Option.mem_toList ?_
  refine exists_congr fun text => ?_
  rw [mem_namesInText_iff]
  refine and_congr_left fun hname => mem_templates_iff ?_
  rintro rfl
  exact not_mentions_empty name hname

instance (steps : List Step) (name : String) : Decidable (Uses steps name) :=
  decidable_of_iff _ mem_usedNames_iff

/-- A text of a step refers to a shell variable. -/
def ReferredTo (steps : List Step) (name : List Char) : Prop :=
  ∃ s ∈ Step.walkBlock steps, ∃ text ∈ s.templates, Refers text.toList name

/-- A text of a step has a placeholder. -/
def Placed (steps : List Step) (name : List Char) : Prop :=
  ∃ s ∈ Step.walkBlock steps, ∃ text ∈ s.templates, Template.HasPlaceholder text.toList name

/-- A branch goes by a variable. -/
def BranchedOn (steps : List Step) (name : String) : Prop :=
  ∃ s ∈ Step.walkBlock steps, s.selector? = some name

/-- **The ways to use a name.** -/
theorem uses_iff {steps : List Step} {name : String} : Uses steps name ↔
    BranchedOn steps name ∨ ReferredTo steps name.toList ∨ Placed steps name.toList := by
  have htexts : ∀ s : Step, (∃ text, (text = s.commandText ∨ text ∈ s.conditions ∨
      text ∈ s.caseValues) ∧ Mentions text name) ↔ ∃ text ∈ s.templates, Mentions text name := by
    refine fun s => exists_congr fun text => and_congr_left fun hm => (mem_templates_iff ?_).symm
    rintro rfl
    exact not_mentions_empty name hm
  unfold Uses
  simp only [htexts]
  simp only [BranchedOn, ReferredTo, Placed, Mentions, and_or_left, exists_or]

theorem isBuiltin_eq_false_iff {builtins : List String} {name : String} :
    isBuiltin builtins name = false ↔
      name ∉ builtins ∧ ¬ (name ≠ "" ∧ ∀ c ∈ name.toList, Text.isDigitLike c = true) := by
  rw [← Bool.not_eq_true, ← not_or]
  refine not_congr ?_
  simp [isBuiltin]

/-! ## 3. Findings with a message -/

theorem undeclared_message_inj {name other : String}
    (h : (undeclared other).message = (undeclared name).message) : other = name := by
  have hlists := congrArg String.toList h
  simpa [undeclared, String.toList_inj] using hlists

/-- Of findings on different names, one has the message of a name that is among them, and none that of
another name. -/
theorem filter_map_message {f : String → Issue}
    (hf : ∀ {a b}, (f a).message = (f b).message → a = b) {names : List String} (hn : names.Nodup)
    (name : String) : (names.map f).filter (·.message = (f name).message) =
      if name ∈ names then [f name] else [] := by
  have hsame : ((fun i : Issue => decide (i.message = (f name).message)) ∘ f) =
      fun other => decide (other = name) := by
    funext other
    exact decide_eq_decide.mpr ⟨hf, fun h => h ▸ rfl⟩
  rw [List.filter_map, hsame, List.filter_eq, hn.count]
  split <;> rfl

/-- Of findings of one kind none has a message of another kind. -/
theorem filter_map_other {f : String → Issue} {message : String}
    (hf : ∀ other, (f other).message ≠ message) (names : List String) :
    (names.map f).filter (·.message = message) = [] := by
  refine List.filter_eq_nil_iff.mpr fun i hi => ?_
  obtain ⟨other, -, rfl⟩ := List.mem_map.mp hi
  simpa using hf other

end Review

open Review

/-! ## 4. The report -/

/-- **A name is undeclared**: it is used, and it is neither declared nor known to exist nor the number of
an argument. -/
structure Reviewer.Undeclared (r : Reviewer) (w : Workflow) (name : String) : Prop where
  used : Uses w.steps name
  notDeclared : name ∉ w.declarations.map (·.name)
  notBuiltin : name ∉ r.builtins
  notNumber : ¬ (name ≠ "" ∧ ∀ c ∈ name.toList, Text.isDigitLike c = true)

/-- **A name is unused**: it is declared, and not used. -/
structure Workflow.Unused (w : Workflow) (name : String) : Prop where
  declared : name ∈ w.declarations.map (·.name)
  notUsed : ¬ Uses w.steps name

namespace Reviewer

variable {r : Reviewer} {w : Workflow} {name : String}

/-- The names that a review warns of, each once. -/
def warnedOf (r : Reviewer) (w : Workflow) : List String :=
  (usedNames w.steps).filter fun name =>
    !(w.declarations.map (·.name)).contains name && !isBuiltin r.builtins name

/-- The names that a review notes as unused, each once. -/
def notedOf (w : Workflow) : List String :=
  (distinct (w.declarations.map (·.name))).filter fun name => !(usedNames w.steps).contains name

theorem mem_warnedOf : name ∈ r.warnedOf w ↔ r.Undeclared w name := by
  simp only [warnedOf, List.mem_filter, mem_usedNames_iff, Bool.and_eq_true, Bool.not_eq_true',
    List.contains_eq_mem, decide_eq_false_iff_not, isBuiltin_eq_false_iff]
  exact ⟨fun ⟨hu, hd, hb, hn⟩ => ⟨hu, hd, hb, hn⟩, fun ⟨hu, hd, hb, hn⟩ => ⟨hu, hd, hb, hn⟩⟩

theorem mem_notedOf : name ∈ notedOf w ↔ w.Unused name := by
  simp only [notedOf, List.mem_filter, mem_distinct, Bool.not_eq_true', List.contains_eq_mem,
    decide_eq_false_iff_not, mem_usedNames_iff]
  exact ⟨fun ⟨hd, hu⟩ => ⟨hd, hu⟩, fun ⟨hd, hu⟩ => ⟨hd, hu⟩⟩

theorem nodup_warnedOf : (r.warnedOf w).Nodup := (nodup_distinct _).filter _

theorem nodup_notedOf : (notedOf w).Nodup := (nodup_distinct _).filter _

/-- Of all findings, those that begin with the letter of variables are the ones on variables. -/
theorem filter_review_of_initial {p : Issue → Bool} (hp : ∀ i, p i = true → i.initial? = some 'V') :
    (r.review w).issues.filter p =
      ((r.warnedOf w).map undeclared).filter p ++ ((notedOf w).map unused).filter p := by
  have silent : ∀ {issues : List Issue}, (∀ i ∈ issues, i.initial? ≠ some 'V') →
      issues.filter p = [] :=
    fun h => List.filter_eq_nil_iff.mpr fun i hi he => h i hi (hp i he)
  have apart : ∀ {i : Issue} {c : Char}, i.initial? = some c → c ≠ 'V' → i.initial? ≠ some 'V' :=
    fun hi hc he => hc (Option.some.inj (hi.symm.trans he))
  have hcycle : (cycleIssues r.callsOf r.known w).filter p = [] := silent fun i hi => by
    rcases initial_of_mem_cycleIssues hi with h | h <;> exact apart h (by decide)
  have hloop : (loopIssues w).filter p = [] := silent fun i hi => by
    rcases initial_of_mem_loopIssues hi with h | h <;> exact apart h (by decide)
  have hunreachable : (unreachableIssues w).filter p = [] := silent fun i hi =>
    apart (initial_of_mem_unreachableIssues hi) (by decide)
  have hmetadata : (metadataIssues w).filter p = [] := silent fun i hi =>
    apart (initial_of_mem_metadataIssues hi) (by decide)
  have hduplicate : (duplicateIssues w).filter p = [] := silent fun i hi =>
    apart (initial_of_mem_duplicateIssues hi) (by decide)
  have hcommand : (Review.commandIssues w).filter p = [] := silent fun i hi =>
    apart (initial_of_mem_commandIssues hi) (by decide)
  have hvariable : variableIssues r.builtins w =
      (r.warnedOf w).map undeclared ++ (notedOf w).map unused := rfl
  show (r.issues w).filter p = _
  simp only [issues, List.filter_append, hcycle, hloop, hunreachable, hmetadata, hduplicate, hcommand,
    hvariable, List.nil_append, List.append_nil]

theorem filter_undeclared (r : Reviewer) (w : Workflow) (name : String) :
    (r.review w).issues.filter (·.message = (undeclared name).message) =
      if name ∈ r.warnedOf w then [undeclared name] else [] := by
  rw [filter_review_of_initial, filter_map_message undeclared_message_inj nodup_warnedOf,
    filter_map_other fun other he => undeclared_message_ne name other he.symm, List.append_nil]
  intro i hi
  simp [Issue.initial?, of_decide_eq_true hi, undeclared]

/-- What is warned of is what is undeclared. -/
theorem exists_message_iff :
    (∃ i ∈ (r.review w).issues, i.message = "Variable '" ++ name ++ "' is used but not defined") ↔
      r.Undeclared w name := by
  rw [← mem_warnedOf]
  have h := filter_undeclared r w name
  constructor
  · rintro ⟨i, hi, hmessage⟩
    by_contra hname
    rw [if_neg hname] at h
    exact List.filter_eq_nil_iff.mp h i hi (decide_eq_true hmessage)
  · intro hname
    rw [if_pos hname] at h
    have hi := h.symm ▸ List.mem_singleton_self (undeclared name)
    exact ⟨_, List.mem_of_mem_filter hi, rfl⟩

theorem filter_unused (r : Reviewer) (w : Workflow) (name : String) :
    (r.review w).issues.filter (·.message = (unused name).message) =
      if name ∈ notedOf w then [unused name] else [] := by
  rw [filter_review_of_initial, filter_map_other fun other => undeclared_message_ne other name,
    filter_map_message unused_message_inj nodup_notedOf, List.nil_append]
  intro i hi
  simp [Issue.initial?, of_decide_eq_true hi, unused]

/-- **What a review says of variables.**

* `warned`, `noted`: a name that is undeclared is warned of once, and one that is unused is noted once;
* `silent`, `quiet`: of any other name neither is said;
* `others`: all findings whose messages begin like these are among them;
* `apart`: no name is both. -/
structure ReportsVariables (r : Reviewer) (w : Workflow) : Prop where
  warned : ∀ name, r.Undeclared w name → (r.review w).issues.filter
    (·.message = "Variable '" ++ name ++ "' is used but not defined") = [undeclared name]
  silent : ∀ name, ¬ r.Undeclared w name → (r.review w).issues.filter
    (·.message = "Variable '" ++ name ++ "' is used but not defined") = []
  noted : ∀ name, w.Unused name → (r.review w).issues.filter
    (·.message = "Variable '" ++ name ++ "' is defined but never used") = [unused name]
  quiet : ∀ name, ¬ w.Unused name → (r.review w).issues.filter
    (·.message = "Variable '" ++ name ++ "' is defined but never used") = []
  others : ∀ i ∈ (r.review w).issues, i.beginsWith "Variable '" = true →
    (∃ name, r.Undeclared w name ∧ i = undeclared name) ∨ ∃ name, w.Unused name ∧ i = unused name
  apart : ∀ name, ¬ (r.Undeclared w name ∧ w.Unused name)

/-- **Variables are reported exactly.** -/
theorem variables_reported (r : Reviewer) (w : Workflow) : r.ReportsVariables w where
  warned name h := (filter_undeclared r w name).trans (if_pos (mem_warnedOf.mpr h))
  silent name h := (filter_undeclared r w name).trans (if_neg (mt mem_warnedOf.mp h))
  noted name h := (filter_unused r w name).trans (if_pos (mem_notedOf.mpr h))
  quiet name h := (filter_unused r w name).trans (if_neg (mt mem_notedOf.mp h))
  others i hi hbegins := by
    have hmem : i ∈ (r.review w).issues.filter (Issue.beginsWith "Variable '") :=
      List.mem_filter.mpr ⟨hi, hbegins⟩
    rw [filter_review_of_initial fun i => Issue.initial?_of_beginsWith rfl, List.mem_append] at hmem
    rcases hmem with hmem | hmem
    · obtain ⟨name, hname, rfl⟩ := List.mem_map.mp (List.mem_of_mem_filter hmem)
      exact Or.inl ⟨name, mem_warnedOf.mp hname, rfl⟩
    · obtain ⟨name, hname, rfl⟩ := List.mem_map.mp (List.mem_of_mem_filter hmem)
      exact Or.inr ⟨name, mem_notedOf.mp hname, rfl⟩
  apart name h := h.2.notUsed h.1.used

end Reviewer

end Runbook
