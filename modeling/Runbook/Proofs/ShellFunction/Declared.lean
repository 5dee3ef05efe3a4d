import Runbook.Proofs.ShellFunction.References
import Runbook.ShellFunction.Conversion

/-!
# The variables that a converted function declares

A conversion takes the variables to declare from the body; a review takes those that are used from the
steps:

* `Writes`: a name stands behind a dollar sign; `writes_of_refers`, `Writes.of_cutFrom`;
* `mem_namesUsed`, `mem_parametersUsed`: the names and the numbers that stand there are found in a body;
* `writes_of_caseSelector?`: the selector of a choice stands there too, or its line has no dollar sign;
* `DeclaresVariables`, **`convert_declares`**: a converted function declares the variables that its steps
  refer to, and a review warns only of what stands in double braces or as a bare selector.
-/

namespace Runbook.ShellFunction

open Text Review

/-! ## 1. Names behind dollar signs -/

/-- **A name stands behind a dollar sign** in a text, perhaps with a brace in front, and ends there. -/
def Writes (text name : List Char) : Prop :=
  ∃ brace after, (brace = [] ∨ brace = ['\x7b']) ∧ '$' :: (brace ++ (name ++ after)) <:+ text ∧
    ∀ d ∈ after.head?, isWordChar d = false

theorem Writes.of_cutFrom {s t name : List Char} (h : Writes s name) (hc : CutFrom s t) :
    Writes t name := by
  obtain ⟨brace, after, hbrace, hs, hafter⟩ := h
  have hs : ('$' :: (brace ++ name)) ++ after <:+ s := by simpa using hs
  obtain ⟨more, hmore, hstop⟩ := hc.extend hs hafter
  exact ⟨brace, more, hbrace, by simpa using hmore, hstop⟩

theorem writes_of_refers {text name : List Char} (h : Refers text name) : Writes text name := by
  cases h with
  | braced _ _ h =>
    obtain ⟨front, back, rfl⟩ := h
    exact ⟨['\x7b'], '\x7d' :: back, Or.inr rfl, ⟨front, by simp⟩, by rintro d ⟨⟩; decide⟩
  | @plain after _ _ hafter h => exact ⟨[], after, Or.inl rfl, h, hafter⟩

/-- **What stands behind a dollar sign is read there**: to a class of characters of names, a name of
such characters is all that it takes in. -/
theorem Writes.read {text name : List Char} (h : Writes text name) (hne : name ≠ [])
    {p : Char → Bool} (hp : ∀ {d}, p d = true → isWordChar d = true)
    (hname : ∀ d ∈ name, p d = true) :
    ∃ rest s n, '$' :: rest <:+ text ∧ behindDollar '$' rest = some (s, n) ∧ s.takeWhile p = name := by
  obtain ⟨brace, after, hbrace, hs, hafter⟩ := h
  have hstop : ∀ d ∈ after.head?, p d = false := fun d hd => by
    cases hd' : p d with
    | false => rfl
    | true => rw [← hafter d hd, hp hd']
  refine ⟨_, name ++ after, brace.length, hs, ?_, (takeWhile_stop hname hstop).1⟩
  obtain ⟨first, more, rfl⟩ := List.exists_cons_of_ne_nil hne
  rcases hbrace with rfl | rfl
  · unfold behindDollar
    rw [if_pos rfl, List.nil_append]
    split
    · rename_i heq
      cases heq
      exact absurd (hp (hname _ List.mem_cons_self)) (by decide)
    · rfl
  · rfl

theorem behindDollar_eq_some {c : Char} {rest s : List Char} {n : Nat}
    (h : behindDollar c rest = some (s, n)) :
    c = '$' ∧ ∃ brace, (brace = [] ∨ brace = ['\x7b']) ∧ rest = brace ++ s ∧ n = brace.length := by
  unfold behindDollar at h
  split at h
  · rename_i hc
    split at h
    · cases h
      exact ⟨hc, ['\x7b'], Or.inr rfl, rfl, rfl⟩
    · cases h
      exact ⟨hc, [], Or.inl rfl, rfl, rfl⟩
  · cases h

/-- What is read behind dollar signs hides nothing, if it is read from characters of a class that the
dollar sign is not of. -/
theorem unhidden_behindDollar {α : Type} {p : Char → Bool} (hp : p '$' = false)
    {f : List Char × Nat → Option (α × Nat)} (hf : ∀ s brace value n,
      f (s, brace) = some (value, n) → n = brace + (s.takeWhile p).length) :
    Unhidden fun c rest => (behindDollar c rest).bind f := by
  refine unhidden_of_chars fun c rest value n h d hd more => ?_
  obtain ⟨⟨s, b⟩, hs, h⟩ := Option.bind_eq_some_iff.mp h
  obtain ⟨-, brace, hbrace, rfl, rfl⟩ := behindDollar_eq_some hs
  have hne : d ≠ '$' := by
    rintro rfl
    rw [hf s _ value n h, List.take_length_add_append, List.mem_append,
      ← List.prefix_iff_eq_take.mp (List.takeWhile_prefix p)] at hd
    rcases hd with hd | hd
    · rcases hbrace with rfl | rfl
      · cases hd
      · exact absurd (List.mem_singleton.mp hd) (by decide)
    · rw [List.mem_takeWhile_imp hd] at hp
      cases hp
  have hnone : behindDollar d more = none := if_neg hne
  simp only [hnone, Option.bind_none]

/-! ## 2. What is found in a body -/

/-- **The name of a shell variable**: letters of ASCII, digits and underscores, and no digit in front. -/
structure VariableName (name : String) : Prop where
  start : ∃ first ∈ name.toList.head?, isIdentStart first = true
  chars : ∀ d ∈ name.toList, isIdentChar d = true

theorem unhidden_variableAt : Unhidden variableAt := by
  refine unhidden_behindDollar (p := isIdentChar) (by decide) fun s brace value n h => ?_
  cases s with
  | nil => cases h
  | cons first rest =>
    dsimp only at h
    split at h
    · cases h
      rfl
    · cases h

theorem unhidden_parameterAt : Unhidden parameterAt := by
  refine unhidden_behindDollar (p := isDecimal) (by decide) fun s brace value n h => ?_
  dsimp only at h
  split at h
  · cases h
  · cases h
    rfl

/-- **A name behind a dollar sign is found in a body.** -/
theorem mem_namesUsed {body name : String} (hname : VariableName name)
    (h : Writes body.toList name.toList) : name ∈ namesUsed body := by
  obtain ⟨first, hfirst, hstart⟩ := hname.start
  obtain ⟨more, hchars⟩ := List.head?_eq_some_iff.mp hfirst
  obtain ⟨rest, s, n, hs, hread, htake⟩ :=
    h.read (by simp [hchars]) isWordChar_of_isIdentChar hname.chars
  refine mem_distinct.mpr (mem_tokens_of_suffix unhidden_variableAt
    (n := n + name.toList.length) hs ?_)
  cases s with
  | nil => simp [← htake] at hchars
  | cons first' s =>
    obtain rfl : first' = first := by
      rw [hchars, List.takeWhile_cons] at htake
      split at htake
      · exact (List.cons.inj htake).1
      · cases htake
    simp only [variableAt, hread, Option.bind_some, if_pos hstart, htake, String.ofList_toList]

/-- **So is a number.** -/
theorem mem_parametersUsed {body : String} {digits : List Char} (hne : digits ≠ [])
    (hdigits : ∀ d ∈ digits, isDecimal d = true) (h : Writes body.toList digits) :
    digits ∈ parametersUsed body := by
  obtain ⟨rest, s, n, hs, hread, htake⟩ := h.read hne isWordChar_of_isDecimal hdigits
  refine mem_tokens_of_suffix unhidden_parameterAt (n := n + digits.length) hs ?_
  simp only [parameterAt, hread, Option.bind_some, htake]

/-! ## 3. Selectors -/

theorem dropOptional_eq (c : Char) (s : List Char) :
    ∃ front, (front = [] ∨ front = [c]) ∧ s = front ++ dropOptional c s := by
  cases s with
  | nil => exact ⟨[], Or.inl rfl, rfl⟩
  | cons d rest =>
    by_cases hd : d = c
    · exact ⟨[c], Or.inr rfl, by rw [dropOptional, if_pos hd, hd, List.singleton_append]⟩
    · exact ⟨[], Or.inl rfl, by rw [dropOptional, if_neg hd, List.nil_append]⟩

theorem dollar_mem_dropOptional {c : Char} {s : List Char} (hc : c ≠ '$') (h : '$' ∈ s) :
    '$' ∈ dropOptional c s := by
  obtain ⟨front, hfront, hs⟩ := dropOptional_eq c s
  rw [hs, List.mem_append] at h
  refine h.resolve_left fun hm => ?_
  rcases hfront with rfl | rfl
  · cases hm
  · exact hc (List.mem_singleton.mp hm).symm

theorem dollar_mem_of_skipBlanks? {s r : List Char} (h : skipBlanks? s = some r) (hs : '$' ∈ s) :
    '$' ∈ r := by
  have hdollar : isBlank '$' = false := by decide
  unfold skipBlanks? at h
  split at h
  · cases h
  · rename_i c rest
    split at h
    · rename_i hc
      cases h
      rcases List.mem_cons.mp hs with rfl | hs
      · exact absurd hc (by decide)
      · rw [← List.takeWhile_append_dropWhile (p := isBlank) (l := rest), List.mem_append] at hs
        refine hs.resolve_left fun hm => ?_
        rw [List.mem_takeWhile_imp hm] at hdollar
        cases hdollar
    · cases h

theorem takeName?_eq_some {s name back : List Char} (h : takeName? s = some (name, back)) :
    s = name ++ back ∧ (∀ d ∈ name, isWordChar d = true) ∧ ∀ d ∈ back.head?, isWordChar d = false := by
  unfold takeName? at h
  split at h
  · cases h
  · cases h
    exact ⟨List.takeWhile_append_dropWhile.symm, fun d hd => List.mem_takeWhile_imp hd,
      dropWhile_stop isWordChar s⟩

/-- **The selector of a choice stands behind a dollar sign, or its line has none.** -/
theorem writes_of_caseSelector? {line selector : List Char} (h : caseSelector? line = some selector) :
    Writes line selector ∨ '$' ∉ line := by
  obtain ⟨r, hr, h⟩ := Option.bind_eq_some_iff.mp h
  obtain ⟨t, ht, hr⟩ := Option.bind_eq_some_iff.mp hr
  obtain ⟨⟨name, back⟩, hname, h⟩ := Option.bind_eq_some_iff.mp h
  dsimp only at h
  split at h
  · rename_i hback
    cases h
    obtain ⟨hcut, hword, hstop⟩ := takeName?_eq_some hname
    obtain ⟨quote, -, hquote⟩ := dropOptional_eq '"' r
    have hquote : dropOptional '"' r <:+ r := ⟨quote, hquote.symm⟩
    obtain ⟨mark, hmark, hs⟩ := dropOptional_eq '$' (dropOptional '"' r)
    obtain ⟨brace, hbrace, hd⟩ := dropOptional_eq '\x7b' (dropOptional '$' (dropOptional '"' r))
    rcases hmark with rfl | rfl
    · right
      intro hm
      -- without a dollar sign in its place the line would have none at any other
      rw [dropStart?_eq_some_iff.mp ht, List.mem_append] at hm
      have hm := dollar_mem_of_skipBlanks? hr (hm.resolve_left (by decide))
      have hm := dollar_mem_dropOptional (c := '"') (by decide) hm
      rw [hs, List.nil_append] at hm
      have hm := dollar_mem_dropOptional (c := '\x7b') (by decide) hm
      rw [hcut, List.mem_append] at hm
      have hm := hm.resolve_left fun hn => absurd (hword _ hn) (by decide)
      have hm := dollar_mem_dropOptional (c := '\x7d') (by decide) hm
      have hm := dollar_mem_dropOptional (c := '"') (by decide) hm
      exact absurd (dollar_mem_of_skipBlanks? hback hm) (by decide)
    · left
      refine ⟨brace, back, hbrace, ?_, hstop⟩
      rw [← hcut, ← hd, ← List.singleton_append, ← hs]
      exact hquote.trans ((suffix_of_skipBlanks? hr).trans (suffix_of_dropStart? ht))
  · cases h

/-! ## 4. Converted functions -/

/-- **What a converted function declares.**

* `names`, `parameters`: every shell variable and every parameter that its steps refer to;
* `selectors`: the variables that branches go by, save where the line of the body names them without a
  dollar sign;
* `warned`: a review warns only of placeholders and of such selectors, and of these if nothing else
  declares them; `numbers`: it never warns of a number. -/
structure DeclaresVariables (body : String) (w : Workflow) : Prop where
  names : ∀ name, VariableName name → ReferredTo w.steps name.toList →
    name ∈ w.declarations.map (·.name)
  parameters : ∀ digits, digits ≠ [] → (∀ d ∈ digits, isDecimal d = true) → ReferredTo w.steps digits →
    ∀ n, 0 < n → n ≤ numberOf digits → parameterVariable n ∈ w.declarations
  selectors : ∀ name, VariableName name → BranchedOn w.steps name →
    name ∈ w.declarations.map (·.name) ∨
      ∃ line ∈ linesOfBody body, caseSelector? line = some name.toList ∧ '$' ∉ line
  warned : ∀ (r : Reviewer) (name : String), VariableName name →
    ((∃ i ∈ (r.review w).issues, i.message = "Variable '" ++ name ++ "' is used but not defined") ↔
      (Placed w.steps name.toList ∨ BranchedOn w.steps name) ∧
        name ∉ w.declarations.map (·.name) ∧ name ∉ r.builtins)
  numbers : ∀ (r : Reviewer) (name : String), name ≠ "" → (∀ d ∈ name.toList, isDigitLike d = true) →
    ∀ i ∈ (r.review w).issues, i.message ≠ "Variable '" ++ name ++ "' is used but not defined"

theorem exists_of_selector?_stepOf {s : Statement} {name : String}
    (h : (stepOf s).selector? = some name) : ∃ arms, s = .choice name arms := by
  cases s with
  | choice selector arms =>
    cases h
    exact ⟨arms, rfl⟩
  | conditional condition thenBlock elseBlock => cases elseBlock <;> cases h
  | command | forLoop | whileLoop | assignment => cases h

/-- A name of a shell variable is not the number of an argument. -/
theorem VariableName.not_number {name : String} (h : VariableName name) :
    ¬ ∀ d ∈ name.toList, isDigitLike d = true := by
  obtain ⟨first, hfirst, hstart⟩ := h.start
  intro hdigits
  have hdigit := hdigits first (List.mem_of_mem_head? hfirst)
  rw [isDigitLike_of_isIdentStart hstart] at hdigit
  cases hdigit

theorem le_highestParameter {body : String} {digits : List Char} (h : digits ∈ parametersUsed body) :
    numberOf digits ≤ highestParameter body :=
  (List.max?_eq_some_iff.mp List.max?_cons').2 _ (List.mem_cons_of_mem 0 (List.mem_map_of_mem h))

/-- **The steps of a body refer to nothing that does not stand in it.** -/
theorem writes_of_referredTo {body : String} {block : List Statement} {name : List Char}
    (hblock : Statement.ofText body = .ok block) (h : ReferredTo (stepsOf block) name) :
    Writes body.toList name := by
  obtain ⟨s, hs, text, ht, hr⟩ := h
  obtain ⟨statement, hstatement, rfl⟩ := mem_walk_stepsOf block s hs
  have hcovered := covered_of_ofText hblock statement hstatement
  have htexts := templates_stepOf (P := fun text => Covered body.toList text.toList)
    (fun _ _ isLocal => covered_assignmentCommand isLocal) hcovered.texts
  exact writes_of_refers (htexts text ht name hr)

/-- **The selectors of its branches stand behind dollar signs, or on lines without.** -/
theorem writes_of_branchedOn {body : String} {block : List Statement} {name : String}
    (hblock : Statement.ofText body = .ok block) (h : BranchedOn (stepsOf block) name) :
    Writes body.toList name.toList ∨
      ∃ line ∈ linesOfBody body, caseSelector? line = some name.toList ∧ '$' ∉ line := by
  obtain ⟨s, hs, hselector⟩ := h
  obtain ⟨statement, hstatement, rfl⟩ := mem_walk_stepsOf block s hs
  obtain ⟨arms, rfl⟩ := exists_of_selector?_stepOf hselector
  obtain ⟨line, hline, hread⟩ :=
    (covered_of_ofText hblock _ hstatement).selector name arms rfl
  rcases writes_of_caseSelector? hread with hwrites | hnone
  · exact Or.inl (hwrites.of_cutFrom (cutFrom_of_mem_linesOfBody hline))
  · exact Or.inr ⟨line, hline, hread, hnone⟩

theorem mem_declared {body name : String} (h : name ∈ namesUsed body) :
    name ∈ (variablesOf body).map (·.name) := by
  refine List.mem_map.mpr ⟨namedVariable name, ?_, rfl⟩
  exact List.mem_append_right _ (List.mem_map_of_mem h)

/-- **A converted function declares its variables.** -/
theorem convert_declares {now : Int} {r : ConversionRequest} {content : String} {w : Workflow}
    (h : convert now r content = .ok w) :
    ∃ body, extractBody r.function content = .ok body ∧ DeclaresVariables body w := by
  obtain ⟨body, block, hbody, hblock, hsteps, hdeclarations⟩ := of_convert_eq_ok h
  have declared : ∀ name, VariableName name → Writes body.toList name.toList →
      name ∈ w.declarations.map (·.name) := fun name hname hwrites => by
    rw [hdeclarations]
    exact mem_declared (mem_namesUsed hname hwrites)
  have names : ∀ name, VariableName name → ReferredTo w.steps name.toList →
      name ∈ w.declarations.map (·.name) :=
    fun name hname hr => declared name hname (writes_of_referredTo hblock (hsteps ▸ hr))
  refine ⟨body, hbody, names, ?_, ?_, ?_, ?_⟩
  · intro digits hne hdigits hr n hpos hle
    have hused := mem_parametersUsed hne hdigits (writes_of_referredTo hblock (hsteps ▸ hr))
    have hhigh := le_highestParameter hused
    rw [hdeclarations, variablesOf, List.mem_append]
    refine Or.inl (List.mem_map.mpr ⟨n - 1, List.mem_range.mpr (by omega), ?_⟩)
    rw [Nat.sub_add_cancel hpos]
  · intro name hname hb
    exact (writes_of_branchedOn hblock (hsteps ▸ hb)).imp_left (declared name hname)
  · intro r name hname
    rw [Reviewer.exists_message_iff]
    constructor
    · rintro ⟨hused, hdeclared, hbuiltin, -⟩
      refine ⟨?_, hdeclared, hbuiltin⟩
      rcases uses_iff.mp hused with hb | hr | hp
      · exact Or.inr hb
      · exact absurd (names name hname hr) hdeclared
      · exact Or.inl hp
    · rintro ⟨hused, hdeclared, hbuiltin⟩
      refine ⟨uses_iff.mpr ?_, hdeclared, hbuiltin, fun hnumber => hname.not_number hnumber.2⟩
      exact hused.elim (fun hp => Or.inr (Or.inr hp)) Or.inl
  · intro r name hne hdigits i hi hmessage
    exact (Reviewer.exists_message_iff.mp ⟨i, hi, hmessage⟩).notNumber ⟨hne, hdigits⟩

/-- A function that uses a shell variable, a placeholder, a bare selector and a parameter. -/
def mixedScript : String :=
  "f() \x7b\n  echo $a \x7b\x7bx\x7d\x7d\n  case y in\n    b) echo $2 ;;\n  esac\n\x7d"

/-- What it is converted into. -/
def mixed : Workflow where
  name := "f"
  description := ""
  steps := [
    .command ⟨"Execute: echo $a \x7b\x7bx\x7d\x7d", "Execute shell command",
      "echo $a \x7b\x7bx\x7d\x7d", false, false⟩,
    .branch ⟨"Branch by Value", "Branch based on variable: y", "", false, false⟩ "y"
      [("b", [.command ⟨"Execute: echo $2", "Execute shell command", "echo $2", false, false⟩])] none]
  declarations := [⟨"param1", "Function parameter $1", none, true⟩,
    ⟨"param2", "Function parameter $2", none, true⟩, ⟨"a", "Shell variable: a", none, false⟩]
  profiles := []
  tags := []
  createdAt := 0
  lastUsed := none
  useCount := 0

/-- It declares its parameters and its shell variable. -/
theorem mixed_declares : convert 0 ⟨"f", none, "", []⟩ mixedScript = .ok mixed ∧
    ∃ body, extractBody "f" mixedScript = .ok body ∧ DeclaresVariables body mixed := by
  have h : convert 0 ⟨"f", none, "", []⟩ mixedScript = .ok mixed := by decide +kernel
  exact ⟨h, convert_declares h⟩

/-- By the standard configuration, the placeholder and the selector are warned of, and nothing else. -/
theorem mixed_warned : ∃ r, Reviewer.ofConfig [] Config.standard = .ok r ∧
    convert 0 ⟨"f", none, "", []⟩ mixedScript = .ok mixed ∧
      r.warnedOf mixed = ["x", "y"] ∧ undeclared "x" ∈ (r.review mixed).issues ∧
        undeclared "y" ∈ (r.review mixed).issues := by
  refine ⟨_, rfl, ?_⟩
  decide +kernel

end Runbook.ShellFunction
