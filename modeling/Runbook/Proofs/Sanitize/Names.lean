import Runbook.Proofs.Condition.Substitution
import Runbook.Proofs.Template.Placeholders
import Runbook.Sanitize.Input

/-!
# Names of variables

A name that is let through is to be one that texts can refer to. Which names those are, and what becomes
of a reference to one:

* `Identifier`, `isIdentifierLine_iff`: the names that are let through are identifiers, or end in a line
  feed behind one;
* `placeholders_placeholder`, `resolve_placeholder`: a text that is one placeholder;
* `substituteVariables_reference`, `substituteVariables_brokenReference`: a condition that is one variable;
* `NameChecked`, **`variableName_checked`**: what is said of every text that is offered as a name.
-/

namespace Runbook

/-! ## 1. A text that is one placeholder -/

namespace Template

section Placeholder

variable {left name right : List Char} (hne : name ≠ [])
  (hname : ∀ d ∈ name, Text.isWordChar d = true) (hleft : ∀ d ∈ left, Text.isBlank d = true)
  (hright : ∀ d ∈ right, Text.isBlank d = true)

include hne hname hleft hright

/-- A placeholder alone is one piece. -/
theorem placeholders_placeholder : placeholders (String.ofList (placeholder left name right)) =
    [.token (String.ofList name) (placeholder left name right)] := by
  have hread := placeholderAt_written hne hname hleft hright []
  have hlength : left.length + name.length + right.length + 3 =
      ('\x7b' :: (left ++ (name ++ (right ++ ['\x7d', '\x7d'])))).length := by
    simp only [List.length_cons, List.length_append, List.length_nil]
    omega
  unfold placeholders
  rw [String.toList_ofList, placeholder, Text.pieces_of_some hread, hlength, List.take_length,
    List.drop_length]
  rfl

/-- A placeholder alone becomes the value of its name, or stays as it is. -/
theorem resolve_placeholder (context : Context) :
    resolve context (String.ofList (placeholder left name right)) =
      (context.get? (String.ofList name)).getD (String.ofList (placeholder left name right)) := by
  unfold resolve
  rw [placeholders_placeholder hne hname hleft hright, List.flatMap_singleton, resolvePiece]
  cases context.get? (String.ofList name) with
  | none => rfl
  | some value => exact String.ofList_toList

end Placeholder

end Template

/-! ## 2. A condition that is one variable -/

namespace Expression

/-- A variable in braces as it is written. -/
def reference (name : List Char) : List Char :=
  '$' :: '\x7b' :: (name ++ ['\x7d'])

/-- Where no variable is bound that starts a text, and no dollar sign follows, a turn changes nothing. -/
theorem substituteWith_of_first {f : Form} {context : Context} {c : Char} {rest : List Char}
    (hrest : '$' ∉ rest) (h : ∀ name after, ¬ Starts f name after (c :: rest)) :
    substituteWith f.read context (c :: rest) = c :: rest := by
  have hkept : substituteWith f.read context rest = rest := by
    have happend : substituteWith f.read context (rest ++ []) = rest ++ [] :=
      substituteWith_append hrest []
    rwa [List.append_nil] at happend
  rcases substituteWith_cons f context c rest with ⟨name, after, -, hs, -⟩ | ⟨-, he⟩
  · exact absurd hs (h name after)
  · rw [he, hkept]

/-- A variable alone becomes its value, if no dollar sign is in that. -/
theorem substituteVariables_reference {context : Context} {name : List Char} {value : String}
    (hne : name ≠ []) (hname : ∀ d ∈ name, Text.isIdentChar d = true)
    (hv : context.get? (String.ofList name) = some value) (hvalue : '$' ∉ value.toList) :
    substituteVariables context (String.ofList (reference name)) = value := by
  have hstarts : Starts .braced name [] (reference name) := .braced hne hname
  have hbraced : substituteWith Form.braced.read context (reference name) = value.toList := by
    rcases substituteWith_cons .braced context '$' ('\x7b' :: (name ++ ['\x7d'])) with
      ⟨other, after, found, hs, hfound, he⟩ | ⟨hnone, -⟩
    · obtain ⟨rfl, rfl⟩ := hstarts.unique hs
      rw [hv] at hfound
      obtain rfl := Option.some.inj hfound
      exact he.trans (List.append_nil _)
    · rw [hnone name [] hstarts] at hv
      cases hv
  have hplain : substituteWith Form.plain.read context (value.toList ++ []) = value.toList ++ [] :=
    substituteWith_append hvalue []
  rw [List.append_nil] at hplain
  unfold substituteVariables
  rw [String.toList_ofList]
  change String.ofList (substituteWith Form.plain.read context
    (substituteWith Form.braced.read context (reference name))) = value
  rw [hbraced, hplain]
  exact String.ofList_toList

/-- Behind an opening brace no name without braces starts. -/
theorem not_starts_plain_brace {name after rest : List Char} :
    ¬ Starts .plain name after ('$' :: '\x7b' :: rest) := by
  have hnone : ∀ d ∈ ('\x7b' :: rest).head?, Text.isIdentChar d = false := by
    simp only [List.head?_cons, Option.mem_some_iff, forall_eq']
    decide
  have hempty : ∀ d ∈ ([] : List Char), Text.isIdentChar d = true :=
    fun d hd => absurd hd List.not_mem_nil
  have hiff := starts_plain_iff hempty hnone name after
  exact fun h => (hiff.mp h).1 rfl

/-- A name in braces that is followed by anything but the closing brace is no variable. -/
theorem substituteVariables_brokenReference {name : List Char} {c : Char} (context : Context)
    (hname : ∀ d ∈ name, Text.isIdentChar d = true) (hc : Text.isIdentChar c = false)
    (hclose : c ≠ '\x7d') (hdollar : c ≠ '$') :
    substituteVariables context (String.ofList (reference (name ++ [c]))) =
      String.ofList (reference (name ++ [c])) := by
  have hrest : '$' ∉ '\x7b' :: (name ++ [c] ++ ['\x7d']) := by
    have hfree : '$' ∉ name := fun hd => absurd (hname _ hd) (by decide)
    simp only [List.mem_cons, List.mem_append, List.not_mem_nil, or_false, not_or]
    exact ⟨by decide, ⟨hfree, Ne.symm hdollar⟩, by decide⟩
  have hbraced : ∀ other after, ¬ Starts .braced other after (reference (name ++ [c])) := by
    intro other after h
    generalize htext : reference (name ++ [c]) = text at h
    cases h with
    | braced hne hother =>
      have hcut := (List.cons.inj (List.cons.inj htext).2).2
      rw [List.append_assoc] at hcut
      -- both names end where the first character that stands in no name is
      have hstop : ∀ d ∈ ([c] ++ ['\x7d']).head?, Text.isIdentChar d = false := by
        simpa only [List.cons_append, List.head?_cons, Option.mem_some_iff, forall_eq'] using hc
      have hbrace : ∀ d ∈ ('\x7d' :: after).head?, Text.isIdentChar d = false := by
        simp only [List.head?_cons, Option.mem_some_iff, forall_eq']
        decide
      have hfirst := (Text.takeWhile_stop hname hstop).2
      have hsecond := (Text.takeWhile_stop hother hbrace).2
      rw [hcut, hsecond] at hfirst
      exact hclose (List.cons.inj hfirst).1.symm
  unfold substituteVariables
  rw [String.toList_ofList]
  change String.ofList (substituteWith Form.plain.read context
    (substituteWith Form.braced.read context (reference (name ++ [c])))) = _
  rw [reference, substituteWith_of_first hrest hbraced,
    substituteWith_of_first hrest fun _ _ => not_starts_plain_brace]

end Expression

/-! ## 3. Names -/

namespace Sanitize

/-- **An identifier**: an ASCII letter or an underscore, and behind it ASCII letters, digits and
underscores. -/
inductive Identifier : List Char → Prop
  | written {first : Char} {others : List Char} (hfirst : Text.isIdentStart first = true)
      (hothers : ∀ d ∈ others, Text.isIdentChar d = true) : Identifier (first :: others)

/-- An identifier with one line feed behind it. -/
def IdentifierLine (n : List Char) : Prop := ∃ name, Identifier name ∧ n = name ++ ['\n']

namespace Identifier

variable {n : List Char}

theorem ne_nil (h : Identifier n) : n ≠ [] := by
  cases h with
  | written => exact List.cons_ne_nil _ _

theorem isIdentChar (h : Identifier n) : ∀ d ∈ n, Text.isIdentChar d = true := by
  cases h with
  | written hfirst hothers =>
    exact List.forall_mem_cons.mpr ⟨Text.isIdentChar_of_isIdentStart hfirst, hothers⟩

theorem isWordChar (h : Identifier n) : ∀ d ∈ n, Text.isWordChar d = true :=
  fun d hd => Text.isWordChar_of_isIdentChar (h.isIdentChar d hd)

end Identifier

/-- **What is let through is an identifier, where one line feed may follow it.** -/
theorem isIdentifierLine_iff {n : List Char} :
    isIdentifierLine n = true ↔ Identifier n ∨ IdentifierLine n := by
  cases n with
  | nil =>
    refine iff_of_false Bool.false_ne_true ?_
    intro h
    rcases h with h | ⟨name, -, h⟩
    · cases h
    · exact absurd h (by simp)
  | cons c rest =>
    unfold isIdentifierLine
    rw [Bool.and_eq_true, Bool.or_eq_true, Bool.and_eq_true, List.all_eq_true, List.all_eq_true,
      beq_iff_eq]
    constructor
    · intro h
      obtain ⟨hc, hrest | ⟨hlast, hrest⟩⟩ := h
      · exact Or.inl (.written hc hrest)
      · have hsplit := List.dropLast_append_getLast? '\n' hlast
        exact Or.inr ⟨c :: rest.dropLast, .written hc hrest, by rw [List.cons_append, hsplit]⟩
    · intro h
      rcases h with h | ⟨name, hname, heq⟩
      · cases h with
        | written hc hrest => exact ⟨hc, Or.inl hrest⟩
      · cases hname with
        | written hc hrest =>
          rw [List.cons_append] at heq
          obtain ⟨rfl, rfl⟩ := List.cons.inj heq
          refine ⟨hc, Or.inr ⟨List.getLast?_concat, ?_⟩⟩
          rwa [List.dropLast_concat]

/-- **What is said of a text** `n` that is offered as a name: it is let through, as it is, exactly if it has
at most 64 characters and is an identifier or one with a line feed behind it; a refusal tells which of the
two it lacks. Texts can refer to an identifier: a placeholder holds just that name, and gives way to the
name's value; so does a variable of a condition, if no dollar sign is in the value. To a name that ends in a
line feed no text can refer: the placeholder belongs to the name without it, and the condition stays as it
is. -/
structure NameChecked (n : List Char) : Prop where
  accepted : ∀ m, variableName n = .ok m ↔
    m = n ∧ n.length ≤ 64 ∧ (Identifier n ∨ IdentifierLine n)
  refused : ∀ error, variableName n = .error error ↔
    error = .badVariableName (String.ofList n) ∧ ¬ (Identifier n ∨ IdentifierLine n) ∨
    error = .variableNameTooLong ∧ 64 < n.length ∧ (Identifier n ∨ IdentifierLine n)
  named : Identifier n →
    Template.placeholderNames (String.ofList (Template.placeholder [] n [])) = [String.ofList n]
  resolved : Identifier n → ∀ (context : Context) (value : String),
    context.get? (String.ofList n) = some value →
      Template.resolve context (String.ofList (Template.placeholder [] n [])) = value
  substituted : Identifier n → ∀ (context : Context) (value : String),
    context.get? (String.ofList n) = some value → '$' ∉ value.toList →
      Expression.substituteVariables context (String.ofList (Expression.reference n)) = value
  lineNamed : ∀ name, Identifier name → n = name ++ ['\n'] →
    Template.placeholderNames (String.ofList (Template.placeholder [] n [])) = [String.ofList name]
  lineResolved : ∀ name, Identifier name → n = name ++ ['\n'] → ∀ context : Context,
    Template.resolve context (String.ofList (Template.placeholder [] n [])) =
      (context.get? (String.ofList name)).getD (String.ofList (Template.placeholder [] n []))
  lineSubstituted : IdentifierLine n → ∀ context : Context,
    Expression.substituteVariables context (String.ofList (Expression.reference n)) =
      String.ofList (Expression.reference n)

theorem variableName_ok_iff {n m : List Char} : variableName n = .ok m ↔
    m = n ∧ n.length ≤ 64 ∧ (Identifier n ∨ IdentifierLine n) := by
  rw [← isIdentifierLine_iff]
  unfold variableName within
  by_cases hline : isIdentifierLine n = true
  · by_cases hlength : n.length ≤ 64
    · rw [if_pos hline, if_pos hlength, Except.ok.injEq]
      exact ⟨fun h => ⟨h.symm, hlength, hline⟩, fun h => h.1.symm⟩
    · rw [if_pos hline, if_neg hlength]
      exact iff_of_false nofun fun h => hlength h.2.1
  · rw [if_neg hline]
    exact iff_of_false nofun fun h => hline h.2.2

theorem variableName_error_iff {n : List Char} {error : SanitizeError} :
    variableName n = .error error ↔
      error = .badVariableName (String.ofList n) ∧ ¬ (Identifier n ∨ IdentifierLine n) ∨
      error = .variableNameTooLong ∧ 64 < n.length ∧ (Identifier n ∨ IdentifierLine n) := by
  rw [← isIdentifierLine_iff, ← Nat.not_le]
  unfold variableName within
  by_cases hline : isIdentifierLine n = true
  · by_cases hlength : n.length ≤ 64
    · simp [hline, hlength]
    · simp [hline, hlength, eq_comm]
  · simp [hline, eq_comm]

/-- **A name is let through exactly if it is an identifier of at most 64 characters, or one that a line feed
makes unusable; texts can refer to the others.** -/
theorem variableName_checked (n : List Char) : NameChecked n := by
  have hnone : ∀ d ∈ ([] : List Char), Text.isBlank d = true := fun d hd => absurd hd List.not_mem_nil
  have hfeed : ∀ d ∈ ['\n'], Text.isBlank d = true := List.forall_mem_singleton.mpr (by decide)
  -- the line feed belongs to the blanks of the placeholder
  have hline : ∀ name, n = name ++ ['\n'] →
      Template.placeholder [] n [] = Template.placeholder [] name ['\n'] := by
    intro name hn
    simp only [hn, Template.placeholder, List.append_assoc, List.nil_append]
  refine ⟨fun m => variableName_ok_iff, fun error => variableName_error_iff, ?_, ?_, ?_, ?_, ?_, ?_⟩
  · intro hn
    unfold Template.placeholderNames
    rw [Template.placeholders_placeholder hn.ne_nil hn.isWordChar hnone hnone]
    rfl
  · intro hn context value hv
    rw [Template.resolve_placeholder hn.ne_nil hn.isWordChar hnone hnone, hv]
    rfl
  · intro hn context value hv hvalue
    exact Expression.substituteVariables_reference hn.ne_nil hn.isIdentChar hv hvalue
  · intro name hname hn
    unfold Template.placeholderNames
    rw [hline name hn,
      Template.placeholders_placeholder hname.ne_nil hname.isWordChar hnone hfeed]
    rfl
  · intro name hname hn context
    rw [hline name hn, Template.resolve_placeholder hname.ne_nil hname.isWordChar hnone hfeed]
  · intro hn context
    obtain ⟨name, hname, rfl⟩ := hn
    exact Expression.substituteVariables_brokenReference context hname.isIdentChar (by decide)
      (by decide) (by decide)

/-- A line feed behind an identifier is let through, and the placeholder belongs to another name. -/
theorem line_feed_let_through : ¬ ∀ n m, variableName n = .ok m → Identifier n ∧
    Template.placeholderNames (String.ofList (Template.placeholder [] n [])) = [String.ofList n] := by
  intro h
  have hthrough : variableName ['a', 'b', 'c', '\n'] = .ok ['a', 'b', 'c', '\n'] := by decide
  have hfeed := (h _ _ hthrough).1.isIdentChar '\n' (by decide)
  exact absurd hfeed (by decide)

end Sanitize

end Runbook
