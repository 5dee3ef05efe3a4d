import Mathlib.Data.List.Induction
import Runbook.Proofs.Condition.Substitution
import Runbook.Proofs.Run.LastResult
import Runbook.Proofs.Text.Tidy

/-!
# Checks of the last exit code

A condition that compares the last exit code with a number is decided without the world, whatever the
values of variables are; all other conditions are for the world to decide:

* `Spells`: the number that decimal digits spell; `spells_toDigits`: the usual way to write it;
* `ExitCodeCheck`: a check as it is written, part by part;
* `exitCodeCheck?_text`, `exists_of_exitCodeCheck?`: the reader of checks finds these and no others;
* `substituteVariables_text`: no variable stands in a check;
* `Engine.decide_text`: what comes of a check;
* `Engine.DecidesChecks`, **`Engine.decidesChecks`**: how checks and other conditions are decided.
-/

namespace Runbook

/-! ## 1. Numbers -/

/-- **Decimal digits of any script spell a number.** -/
inductive Spells : List Char → Nat → Prop
  | none : Spells [] 0
  | digit {digits : List Char} {n d : Nat} {c : Char} (h : Spells digits n)
      (hd : Text.decimalValue? c = some d) : Spells (digits ++ [c]) (10 * n + d)

theorem Expression.digitsValue_concat (digits : List Char) (c : Char) :
    digitsValue (digits ++ [c]) = 10 * digitsValue digits + (Text.decimalValue? c).getD 0 := by
  unfold digitsValue
  rw [List.foldl_append]
  rfl

/-- Digits spell the number that is read off them, and no other. -/
theorem spells_iff {digits : List Char} {n : Nat} :
    Spells digits n ↔
      (∀ c ∈ digits, Text.isDecimal c = true) ∧ Expression.digitsValue digits = n := by
  constructor
  · intro h
    induction h with
    | none => exact ⟨List.forall_mem_nil _, rfl⟩
    | digit _ hd ih =>
      refine ⟨List.forall_mem_append.mpr ⟨ih.1, List.forall_mem_singleton.mpr ?_⟩, ?_⟩
      · rw [Text.isDecimal, hd]
        rfl
      · rw [Expression.digitsValue_concat, hd, ih.2]
        rfl
  · rintro ⟨hdigits, rfl⟩
    induction digits using List.reverseRecOn with
    | nil => exact .none
    | append_singleton digits c ih =>
      obtain ⟨hfront, hc⟩ := List.forall_mem_append.mp hdigits
      obtain ⟨d, hd⟩ := Option.isSome_iff_exists.mp (hc c List.mem_cons_self)
      rw [Expression.digitsValue_concat, hd]
      exact .digit (ih hfront) hd

/-- **The digits that a number is usually written with spell it.** -/
theorem spells_toDigits (n : Nat) : Spells (Nat.toDigits 10 n) n := by
  have hdigit : ∀ d < 10, Text.decimalValue? d.digitChar = some d := by decide
  induction n using Nat.strong_induction_on with
  | _ n ih =>
  rcases Nat.lt_or_ge n 10 with hn | hn
  · rw [Nat.toDigits_of_lt_base hn]
    simpa using Spells.none.digit (hdigit n hn)
  · rw [Nat.toDigits_of_base_le (by decide) hn]
    have h := (ih (n / 10) (by omega)).digit (hdigit (n % 10) (by omega))
    rwa [Nat.div_add_mod] at h

/-- Zeros spell zero, however many they are. -/
theorem spells_zeros (n : Nat) : Spells (List.replicate n '0') 0 := by
  induction n with
  | zero => exact .none
  | succ n ih =>
    rw [List.replicate_succ']
    exact ih.digit (show Text.decimalValue? '0' = some 0 by decide)

/-! ## 2. Checks -/

/-- **A check of the last exit code as it is written**: the mark of the exit code, the spelling of a
comparison and the digits of a number, with blanks in front of, between and behind them. -/
structure ExitCodeCheck where
  indent : List Char
  gap : List Char
  spelling : List Char
  comparison : Comparison
  space : List Char
  digits : List Char
  number : Nat
  tail : List Char
  blank : ∀ c ∈ indent ++ gap ++ space ++ tail, Text.isBlank c = true
  spelled : (spelling, comparison) ∈ Comparison.spellings
  spells : Spells digits number
  digits_ne : digits ≠ []

namespace ExitCodeCheck

/-- The check as a text. -/
def text (k : ExitCodeCheck) : String :=
  String.ofList (k.indent ++ '$' :: '?' :: (k.gap ++ (k.spelling ++ (k.space ++
    (k.digits ++ k.tail)))))

variable (k : ExitCodeCheck)

theorem blanks : (∀ c ∈ k.indent, Text.isBlank c = true) ∧ (∀ c ∈ k.gap, Text.isBlank c = true) ∧
    (∀ c ∈ k.space, Text.isBlank c = true) ∧ ∀ c ∈ k.tail, Text.isBlank c = true := by
  have h := k.blank
  simp only [List.forall_mem_append] at h
  exact ⟨h.1.1.1, h.1.1.2, h.1.2, h.2⟩

theorem decimal : ∀ c ∈ k.digits, Text.isDecimal c = true := (spells_iff.mp k.spells).1

end ExitCodeCheck

/-- What a comparison is spelled with is neither blank nor a digit, nor does it mark a variable. -/
theorem Comparison.of_mem_spelling {spelling : List Char} {comparison : Comparison}
    (h : (spelling, comparison) ∈ spellings) : spelling ≠ [] ∧ ∀ c ∈ spelling,
      Text.isBlank c = false ∧ Text.isDecimal c = false ∧ c ≠ '$' := by
  have hall : ∀ entry ∈ spellings, entry.1 ≠ [] ∧
      entry.1.all (fun c => !Text.isBlank c && !Text.isDecimal c && c != '$') = true := by decide
  obtain ⟨hne, hchars⟩ := hall _ h
  refine ⟨hne, fun c hc => ?_⟩
  simpa [and_assoc] using List.all_eq_true.mp hchars c hc

theorem Comparison.holds_ge (a b : Int) : Comparison.ge.holds a b = !Comparison.lt.holds a b := by
  unfold holds
  rw [← decide_not]
  exact decide_eq_decide.mpr Int.not_lt.symm

theorem Comparison.holds_le (a b : Int) : Comparison.le.holds a b = !Comparison.gt.holds a b :=
  Comparison.holds_ge b a

/-- A comparison that is read is spelled so. -/
theorem Comparison.exists_of_read? {s rest : List Char} {comparison : Comparison}
    (h : read? s = some (comparison, rest)) :
    ∃ spelling, (spelling, comparison) ∈ spellings ∧ s = spelling ++ rest := by
  obtain ⟨⟨spelling, c⟩, hmem, hread⟩ := List.exists_of_findSome?_eq_some h
  obtain ⟨more, hdrop, heq⟩ := Option.map_eq_some_iff.mp hread
  cases heq
  exact ⟨spelling, hmem, Text.dropStart?_eq_some_iff.mp hdrop⟩

/-- **A spelling is read as its comparison**, unless a sign in front of an equals sign is another one. -/
theorem Comparison.read?_spelling {spelling rest : List Char} {comparison : Comparison}
    (h : (spelling, comparison) ∈ spellings) (hrest : ∀ d ∈ rest.head?, d ≠ '=') :
    read? (spelling ++ rest) = some (comparison, rest) := by
  -- the one spelling that starts another is completed by an equals sign
  have hsign : Text.dropStart? ['='] rest = none := by
    cases rest with
    | nil => rfl
    | cons d rest =>
      rw [Text.dropStart?, if_neg]
      exact (hrest d rfl).symm
  simp only [spellings, List.mem_cons, Prod.mk.injEq, List.not_mem_nil, or_false] at h
  rcases h with ⟨rfl, rfl⟩ | ⟨rfl, rfl⟩ | ⟨rfl, rfl⟩ | ⟨rfl, rfl⟩ | ⟨rfl, rfl⟩ | ⟨rfl, rfl⟩ |
    ⟨rfl, rfl⟩ | ⟨rfl, rfl⟩ | ⟨rfl, rfl⟩ | ⟨rfl, rfl⟩ | ⟨rfl, rfl⟩ | ⟨rfl, rfl⟩ <;>
    simp [read?, spellings, Text.dropStart?, hsign]

theorem Text.trimLeft_blanks {blanks s : List Char} (h : ∀ c ∈ blanks, isBlank c = true)
    (hs : ∀ d ∈ s.head?, isBlank d = false) : trimLeft (blanks ++ s) = s :=
  (takeWhile_stop h hs).2

namespace ExitCodeCheck

variable (k : ExitCodeCheck)

/-- The digits start with one that is no blank, and behind them stands no further one. -/
theorem digits_stop : (∀ d ∈ (k.digits ++ k.tail).head?, Text.isBlank d = false ∧ d ≠ '=') ∧
    ∀ d ∈ k.tail.head?, Text.isDecimal d = false := by
  constructor
  · obtain ⟨digit, more, hd⟩ := List.exists_cons_of_ne_nil k.digits_ne
    have hdigit : Text.isDecimal digit = true := k.decimal digit (by simp [hd])
    rw [hd, List.cons_append, List.head?_cons]
    rintro d ⟨⟩
    constructor
    · cases hb : Text.isBlank digit with
      | false => rfl
      | true =>
        rw [Text.isDecimal_of_isBlank hb] at hdigit
        cases hdigit
    · rintro rfl
      exact absurd hdigit (by decide)
  · intro d hd
    exact Text.isDecimal_of_isBlank (k.blanks.2.2.2 d (List.mem_of_mem_head? hd))

/-- **The reader of checks finds each check.** -/
theorem exitCodeCheck?_text :
    Expression.exitCodeCheck? k.text = some (k.comparison, k.number) := by
  obtain ⟨hindent, hgap, hspace, htail⟩ := k.blanks
  obtain ⟨hne, hspelling⟩ := Comparison.of_mem_spelling k.spelled
  obtain ⟨sign, signs, hsigns⟩ := List.exists_cons_of_ne_nil hne
  obtain ⟨hdigits, hend⟩ := k.digits_stop
  have hmark : Text.trimLeft k.text.toList =
      '$' :: '?' :: (k.gap ++ (k.spelling ++ (k.space ++ (k.digits ++ k.tail)))) := by
    rw [text, String.toList_ofList]
    refine Text.trimLeft_blanks hindent fun d hd => ?_
    cases hd
    decide
  have hread : Comparison.read? (Text.trimLeft (k.gap ++ (k.spelling ++ (k.space ++
      (k.digits ++ k.tail))))) = some (k.comparison, k.space ++ (k.digits ++ k.tail)) := by
    rw [Text.trimLeft_blanks hgap fun d hd => ?_]
    · refine Comparison.read?_spelling k.spelled fun d hd => ?_
      cases hs : k.space with
      | nil =>
        rw [hs] at hd
        exact (hdigits d hd).2
      | cons c space =>
        rw [hs] at hd
        cases hd
        rintro rfl
        exact absurd (hspace '=' (by simp [hs])) (by decide)
    · rw [hsigns] at hd hspelling
      cases hd
      exact (hspelling sign List.mem_cons_self).1
  have hnumber : Text.trimLeft (k.space ++ (k.digits ++ k.tail)) = k.digits ++ k.tail :=
    Text.trimLeft_blanks hspace fun d hd => (hdigits d hd).1
  obtain ⟨htake, hdrop⟩ := Text.takeWhile_stop k.decimal hend
  have hdone : Text.trimLeft k.tail = [] := by
    simpa using Text.trimLeft_blanks (s := []) htail nofun
  obtain ⟨digit, more, hd⟩ := List.exists_cons_of_ne_nil k.digits_ne
  unfold Expression.exitCodeCheck?
  simp only [hmark, hread, hnumber, htake, hdrop, hdone]
  rw [hd]
  simp only [← hd, (spells_iff.mp k.spells).2]

end ExitCodeCheck

/-- **What the reader of checks finds is a check.** -/
theorem Expression.exists_of_exitCodeCheck? {text : String} {comparison : Comparison} {n : Nat}
    (h : exitCodeCheck? text = some (comparison, n)) :
    ∃ k : ExitCodeCheck, k.text = text ∧ k.comparison = comparison ∧ k.number = n := by
  have cut : ∀ s : List Char, ∃ blanks, (∀ c ∈ blanks, Text.isBlank c = true) ∧
      s = blanks ++ Text.trimLeft s := fun s =>
    ⟨s.takeWhile Text.isBlank, fun _ hc => List.mem_takeWhile_imp hc,
      List.takeWhile_append_dropWhile.symm⟩
  unfold exitCodeCheck? at h
  split at h
  · rename_i rest hmark
    split at h
    · cases h
    · rename_i c more hread
      dsimp only at h
      split at h
      · cases h
      · rename_i digit digits hdigits hend
        cases h
        obtain ⟨spelling, hmem, hspelling⟩ := Comparison.exists_of_read? hread
        obtain ⟨indent, hindent, htext⟩ := cut text.toList
        obtain ⟨gap, hgap, hrest⟩ := cut rest
        obtain ⟨space, hspace, hmore⟩ := cut more
        obtain ⟨tail, htail, hback⟩ := cut ((Text.trimLeft more).dropWhile Text.isDecimal)
        have hnumber := List.takeWhile_append_dropWhile (p := Text.isDecimal) (l := Text.trimLeft more)
        rw [hend, List.append_nil] at hback
        rw [hback] at hnumber
        refine ⟨⟨indent, gap, spelling, comparison, space, _, _, tail, ?_, hmem,
          spells_iff.mpr ⟨fun c hc => List.mem_takeWhile_imp hc, rfl⟩, ?_⟩, ?_, rfl, rfl⟩
        · simp only [List.forall_mem_append]
          exact ⟨⟨⟨hindent, hgap⟩, hspace⟩, htail⟩
        · rw [hdigits]
          exact List.cons_ne_nil digit digits
        · rw [ExitCodeCheck.text, hnumber, ← hmore, ← hspelling, ← hrest, ← hmark, ← htext,
            String.ofList_toList]
      · cases h
  · cases h

theorem Expression.classify_eq_exitCode_iff {text : String} :
    classify text = .exitCode ↔ ∃ k : ExitCodeCheck, k.text = text := by
  have hclassify : classify text = .exitCode ↔ (exitCodeCheck? text).isSome = true := by
    unfold classify
    split
    · simp_all
    · split
      · simp_all
      · split <;> simp_all
  rw [hclassify, Option.isSome_iff_exists]
  constructor
  · rintro ⟨⟨comparison, n⟩, h⟩
    obtain ⟨k, hk, -, -⟩ := exists_of_exitCodeCheck? h
    exact ⟨k, hk⟩
  · rintro ⟨k, rfl⟩
    exact ⟨_, k.exitCodeCheck?_text⟩

/-! ## 3. Variables and digits of checks -/

/-- A turn leaves a text alone whose one dollar sign marks the exit code. -/
theorem Expression.substituteWith_mark (f : Form) (context : Context) {front back : List Char}
    (hfront : '$' ∉ front) (hback : '$' ∉ back) :
    substituteWith f.read context (front ++ '$' :: '?' :: back) = front ++ '$' :: '?' :: back := by
  have hmark : '$' ∉ '?' :: back := List.not_mem_cons_of_ne_of_not_mem (by decide) hback
  have hkept : substituteWith f.read context ('?' :: back) = '?' :: back := by
    have happend : substituteWith f.read context (('?' :: back) ++ []) = _ :=
      substituteWith_append hmark []
    rw [List.append_nil] at happend
    rw [happend]
    exact List.append_nil _
  have hnone : ∀ name after, ¬ Starts f name after ('$' :: '?' :: back) := by
    intro name after h
    generalize htext : '$' :: '?' :: back = text at h
    cases h with
    | braced => exact absurd (List.cons.inj (List.cons.inj htext).2).1 (by decide)
    | plain hne hname =>
      obtain ⟨first, more, rfl⟩ := List.exists_cons_of_ne_nil hne
      obtain rfl := (List.cons.inj (List.cons.inj htext).2).1
      exact absurd (hname '?' List.mem_cons_self) (by decide)
  rw [substituteWith_append hfront]
  rcases substituteWith_cons f context '$' ('?' :: back) with ⟨name, after, _, h, -, -⟩ | ⟨-, he⟩
  · exact absurd h (hnone name after)
  · rw [he, hkept]

namespace ExitCodeCheck

variable (k : ExitCodeCheck)

theorem not_mem_of_blank {blanks : List Char} (h : ∀ c ∈ blanks, Text.isBlank c = true) :
    '$' ∉ blanks := fun hd => absurd (h '$' hd) (by decide)

/-- **No variable stands in a check.** -/
theorem substituteVariables_text (context : Context) :
    Expression.substituteVariables context k.text = k.text := by
  obtain ⟨hindent, hgap, hspace, htail⟩ := k.blanks
  have hback : '$' ∉ k.gap ++ (k.spelling ++ (k.space ++ (k.digits ++ k.tail))) := by
    simp only [List.mem_append, not_or]
    exact ⟨not_mem_of_blank hgap,
      fun hd => ((Comparison.of_mem_spelling k.spelled).2 '$' hd).2.2 rfl, not_mem_of_blank hspace,
      fun hd => absurd (k.decimal '$' hd) (by decide), not_mem_of_blank htail⟩
  have hturn := fun f => Expression.substituteWith_mark f context (not_mem_of_blank hindent) hback
  unfold Expression.substituteVariables text
  rw [String.toList_ofList]
  change String.ofList (Expression.substituteWith Expression.Form.plain.read context
    (Expression.substituteWith Expression.Form.braced.read context _)) = _
  rw [hturn .braced, hturn .plain]

/-- All the decimal digits of a check are those of its number. -/
theorem isOversized_text :
    Expression.isOversized k.text = decide (maxDigits < k.digits.length) := by
  obtain ⟨hindent, hgap, hspace, htail⟩ := k.blanks
  have hblank : ∀ {blanks : List Char}, (∀ c ∈ blanks, Text.isBlank c = true) →
      blanks.countP Text.isDecimal = 0 := fun h =>
    List.countP_eq_zero.mpr fun c hc => by rw [Text.isDecimal_of_isBlank (h c hc)]; exact nofun
  have hspelling : k.spelling.countP Text.isDecimal = 0 := List.countP_eq_zero.mpr fun c hc => by
    rw [((Comparison.of_mem_spelling k.spelled).2 c hc).2.1]
    exact nofun
  have hmark : ∀ more, ('$' :: '?' :: more).countP Text.isDecimal = more.countP Text.isDecimal :=
    fun more => by
      rw [List.countP_cons_of_neg (by decide), List.countP_cons_of_neg (by decide)]
  have hcount : k.text.toList.countP Text.isDecimal = k.digits.length := by
    rw [text, String.toList_ofList]
    simp only [List.countP_append, hmark, hblank hindent, hblank hgap, hspelling, hblank hspace,
      hblank htail, List.countP_eq_length.mpr k.decimal]
    omega
  rw [Expression.isOversized, hcount]

end ExitCodeCheck

/-! ## 4. Deciding -/

namespace Engine

variable {σ : Type}

/-- **What comes of a check.** -/
theorem decide_text (e : Engine σ) (k : ExitCodeCheck) (s : RunState σ) :
    e.decide k.text s = (match s.last with
      | none => .error (.undecided .missingResult)
      | some result =>
        if maxDigits < k.digits.length then .error (.raised .oversizedNumber)
        else .ok (k.comparison.holds result.returnCode k.number), s) := by
  rw [decide_of_check k.exitCodeCheck?_text s]
  cases s.last with
  | none => rfl
  | some result => simp only [compared, k.isOversized_text, decide_eq_true_eq]

/-- The spellings of comparisons by a word and by a sign that mean the same. -/
def spelledAlike : List (String × String) :=
  [("-eq", "=="), ("-ne", "!="), ("-gt", ">"), ("-lt", "<"), ("-ge", ">="), ("-le", "<=")]

theorem comparison_of_alike : ∀ pair ∈ spelledAlike, ∀ entry ∈ Comparison.spellings,
    ∀ entry' ∈ Comparison.spellings, entry.1 = pair.1.toList → entry'.1 = pair.2.toList →
      entry.2 = entry'.2 := by
  decide +kernel

/-- **How conditions are decided whose variables have been replaced.**

* `shape`: the checks are the texts of their shape;
* `untouched`: no values of variables change a check;
* `missing`: without a last result a check is undecided;
* `compared`: otherwise the last exit code is compared with the number, which may have `maxDigits` digits;
* `unread`: a number with more of them is not read;
* `relations`, `opposites`: what comparisons mean;
* `alike`: checks that differ in a word and its sign are decided alike;
* `tested`: any other text is tested by the world once, and its answer is what comes of it.

Where a check is decided, the state stays as it is: the world was not turned to. -/
structure DecidesChecks (e : Engine σ) : Prop where
  shape : ∀ text, Expression.classify text = .exitCode ↔ ∃ k : ExitCodeCheck, k.text = text
  untouched : ∀ (k : ExitCodeCheck) context, Expression.substituteVariables context k.text = k.text
  missing : ∀ (k : ExitCodeCheck) context (s : RunState σ), s.last = none →
    e.decide (Expression.substituteVariables context k.text) s =
      (.error (.undecided .missingResult), s)
  compared : ∀ (k : ExitCodeCheck) context (s : RunState σ) result, s.last = some result →
    k.digits.length ≤ maxDigits → e.decide (Expression.substituteVariables context k.text) s =
      (.ok (k.comparison.holds result.returnCode k.number), s)
  unread : ∀ (k : ExitCodeCheck) context (s : RunState σ) result, s.last = some result →
    maxDigits < k.digits.length → e.decide (Expression.substituteVariables context k.text) s =
      (.error (.raised .oversizedNumber), s)
  relations : ∀ a b : Int, (Comparison.eq.holds a b = true ↔ a = b) ∧
    (Comparison.gt.holds a b = true ↔ a > b) ∧ (Comparison.lt.holds a b = true ↔ a < b)
  opposites : ∀ a b : Int, Comparison.ne.holds a b = !Comparison.eq.holds a b ∧
    Comparison.ge.holds a b = !Comparison.lt.holds a b ∧
    Comparison.le.holds a b = !Comparison.gt.holds a b
  alike : ∀ pair ∈ spelledAlike, ∀ k k' : ExitCodeCheck, k.spelling = pair.1.toList →
    k'.spelling = pair.2.toList → k.digits = k'.digits → ∀ s, e.decide k.text s = e.decide k'.text s
  tested : ∀ text, (∀ k : ExitCodeCheck, k.text ≠ text) → ∀ s, e.decide text s =
    (match (e.world.test text s.world).1 with
      | .decided holds => .ok holds
      | .undecided reason => .error (.undecided (.undecided reason))
      | .raised fault => .error (.raised fault),
     { s with events := s.events ++ [.tested text], world := (e.world.test text s.world).2 })

/-- **Checks of the last exit code are decided by the run itself, and all else by the world.** -/
theorem decidesChecks (e : Engine σ) : e.DecidesChecks where
  shape _ := Expression.classify_eq_exitCode_iff
  untouched k context := k.substituteVariables_text context
  missing k context s hs := by rw [k.substituteVariables_text, e.decide_text, hs]
  compared k context s result hs hlen := by
    rw [k.substituteVariables_text, e.decide_text, hs]
    dsimp only
    rw [if_neg (Nat.not_lt.mpr hlen)]
  unread k context s result hs hlen := by
    rw [k.substituteVariables_text, e.decide_text, hs]
    dsimp only
    rw [if_pos hlen]
  relations a b := by simp [Comparison.holds]
  opposites a b := ⟨rfl, Comparison.holds_ge a b, Comparison.holds_le a b⟩
  alike pair hpair k k' hk hk' hdigits s := by
    have hcomparison : k.comparison = k'.comparison :=
      comparison_of_alike pair hpair _ k.spelled _ k'.spelled hk hk'
    have hnumber : k.number = k'.number := by
      rw [← (spells_iff.mp k.spells).2, hdigits, (spells_iff.mp k'.spells).2]
    rw [e.decide_text, e.decide_text, hdigits, hcomparison, hnumber]
  tested text h s := by
    have hcheck : Expression.exitCodeCheck? text = none := by
      cases hc : Expression.exitCodeCheck? text with
      | none => rfl
      | some check =>
        obtain ⟨k, hk, -, -⟩ := Expression.exists_of_exitCodeCheck? hc
        exact absurd hk (h k)
    unfold decide
    rw [hcheck]
    dsimp only
    rw [Run.test_apply]
    rfl

/-- A comparison with zero, written with one digit too many. -/
def zeros : ExitCodeCheck where
  indent := []
  gap := [' ']
  spelling := "-eq".toList
  comparison := .eq
  space := [' ']
  digits := List.replicate (maxDigits + 1) '0'
  number := 0
  tail := []
  blank := List.all_eq_true.mp rfl
  spelled := by decide
  spells := spells_zeros (maxDigits + 1)
  digits_ne := List.cons_ne_nil '0' (List.replicate maxDigits '0')

/-- A success is equal to zero, but where zero is written with too many digits no comparison is made: the
run raises a fault. -/
theorem zeros_unread :
    zeros.text = String.ofList ("$? -eq ".toList ++ List.replicate (maxDigits + 1) '0') ∧
      zeros.comparison.holds 0 zeros.number = true ∧
      ∀ (e : Engine Unit) (s : RunState Unit), s.last = some ⟨0, "", ""⟩ →
        (e.decide zeros.text s).1 = .error (.raised .oversizedNumber) := by
  refine ⟨?_, rfl, fun e s hs => ?_⟩
  · rw [ExitCodeCheck.text, zeros, List.append_nil]
    rfl
  · have hlen : maxDigits < zeros.digits.length := by
      rw [zeros, List.length_replicate]
      exact Nat.lt_succ_self maxDigits
    rw [decide_text, hs]
    dsimp only
    rw [if_pos hlen]

end Engine

end Runbook
