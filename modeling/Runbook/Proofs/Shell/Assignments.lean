import Runbook.Proofs.Shell.DoubleQuotes
import Runbook.Proofs.Text.Tidy

/-!
# Scripts of one assignment

A script that starts with a name, an equals sign and a double quote, as a POSIX shell reads it:

* `assignment?_cons`: a word that starts so assigns;
* `command_of_assignment?`: such a word starts a simple command;
* `command_of_lineList`, `lineList_of_command`: a line that is one simple command;
* `tokensFrom_of_isIdentStart`: a script that starts with a letter starts with a word;
* **`ofScript_eq_assigning_iff`**: the script assigns what stands between its double quotes exactly if that
  stands for itself there.
-/

namespace Runbook.Shell

open CommandReader

/-! ## 1. Words that assign -/

/-- The value that a word makes behind an equals sign: unquoted text joins the sign, so that it
leaves nothing if it is empty. -/
def Word.asValue : Word → Word
  | .text [] false :: rest => rest
  | w => w

@[simp] theorem Word.plainText_asValue (w : Word) :
    Word.plainText (Word.asValue w) = Word.plainText w := by
  unfold Word.asValue
  split <;> rfl

section Name
variable {name : List Char} (hname : isName (String.ofList name) = true)
include hname

theorem exists_of_isName : ∃ c rest, name = c :: rest ∧ Text.isIdentStart c = true ∧
    ∀ d ∈ name, Text.isIdentChar d = true := by
  unfold isName at hname
  rw [String.toList_ofList, Bool.and_eq_true_iff, List.all_eq_true] at hname
  cases name with
  | nil => cases hname.1
  | cons c rest => exact ⟨c, rest, rfl, by simpa using hname.1, hname.2⟩

theorem assignment?_text (b : List Char) (rest : Word) :
    assignment? (.text (name ++ '=' :: b) false :: rest) =
      some (String.ofList name, if b.isEmpty then rest else .text b false :: rest) := by
  obtain ⟨c, tail, rfl, hc, hall⟩ := exists_of_isName hname
  have hdrop : ((c :: tail) ++ '=' :: b).dropWhile Text.isIdentChar = '=' :: b := by
    rw [List.dropWhile_append_of_pos hall]
    rfl
  have htake : ((c :: tail) ++ '=' :: b).takeWhile Text.isIdentChar = c :: tail := by
    rw [List.takeWhile_append_of_pos hall]
    exact List.append_nil _
  unfold assignment?
  rw [List.cons_append] at hdrop htake ⊢
  dsimp only
  rw [if_pos hc, hdrop, htake]
  rfl

/-- **A word that starts with a name and an equals sign assigns** what stands behind them. -/
theorem assignment?_cons (w : Word) :
    assignment? (Word.cons (.text (name ++ ['=']) false) w) =
      some (String.ofList name, Word.asValue w) := by
  have hother : assignment? (.text (name ++ ['=']) false :: w) = some (String.ofList name, w) :=
    assignment?_text hname [] w
  cases w with
  | nil => exact hother
  | cons p w =>
    cases p with
    | text b q =>
      cases q with
      | true => cases b <;> exact hother
      | false =>
        show assignment? (.text ((name ++ ['=']) ++ b) false :: w) = _
        rw [List.append_assoc, List.singleton_append, assignment?_text hname]
        cases b <;> rfl
    | _ => exact hother

end Name

/-! ## 2. Commands that start with such a word -/

/-- Unquoted text that assigns has an equals sign. -/
theorem mem_of_assignment? {cs : List Char} {rest : Word} {a : String × Word}
    (h : assignment? (.text cs false :: rest) = some a) : '=' ∈ cs := by
  unfold assignment? at h
  dsimp only at h
  split at h
  · cases h
  · split_ifs at h
    · split at h
      · next value hdrop =>
        exact (List.dropWhile_suffix _).subset (hdrop ▸ List.mem_cons_self)
      · cases h

variable {w : Word} {line : Nat} {after : Octets} {ts : List Token} {a : String × Word}

/-- A bare word that assigns is none of those with a meaning of their own. -/
theorem not_mem_reservedWords_of_assignment? (h : assignment? w = some a) {x : String}
    (hx : w.literal? = some x) : x ∉ reservedWords := by
  have hnone : ∀ other ∈ reservedWords, '=' ∉ other.toList := by decide
  unfold Word.literal? at hx
  split at hx
  · cases hx
    intro hmem
    have hno := hnone _ hmem
    rw [String.toList_ofList] at hno
    exact hno (mem_of_assignment? h)
  · cases hx

theorem named_of_assignment? (h : assignment? w = some a) {x : String} (hx : w.literal? = some x)
    (fuel : Nat) :
    named .plain x (fuel + 1) (⟨.word w, line, after⟩ :: ts) =
      simple line [] [] [] (ts.length + 2) (⟨.word w, line, after⟩ :: ts) := by
  have hassigns : (assignment? [.text x.toList false]).isNone = false := by
    unfold Word.literal? at hx
    split at hx
    · cases hx
      rw [String.toList_ofList, h]
      rfl
    · cases hx
  unfold named
  rw [if_neg (by simpa using not_mem_reservedWords_of_assignment? h hx), hassigns]
  simp only [Bool.and_false, Bool.false_eq_true, if_false, reduceCtorEq, decide_false]
  rfl

theorem command_of_bareWord?_eq_none {ts : List Token} (hopening : isOperator "(" ts = false)
    (hbare : bareWord? ts = none) (fuel : Nat) :
    command .plain (fuel + 1) ts =
      simple (ts.head?.elim 1 (·.line)) [] [] [] (ts.length + 1) ts := by
  unfold command
  rw [hopening, hbare]
  dsimp only
  rw [if_neg Bool.false_ne_true]

/-- **A word that assigns starts a simple command.** -/
theorem command_of_assignment? (h : assignment? w = some a) (fuel : Nat) :
    command .plain (fuel + 2) (⟨.word w, line, after⟩ :: ts) =
      simple line [] [] [] (ts.length + 2) (⟨.word w, line, after⟩ :: ts) := by
  have hopening : isOperator "(" (⟨.word w, line, after⟩ :: ts) = false := rfl
  cases hx : w.literal? with
  | none => exact command_of_bareWord?_eq_none hopening hx (fuel + 1)
  | some x =>
    have hbare : bareWord? (⟨.word w, line, after⟩ :: ts) = some x := hx
    have hother : ∀ {other}, other ∈ reservedWords → some x ≠ some other := by
      rintro other hmem ⟨⟩
      exact not_mem_reservedWords_of_assignment? h hx hmem
    unfold command
    rw [hopening, hbare]
    dsimp only
    rw [if_neg Bool.false_ne_true]
    split
    · next heq => exact absurd heq (hother (by decide))
    · next heq => exact absurd heq (hother (by decide))
    · next heq => exact absurd heq (hother (by decide))
    · next heq => exact absurd heq (hother (by decide))
    · next heq => exact absurd heq (hother (by decide))
    · next heq => exact absurd heq (hother (by decide))
    · next name _ _ _ _ _ _ heq =>
      cases heq
      exact named_of_assignment? h hx fuel
    · next heq => cases heq

/-! ## 3. Lines of one simple command -/

theorem unexpected_ne_ok {α : Type} (expected : Option String) (ts : List Token) (r : α) :
    unexpected expected ts ≠ .ok r := by
  unfold unexpected
  split <;> nofun

section Simple
variable {fuel l : Nat} {ts rest : List Token} {as : List (String × Word)} {ws : List Word}
  {rs : List Redirection}

theorem eq_of_andOrTail {first : Command}
    (h : andOrTail .plain first fuel ts = .ok (.simple line as ws rs, rest)) :
    first = .simple line as ws rs := by
  induction fuel generalizing first ts with
  | zero =>
    unfold andOrTail at h
    exact absurd h (unexpected_ne_ok _ _ _)
  | succ fuel ih =>
    unfold andOrTail at h
    split at h
    · obtain ⟨⟨second, behind⟩, -, h⟩ := ok_of_bind h
      cases ih h
    · split at h
      · obtain ⟨⟨second, behind⟩, -, h⟩ := ok_of_bind h
        cases ih h
      · cases h
        rfl

theorem command_of_pipelineParts {c : Command} (hc : ∀ body rs, c ≠ .redirected body rs)
    (h : pipelineParts .plain (fuel + 1) ts = .ok ([c], rest)) :
    ∃ behind, command .plain fuel ts = .ok (c, behind) := by
  unfold pipelineParts at h
  obtain ⟨⟨c', behind⟩, hcommand, h⟩ := ok_of_bind h
  dsimp only at h
  split at h
  · obtain ⟨⟨cs, later⟩, -, h⟩ := ok_of_bind h
    cases h
    exact ⟨_, hcommand⟩
  · split at h
    · obtain ⟨⟨cs, later⟩, -, h⟩ := ok_of_bind h
      cases h
      exact absurd rfl (hc _ _)
    · cases h
      exact ⟨_, hcommand⟩

/-- **A line that is one simple command starts with that command.** -/
theorem command_of_lineList (hmark : bareWord? ts ≠ some "!")
    (h : lineList .plain (fuel + 4) ts = .ok ([.simple line as ws rs], rest)) :
    ∃ behind, command .plain fuel ts = .ok (.simple line as ws rs, behind) := by
  unfold lineList at h
  obtain ⟨⟨c, behind⟩, handOr, h⟩ := ok_of_bind h
  obtain rfl : c = .simple line as ws rs := by
    dsimp only at h
    cases hback : isOperator "&" behind with
    | false =>
      rw [hback] at h
      split at h
      · split at h
        · cases h
          rfl
        · obtain ⟨⟨cs, later⟩, -, h⟩ := ok_of_bind h
          cases h
          rfl
      · split at h
        · cases h
          rfl
        · exact absurd h (unexpected_ne_ok _ _ _)
    | true =>
      rw [hback] at h
      split at h
      · split at h
        · cases h
        · obtain ⟨⟨cs, later⟩, -, h⟩ := ok_of_bind h
          cases h
      · next hno => exact absurd rfl hno
  unfold andOr at handOr
  obtain ⟨⟨first, behind'⟩, hpipeline, htail⟩ := ok_of_bind handOr
  obtain rfl := eq_of_andOrTail htail
  unfold pipeline at hpipeline
  rw [if_neg hmark] at hpipeline
  obtain ⟨⟨parts, behind''⟩, hparts, h⟩ := ok_of_bind hpipeline
  dsimp only at h
  split at h
  · cases h
    exact command_of_pipelineParts nofun hparts
  · cases h

/-- A simple command keeps the assignments that it has. -/
theorem prefix_of_simple {c : Command} (h : simple line as ws rs fuel ts = .ok (c, rest)) :
    ∃ as' ws' rs', c = .simple line (as ++ as') ws' rs' := by
  induction fuel generalizing as ws rs ts with
  | zero =>
    unfold simple at h
    exact absurd h (unexpected_ne_ok _ _ _)
  | succ fuel ih =>
    unfold simple at h
    obtain ⟨r?, -, h⟩ := ok_of_bind h
    split at h
    · exact ih h
    · split at h
      · split at h
        · next a' _ _ =>
          obtain ⟨as', ws', rs', hc⟩ := ih h
          rw [List.append_assoc] at hc
          exact ⟨_, ws', rs', hc⟩
        · exact ih h
      · split at h
        · exact absurd h (unexpected_ne_ok _ _ _)
        · cases h
          exact ⟨[], ws, rs, by rw [List.append_nil]⟩

theorem simple_word_of_assignment? (h : assignment? w = some a) (fuel : Nat) (ts : List Token) :
    simple line as [] rs (fuel + 1) (⟨.word w, l, after⟩ :: ts) =
      simple line (as ++ [a]) [] rs fuel ts := by
  have hnone : redirection? (⟨.word w, l, after⟩ :: ts) = .ok none := rfl
  conv => lhs; unfold simple
  rw [hnone]
  dsimp only [bind, Except.bind]
  rw [h]

theorem lineList_of_command {c : Command} {t : Token} (ht : t.lexeme = .done)
    (hmark : bareWord? ts ≠ some "!") (h : command .plain (fuel + 1) ts = .ok (c, [t])) :
    lineList .plain (fuel + 5) ts = .ok ([c], [t]) := by
  obtain ⟨_, l, after⟩ := t
  subst ht
  have hparts : pipelineParts .plain (fuel + 2) ts = .ok ([c], [⟨.done, l, after⟩]) := by
    unfold pipelineParts
    rw [h]
    rfl
  have hpipeline : pipeline .plain (fuel + 3) ts = .ok (c, [⟨.done, l, after⟩]) := by
    unfold pipeline
    rw [if_neg hmark, hparts]
    rfl
  have handOr : andOr .plain (fuel + 4) ts = .ok (c, [⟨.done, l, after⟩]) := by
    unfold andOr
    rw [hpipeline]
    rfl
  unfold lineList
  rw [handOr]
  rfl

end Simple

/-! ## 4. Tokens of a script that starts with a name -/

theorem dropStart?_of_head {p s : List Char} {c : Char} (h : p.head?.any (· ≠ c) = true) :
    Text.dropStart? p (c :: s) = none := by
  cases p with
  | nil => cases h
  | cons d p => exact if_neg (by simpa using h)

theorem operatorAt?_of_isIdentStart {c : Char} (h : Text.isIdentStart c = true) (s : List Char) :
    operatorAt? .plain (c :: s) = none := by
  have hfirst : ∀ o ∈ operators .plain, o.toList.head?.any (fun d => !Text.isIdentStart d) = true := by
    decide
  refine List.findSome?_eq_none_iff.mpr fun o ho => ?_
  rw [dropStart?_of_head, Option.map_none]
  obtain ⟨d, hd, hno⟩ := (Option.any_eq_true _ _).mp (hfirst o ho)
  refine (Option.any_eq_true _ _).mpr ⟨d, hd, ?_⟩
  rw [decide_eq_true_eq]
  rintro rfl
  simp [h] at hno

theorem isDigit_of_isIdentStart {c : Char} (h : Text.isIdentStart c = true) : c.isDigit = false := by
  have hall : ∀ n < 128, Text.isIdentStart (Char.ofNat n) = true → (Char.ofNat n).isDigit = false := by
    decide +kernel
  have hc := hall c.toNat (Text.toNat_lt_of_isIdentChar (Text.isIdentChar_of_isIdentStart h))
  rw [Char.ofNat_toNat] at hc
  exact hc h

theorem numberAt?_of_isIdentStart {c : Char} (h : Text.isIdentStart c = true) (s : List Char) :
    numberAt? .plain (c :: s) = none := by
  unfold numberAt?
  rw [List.takeWhile_cons_of_neg (by simp [isDigit_of_isIdentStart h])]
  rfl

/-- **A script that starts with a letter starts with a word.** -/
theorem tokensFrom_of_isIdentStart {c : Char} (h : Text.isIdentStart c = true) (s : List Char)
    (lines fuel : Nat) :
    tokensFrom .plain lines (fuel + 1) (c :: s) =
      match readParts .plain .word (2 * (c :: s).length + 2) (c :: s) with
      | .error e => [⟨.bad e, lines - 0, []⟩]
      | .ok (w, rest) =>
        ⟨.word w, lines - rest.count '\n', rest⟩ :: tokensFrom .plain lines fuel rest := by
  have hnone : " \t\\#".toList.all (!Text.isIdentStart ·) = true := by decide
  have hother : ∀ d ∈ " \t\\#".toList, c ≠ d := by
    rintro d hd rfl
    simpa [h] using List.all_eq_true.mp hnone c hd
  conv => lhs; unfold tokensFrom
  dsimp only
  split
  · next heq => cases heq
  · next heq => exact absurd (List.cons_eq_cons.mp heq).1 (hother _ (by decide))
  · next heq => exact absurd (List.cons_eq_cons.mp heq).1 (hother _ (by decide))
  · next heq => exact absurd (List.cons_eq_cons.mp heq).1 (hother _ (by decide))
  · next heq => exact absurd (List.cons_eq_cons.mp heq).1 (hother _ (by decide))
  · rw [numberAt?_of_isIdentStart h, operatorAt?_of_isIdentStart h]
    rfl

/-! ## 5. Scripts of one assignment -/

/-- The script that assigns a text as it stands to a name, and does nothing else. -/
def ScriptLines.assigning (name : String) (value : Octets) : ScriptLines :=
  ⟨[.sequence [.simple 1 [(name, [.text value true])] [] []]], none⟩

theorem command_bad_ne_ok {e : ReadError} (fuel : Nat) (r : Command × List Token) :
    command .plain fuel (⟨.bad e, line, after⟩ :: ts) ≠ .ok r := by
  intro h
  cases fuel with
  | zero =>
    unfold command at h
    exact unexpected_ne_ok _ _ _ h
  | succ fuel =>
    rw [command_of_bareWord?_eq_none rfl rfl] at h
    unfold simple at h
    cases h

/-- A script that is one simple command starts with it. -/
theorem command_of_linesFrom {t : Token} {fuel : Nat} {as : List (String × Word)} {ws : List Word}
    {rs : List Redirection} (hskip : skipNewlines (t :: ts) = t :: ts)
    (hmark : bareWord? (t :: ts) ≠ some "!")
    (h : linesFrom .plain (fuel + 1) (t :: ts) = ⟨[.sequence [.simple line as ws rs]], none⟩) :
    ∃ fuel behind, command .plain (fuel + 2) (t :: ts) = .ok (.simple line as ws rs, behind) := by
  unfold linesFrom at h
  rw [hskip] at h
  split at h
  · cases h
  · cases h
  · next t' ts' _ heq =>
    cases heq
    split at h
    · cases h
    · next cs behind hline =>
      obtain rfl : cs = [.simple line as ws rs] := by
        have hcs := (List.cons_eq_cons.mp (congrArg ScriptLines.commands h)).1
        cases hcs
        rfl
      exact ⟨_, command_of_lineList hmark hline⟩

theorem linesFrom_word {fuel l : Nat} {behind : Octets} {cs : List Command}
    (h : lineList .plain (8 * (ts.length + 1) + 8) (⟨.word w, line, after⟩ :: ts) =
      .ok (cs, [⟨.done, l, behind⟩])) :
    linesFrom .plain (fuel + 2) (⟨.word w, line, after⟩ :: ts) = ⟨[.sequence cs], none⟩ := by
  have hdone : linesFrom .plain (fuel + 1) [⟨.done, l, behind⟩] = ⟨[], none⟩ := by
    unfold linesFrom
    rfl
  have hskip : skipNewlines (⟨.word w, line, after⟩ :: ts) = ⟨.word w, line, after⟩ :: ts := rfl
  unfold linesFrom
  rw [hskip]
  dsimp only [List.length_cons]
  rw [h]
  dsimp only
  rw [hdone]

/-- The script that assigns what stands in double quotes to a name. -/
def quotedAssignment (name v : Octets) : Octets := name ++ '=' :: '"' :: (v ++ ['"'])

/-- Text has no commands in it. -/
theorem failureIn_eq_none {w : Word} (hw : ∀ p ∈ w, ∃ cs q, p = .text cs q) (fuel : Nat) :
    failureIn .plain fuel w = none := by
  induction fuel generalizing w with
  | zero =>
    unfold failureIn
    rfl
  | succ fuel ih =>
    cases w with
    | nil =>
      unfold failureIn
      rfl
    | cons p w =>
      obtain ⟨⟨cs, q, rfl⟩, hrest⟩ := List.forall_mem_cons.mp hw
      unfold failureIn
      exact ih hrest

section Script
variable {name v : List Char} (hname : isName (String.ofList name) = true)
include hname

theorem readParts_quotedAssignment : ∃ fuel, v.length + 2 < fuel ∧
    readParts .plain .word (2 * (quotedAssignment name v).length + 2) (quotedAssignment name v) =
      putBefore (name ++ ['=']) false (readParts .plain .word fuel ('"' :: (v ++ ['"']))) := by
  refine ⟨name.length + 2 * v.length + 7, by omega, ?_⟩
  obtain ⟨c, rest, -, -, hall⟩ := exists_of_isName hname
  have hbare : ∀ d ∈ name ++ ['='], isBare d = true := by
    intro d hd
    rcases List.mem_append.mp hd with hd | hd
    · exact isBare_of_isIdentChar (hall d hd)
    · rw [List.mem_singleton.mp hd]
      decide
  have hscript : quotedAssignment name v = (name ++ ['=']) ++ ('"' :: (v ++ ['"'])) := by
    rw [List.append_assoc, List.singleton_append]
    rfl
  have hfuel : 2 * (quotedAssignment name v).length + 2 =
      (name.length + 2 * v.length + 7) + (name ++ ['=']).length := by
    simp only [quotedAssignment, List.length_append, List.length_cons, List.length_nil]
    omega
  rw [hfuel, hscript]
  exact readParts_bare (by simp) hbare _ _

theorem tokens_quotedAssignment : ∃ lines fuel,
    lines = (quotedAssignment name v).count '\n' + 1 ∧
    Token.ofScript .plain (quotedAssignment name v) =
      match readParts .plain .word (2 * (quotedAssignment name v).length + 2)
        (quotedAssignment name v) with
      | .error e => [⟨.bad e, lines - 0, []⟩]
      | .ok (w, rest) =>
        ⟨.word w, lines - rest.count '\n', rest⟩ :: tokensFrom .plain lines (fuel + 1) rest := by
  obtain ⟨c, rest, rfl, hc, -⟩ := exists_of_isName hname
  exact ⟨_, _, rfl, tokensFrom_of_isIdentStart hc _ _ _⟩

/-- The tokens of a script that assigns what stands for itself. -/
theorem tokens_of_isInert (hline : '\n' ∉ v) (h : isInert v = true) :
    Token.ofScript .plain (quotedAssignment name v) =
      [⟨.word [.text (name ++ ['=']) false, .text v true], 1, []⟩, ⟨.done, 1, []⟩] := by
  obtain ⟨lines, fuel, hlines, htokens⟩ := tokens_quotedAssignment hname (v := v)
  obtain ⟨fuel', hfuel', hread⟩ := readParts_quotedAssignment hname (v := v)
  obtain ⟨c, rest, -, -, hall⟩ := exists_of_isName hname
  have hnoline : '\n' ∉ quotedAssignment name v := by
    have hn : '\n' ∉ name := fun hmem => absurd (hall _ hmem) (by decide)
    simp [quotedAssignment, hn, hline]
  rw [List.count_eq_zero.mpr hnoline] at hlines
  subst hlines
  rw [htokens, hread, readParts_quoted_of_isInert (by omega) h]
  unfold tokensFrom
  rfl

/-- **What stands for itself between double quotes is what the script assigns.** -/
theorem ofScript_of_isInert (hv : '\n' ∉ v) (h : isInert v = true) :
    ScriptLines.ofScript .plain (quotedAssignment name v) = .assigning (String.ofList name) v := by
  have hassigns : assignment? [.text (name ++ ['=']) false, .text v true] =
      some (String.ofList name, [.text v true]) := assignment?_text hname [] _
  have hsimple : simple 1 [] [] [] 3
      [⟨.word [.text (name ++ ['=']) false, .text v true], 1, []⟩, ⟨.done, 1, []⟩] =
        .ok (.simple 1 [(String.ofList name, [.text v true])] [] [], [⟨.done, 1, []⟩]) := by
    rw [simple_word_of_assignment? hassigns]
    rfl
  have hline : lineList .plain 24
      [⟨.word [.text (name ++ ['=']) false, .text v true], 1, []⟩, ⟨.done, 1, []⟩] =
        .ok ([.simple 1 [(String.ofList name, [.text v true])] [] []], [⟨.done, 1, []⟩]) :=
    lineList_of_command rfl nofun ((command_of_assignment? hassigns 18).trans hsimple)
  unfold ScriptLines.ofScript linesWithin
  rw [tokens_of_isInert hname hv h, List.map_cons, List.map_cons, List.map_nil]
  dsimp only
  rw [failureIn_eq_none (by simp)]
  exact linesFrom_word hline

/-- **A script that assigns what stands between its double quotes** has a text there that stands for
itself. -/
theorem isInert_of_ofScript
    (h : ScriptLines.ofScript .plain (quotedAssignment name v) = .assigning (String.ofList name) v) :
    isInert v = true := by
  obtain ⟨lines, fuel, -, htokens⟩ := tokens_quotedAssignment hname (v := v)
  obtain ⟨fuel', hfuel', hread⟩ := readParts_quotedAssignment hname (v := v)
  unfold ScriptLines.ofScript linesWithin at h
  rw [htokens, hread] at h
  cases hword : readParts .plain .word fuel' ('"' :: (v ++ ['"'])) with
  | error e =>
    rw [hword] at h
    obtain ⟨fuel, behind, hcommand⟩ := command_of_linesFrom rfl (by simp [bareWord?]) h
    exact absurd hcommand (command_bad_ne_ok _ _)
  | ok r =>
    obtain ⟨w, rest⟩ := r
    rw [hword] at h
    dsimp only [putBefore, Except.map] at h
    rw [List.map_cons] at h
    dsimp only at h
    have hassigns := assignment?_cons hname w
    generalize Word.cons (.text (name ++ ['=']) false) w = word at h hassigns
    generalize List.map _ _ = more at h
    cases hfailure : failureIn .plain (quotedAssignment name v).length word with
    | some failure =>
      rw [hfailure] at h
      obtain ⟨fuel, behind, hcommand⟩ := command_of_linesFrom rfl (by simp [bareWord?]) h
      exact absurd hcommand (command_bad_ne_ok _ _)
    | none =>
      rw [hfailure] at h
      have hmark : ∀ line after, bareWord? (⟨.word word, line, after⟩ :: more) ≠ some "!" :=
        fun _ _ hx => not_mem_reservedWords_of_assignment? hassigns hx (by decide)
      obtain ⟨fuel, behind, hcommand⟩ := command_of_linesFrom rfl (hmark _ _) h
      rw [command_of_assignment? hassigns, simple_word_of_assignment? hassigns] at hcommand
      obtain ⟨as', ws', rs', hsimple⟩ := prefix_of_simple hcommand
      have hvalue : Word.asValue w = [.text v true] := by
        obtain ⟨-, has, -, -⟩ := Command.simple.inj hsimple
        exact (Prod.mk.inj (List.cons_eq_cons.mp has).1).2.symm
      refine isInert_of_quoted_word hfuel' hword ?_
      rw [← Word.plainText_asValue, hvalue]
      exact List.append_nil v

/-- **A script assigns what stands between its double quotes exactly if that stands for itself.** -/
theorem ofScript_eq_assigning_iff (hv : '\n' ∉ v) :
    ScriptLines.ofScript .plain (quotedAssignment name v) = .assigning (String.ofList name) v ↔
      isInert v = true :=
  ⟨isInert_of_ofScript hname, ofScript_of_isInert hname hv⟩

end Script

end Runbook.Shell
