import Runbook.Quotes

/-!
# Which quotes count

The scanner of a command carries along whether the next character is escaped. A quote that it counts
is one with an even run of backslashes right before it:

* `backslashesBefore`: the length of the run of backslashes right before a position;
* `QuoteAt`, `quoteCount`: the positions at which a quote counts, and their number;
* **`quoteParity_of_prefix`**: what the scanner makes of a text that stands behind another one;
* **`hasUnmatchedQuotes_eq_false_iff`**: nothing is unmatched if both numbers are even.
-/

namespace Runbook

/-- How many backslashes stand at the end of a text. -/
def trailingBackslashes (s : List Char) : Nat :=
  (s.reverse.takeWhile (· = '\\')).length

/-- How many backslashes stand right before a position. -/
def backslashesBefore (s : List Char) (i : Nat) : Nat :=
  trailingBackslashes (s.take i)

/-- A quote counts at a position: it stands there, behind an even run of backslashes. -/
def QuoteAt (quote : Char) (s : List Char) (i : Nat) : Prop :=
  s[i]? = some quote ∧ backslashesBefore s i % 2 = 0

instance (quote : Char) (s : List Char) (i : Nat) : Decidable (QuoteAt quote s i) :=
  inferInstanceAs (Decidable (_ ∧ _))

/-- How many times a quote counts from one position on over a number of positions. -/
def quoteCountFrom (quote : Char) (s : List Char) (start length : Nat) : Nat :=
  (List.range' start length).countP fun i => QuoteAt quote s i

/-- How many times a quote counts in a text. -/
def quoteCount (quote : Char) (s : List Char) : Nat :=
  quoteCountFrom quote s 0 s.length

theorem trailingBackslashes_append (s : List Char) (c : Char) :
    trailingBackslashes (s ++ [c]) = if c = '\\' then trailingBackslashes s + 1 else 0 := by
  by_cases hc : c = '\\' <;> simp [trailingBackslashes, hc]

theorem quoteAt_append_length {quote c : Char} {before rest : List Char} :
    QuoteAt quote (before ++ c :: rest) before.length ↔
      c = quote ∧ trailingBackslashes before % 2 = 0 := by
  simp [QuoteAt, backslashesBefore]

theorem quoteCountFrom_append_cons (quote c : Char) (before rest : List Char) :
    quoteCountFrom quote (before ++ c :: rest) before.length (rest.length + 1) =
      quoteCountFrom quote ((before ++ [c]) ++ rest) (before ++ [c]).length rest.length +
        if c = quote ∧ trailingBackslashes before % 2 = 0 then 1 else 0 := by
  have htext : before ++ c :: rest = (before ++ [c]) ++ rest := by simp
  unfold quoteCountFrom
  rw [List.range'_succ, List.countP_cons, ← htext, List.length_append, List.length_singleton]
  simp only [decide_eq_true_eq, quoteAt_append_length]

/-- Whether a number is odd. -/
def isOdd (n : Nat) : Bool :=
  n % 2 = 1

@[simp] theorem isOdd_zero : isOdd 0 = false := rfl

@[simp] theorem isOdd_succ (n : Nat) : isOdd (n + 1) = !isOdd n := by
  rw [isOdd, isOdd, ← decide_not, decide_eq_decide]
  omega

theorem isOdd_eq_false_iff {n : Nat} : isOdd n = false ↔ n % 2 = 0 := by
  rw [isOdd, decide_eq_false_iff_not]
  omega

/-- **What the scanner makes of a text that stands behind another one**: the parities change by the
quotes that count. -/
theorem quoteParity_of_prefix (before s : List Char) (single double : Bool) :
    quoteParity (isOdd (trailingBackslashes before)) single double s =
      (xor single (isOdd (quoteCountFrom '\'' (before ++ s) before.length s.length)),
        xor double (isOdd (quoteCountFrom '"' (before ++ s) before.length s.length))) := by
  induction s generalizing before single double with
  | nil => simp [quoteParity, quoteCountFrom]
  | cons c rest ih =>
    have hnext := trailingBackslashes_append before c
    rw [List.length_cons, quoteCountFrom_append_cons, quoteCountFrom_append_cons]
    cases he : isOdd (trailingBackslashes before) with
    | true =>
      -- the character is escaped: no quote counts here, and the run of backslashes comes to an end
      have hodd : ¬ trailingBackslashes before % 2 = 0 := by
        rw [← isOdd_eq_false_iff, he]
        decide
      have hend : isOdd (trailingBackslashes (before ++ [c])) = false := by
        rw [hnext]
        split <;> simp [he]
      rw [quoteParity, ← hend, ih]
      simp [hodd]
    | false =>
      have heven := isOdd_eq_false_iff.mp he
      by_cases hb : c = '\\'
      · have hrun : isOdd (trailingBackslashes (before ++ [c])) = true := by
          rw [hnext, if_pos hb, isOdd_succ, he]
          rfl
        rw [quoteParity, if_pos hb, ← hrun, ih]
        simp [hb]
      · have hrun : isOdd (trailingBackslashes (before ++ [c])) = false := by
          rw [hnext, if_neg hb, isOdd_zero]
        rw [quoteParity, if_neg hb]
        by_cases hs : c = '\''
        · rw [if_pos hs, ← hrun, ih]
          simp [hs, heven]
        · rw [if_neg hs]
          by_cases hd : c = '"'
          · rw [if_pos hd, ← hrun, ih]
            simp [hd, heven]
          · rw [if_neg hd, ← hrun, ih]
            simp [hs, hd]

/-- **Nothing is unmatched if and only if each quote counts an even number of times.** -/
theorem hasUnmatchedQuotes_eq_false_iff {command : String} :
    hasUnmatchedQuotes command = false ↔
      quoteCount '\'' command.toList % 2 = 0 ∧ quoteCount '"' command.toList % 2 = 0 := by
  have hscan : quoteParity false false false command.toList =
      (isOdd (quoteCount '\'' command.toList), isOdd (quoteCount '"' command.toList)) := by
    have h := quoteParity_of_prefix [] command.toList false false
    rwa [Bool.false_xor, Bool.false_xor] at h
  rw [hasUnmatchedQuotes, hscan, Bool.or_eq_false_iff, isOdd_eq_false_iff, isOdd_eq_false_iff]

end Runbook
