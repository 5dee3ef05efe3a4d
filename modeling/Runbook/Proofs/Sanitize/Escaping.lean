import Mathlib.Data.List.Basic
import Runbook.Sanitize.Command

/-!
# What escaping does to a command

A scan of a command knows which of its characters stand outside quotes and are not escaped. A backslash
that is put in changes the neighbours and the scan of everything behind it:

* `Reaches`, `Active`: the scan, and the positions that it comes to outside quotes;
* `active_iff`: the same positions by the state that `escapeFrom` carries along;
* `suspiciousAt`, `backslashesAt`: the characters to be escaped, and backslashes before them;
* **`calm_escapeFrom`**: behind the backslashes nothing active is suspicious any more;
* **`escapeMetacharacters_neutralised`**: backslashes before the active suspicious characters, no
  other change, and nothing suspicious left; **`escapeMetacharacters_idempotent`**.
-/

namespace Runbook.Sanitize

/-! ## 1. The scan -/

/-- **The scan of a text from left to right** comes to a position with quotes of either kind open or
not. A backslash outside single quotes goes with the character behind it, and a quote opens or closes
unless quotes of the other kind are open. -/
inductive Reaches (s : List Char) : Nat → (single double : Bool) → Prop
  | start : Reaches s 0 false false
  | pair {i : Nat} {double : Bool} (h : Reaches s i false double) (hc : s[i]? = some '\\') :
      Reaches s (i + 2) false double
  | single {i : Nat} {single : Bool} (h : Reaches s i single false) (hc : s[i]? = some '\'') :
      Reaches s (i + 1) (!single) false
  | double {i : Nat} {double : Bool} (h : Reaches s i false double) (hc : s[i]? = some '"') :
      Reaches s (i + 1) false (!double)
  | other {i : Nat} {c : Char} {single double : Bool} (h : Reaches s i single double)
      (hc : s[i]? = some c) (hb : c = '\\' → single = true) (hs : c = '\'' → double = true)
      (hd : c = '"' → single = true) : Reaches s (i + 1) single double

/-- A position that the scan comes to outside quotes of both kinds. -/
def Active (s : List Char) (i : Nat) : Prop :=
  i < s.length ∧ Reaches s i false false

/-- The state of the scan in front of a position. -/
def stateAt (s : List Char) (i : Nat) : QuoteState :=
  (s.take i).foldl QuoteState.next .start

theorem stateAt_succ {s : List Char} {i : Nat} {c : Char} (h : s[i]? = some c) :
    stateAt s (i + 1) = (stateAt s i).next c := by
  unfold stateAt
  rw [List.take_add_one, h, List.foldl_append]
  rfl

theorem stateAt_append (done rest : List Char) :
    stateAt (done ++ rest) done.length = done.foldl QuoteState.next .start := by
  unfold stateAt
  rw [List.take_left]

theorem next_escaped (single double : Bool) (c : Char) :
    (QuoteState.mk true single double).next c = ⟨false, single, double⟩ := rfl

theorem next_backslash (double : Bool) :
    (QuoteState.mk false false double).next '\\' = ⟨true, false, double⟩ := rfl

theorem next_single (single : Bool) :
    (QuoteState.mk false single false).next '\'' = ⟨false, !single, false⟩ := rfl

theorem next_double (double : Bool) :
    (QuoteState.mk false false double).next '"' = ⟨false, false, !double⟩ := rfl

theorem next_other {c : Char} {single double : Bool} (hb : c = '\\' → single = true)
    (hs : c = '\'' → double = true) (hd : c = '"' → single = true) :
    (QuoteState.mk false single double).next c = ⟨false, single, double⟩ := by
  unfold QuoteState.next
  rw [if_neg (by simp), if_neg (by simpa using hb), if_neg (by simpa using hs),
    if_neg (by simpa using hd)]

/-- The state where the scan comes to. -/
theorem Reaches.stateAt_eq {s : List Char} {i : Nat} {single double : Bool}
    (h : Reaches s i single double) (hi : i ≤ s.length) : stateAt s i = ⟨false, single, double⟩ := by
  induction h with
  | start => rfl
  | @pair i double h hc ih =>
    have hnext : s[i + 1]? = some s[i + 1] := List.getElem?_eq_getElem (by omega)
    rw [stateAt_succ hnext, stateAt_succ hc, ih (by omega), next_backslash, next_escaped]
  | single h hc ih => rw [stateAt_succ hc, ih (by omega), next_single]
  | double h hc ih => rw [stateAt_succ hc, ih (by omega), next_double]
  | other h hc hb hs hd ih => rw [stateAt_succ hc, ih (by omega), next_other hb hs hd]

/-- A state that goes with the scan: the scan has come to the position, or it passes over the character
behind a backslash. -/
inductive Tracks (s : List Char) : Nat → QuoteState → Prop
  | reached {i : Nat} {single double : Bool} (h : Reaches s i single double) :
      Tracks s i ⟨false, single, double⟩
  | passing {i : Nat} {double : Bool} (h : Reaches s i false double) (hc : s[i]? = some '\\') :
      Tracks s (i + 1) ⟨true, false, double⟩

theorem Tracks.next {s : List Char} {i : Nat} {q : QuoteState} {c : Char} (h : Tracks s i q)
    (hc : s[i]? = some c) : Tracks s (i + 1) (q.next c) := by
  cases h with
  | passing h hb => exact .reached (.pair h hb)
  | @reached _ single double h =>
    by_cases hb : c = '\\' ∧ single = false
    · obtain ⟨rfl, rfl⟩ := hb
      exact .passing h hc
    · by_cases hs : c = '\'' ∧ double = false
      · obtain ⟨rfl, rfl⟩ := hs
        rw [next_single]
        exact .reached (.single h hc)
      · by_cases hd : c = '"' ∧ single = false
        · obtain ⟨rfl, rfl⟩ := hd
          rw [next_double]
          exact .reached (.double h hc)
        · simp only [not_and, Bool.not_eq_false] at hb hs hd
          rw [next_other hb hs hd]
          exact .reached (.other h hc hb hs hd)

theorem tracks_stateAt {s : List Char} {i : Nat} (hi : i ≤ s.length) : Tracks s i (stateAt s i) := by
  induction i with
  | zero => exact .reached .start
  | succ i ih =>
    have hc : s[i]? = some s[i] := List.getElem?_eq_getElem (by omega)
    rw [stateAt_succ hc]
    exact (ih (by omega)).next hc

theorem QuoteState.isActive_iff {q : QuoteState} : q.isActive = true ↔ q = .start := by
  obtain ⟨escaped, single, double⟩ := q
  cases escaped <;> cases single <;> cases double <;> decide

/-- **A position is active if and only if the state in front of it is.** -/
theorem active_iff {s : List Char} {i : Nat} :
    Active s i ↔ i < s.length ∧ (stateAt s i).isActive = true := by
  unfold Active
  refine and_congr_right fun hi => ?_
  rw [QuoteState.isActive_iff]
  constructor
  · intro h
    exact h.stateAt_eq (by omega)
  · intro h
    have ht : Tracks s i (stateAt s i) := tracks_stateAt (by omega)
    rw [h] at ht
    cases ht with
    | reached h => exact h

instance (s : List Char) (i : Nat) : Decidable (Active s i) :=
  decidable_of_iff _ active_iff.symm

/-! ## 2. Suspicion -/

/-- **When a character is suspicious between its neighbours.** -/
theorem isSuspicious_iff {before : Option Char} {c : Char} {after : Option Char} :
    isSuspicious before c after = true ↔
      (c = ';' ∧ after = some ';') ∨
      (c = '|' ∧ before ≠ some '|' ∧ after ≠ some '|' ∧
        ∃ d, after = some d ∧ (d = ' ' ∨ Text.isLetter d = true)) ∨
      (c = '&' ∧ before ≠ some '&' ∧ after ≠ some '&') ∨
      (c = '$' ∧ after = some '(') ∨ c = '`' := by
  unfold isSuspicious
  by_cases hsemicolon : c = ';'
  · subst hsemicolon
    simp
  by_cases hpipe : c = '|'
  · subst hpipe
    cases after <;> simp [and_assoc]
  by_cases hampersand : c = '&'
  · subst hampersand
    simp
  by_cases hdollar : c = '$'
  · subst hdollar
    simp
  simp [hsemicolon, hpipe, hampersand, hdollar]

theorem metacharacter_of_isSuspicious {before : Option Char} {c : Char} {after : Option Char}
    (h : isSuspicious before c after = true) : c ∈ metacharacters := by
  rcases isSuspicious_iff.mp h with ⟨rfl, -⟩ | ⟨rfl, -⟩ | ⟨rfl, -⟩ | ⟨rfl, -⟩ | rfl <;> decide

/-- A suspicious character is a metacharacter, so that the step of the escaping asks for two things
only. -/
theorem escapeFrom_cons (before : Option Char) (q : QuoteState) (c : Char) (rest : List Char) :
    escapeFrom before q (c :: rest) =
      (if q.isActive = true ∧ isSuspicious before c rest.head? = true then ['\\', c] else [c]) ++
        escapeFrom (some c) (q.next c) rest := by
  have hasked : (q.isActive && metacharacters.contains c && isSuspicious before c rest.head?) = true ↔
      q.isActive = true ∧ isSuspicious before c rest.head? = true := by
    rw [Bool.and_eq_true, Bool.and_eq_true, List.contains_iff_mem]
    exact ⟨fun h => ⟨h.1.1, h.2⟩, fun h => ⟨⟨h.1, metacharacter_of_isSuspicious h.2⟩, h.2⟩⟩
  rw [escapeFrom]
  by_cases h : q.isActive = true ∧ isSuspicious before c rest.head? = true
  · rw [if_pos (hasked.mpr h), if_pos h]
    rfl
  · rw [if_neg (mt hasked.mp h), if_neg h]
    rfl

/-- The character in front of a position. -/
def before? (s : List Char) : Nat → Option Char
  | 0 => none
  | i + 1 => s[i]?

/-- Whether the character at a position is suspicious. -/
def suspiciousAt (s : List Char) (i : Nat) : Bool :=
  s[i]?.any fun c => isSuspicious (before? s i) c s[i + 1]?

theorem before?_append (done rest : List Char) :
    before? (done ++ rest) done.length = done.getLast? := by
  rcases List.eq_nil_or_concat done with rfl | ⟨init, c, rfl⟩
  · rfl
  · simp [before?]

theorem suspiciousAt_append (done : List Char) (c : Char) (rest : List Char) :
    suspiciousAt (done ++ c :: rest) done.length = isSuspicious done.getLast? c rest.head? := by
  unfold suspiciousAt
  rw [before?_append, List.getElem?_append_right (Nat.le_refl _),
    List.getElem?_append_right (Nat.le_add_right _ 1), Nat.sub_self, Nat.add_sub_cancel_left,
    List.getElem?_cons_zero, List.getElem?_cons_succ, ← List.head?_eq_getElem?]
  rfl

theorem active_append (done : List Char) (c : Char) (rest : List Char) :
    Active (done ++ c :: rest) done.length ↔
      (done.foldl QuoteState.next .start).isActive = true := by
  rw [active_iff, stateAt_append]
  simp

/-! ## 3. Backslashes put in -/

/-- The text with a backslash right before each of the chosen positions, and no other change. -/
def backslashesAt (chosen : Nat → Prop) [DecidablePred chosen] (s : List Char) : List Char :=
  s.zipIdx.flatMap fun entry => if chosen entry.2 then ['\\', entry.1] else [entry.1]

/-- What is put in behind a part of the text that has been gone through. -/
theorem escapeFrom_append (done rest : List Char) :
    escapeFrom done.getLast? (done.foldl QuoteState.next .start) rest =
      (rest.zipIdx done.length).flatMap fun entry =>
        if Active (done ++ rest) entry.2 ∧ suspiciousAt (done ++ rest) entry.2 = true then
          ['\\', entry.1]
        else [entry.1] := by
  induction rest generalizing done with
  | nil => rfl
  | cons c rest ih =>
    -- what was gone through grows by the character, and the whole text stays the same
    have hrest := ih (done ++ [c])
    rw [List.getLast?_concat, List.foldl_concat, List.length_append, List.length_singleton,
      List.append_assoc, List.singleton_append] at hrest
    rw [escapeFrom_cons, hrest, List.zipIdx_cons, List.flatMap_cons]
    simp only [active_append, suspiciousAt_append]

/-- **Escaping puts a backslash before every active character that is suspicious, and changes nothing
else.** -/
theorem escapeMetacharacters_eq (s : List Char) : escapeMetacharacters s =
    backslashesAt (fun i => Active s i ∧ suspiciousAt s i = true) s :=
  escapeFrom_append [] s

/-! ## 4. Nothing suspicious is left -/

/-- From a state on, the scan comes to no active character that is suspicious. -/
def Calm : (before : Option Char) → QuoteState → List Char → Prop
  | _, _, [] => True
  | before, q, c :: rest =>
    (q.isActive = true → isSuspicious before c rest.head? = false) ∧ Calm (some c) (q.next c) rest

theorem suspiciousAt_of_calm (done rest : List Char)
    (h : Calm done.getLast? (done.foldl QuoteState.next .start) rest) {i : Nat}
    (hi : done.length ≤ i) (ha : Active (done ++ rest) i) :
    suspiciousAt (done ++ rest) i = false := by
  induction rest generalizing done with
  | nil =>
    have hlt := ha.1
    rw [List.append_nil] at hlt
    omega
  | cons c rest ih =>
    obtain ⟨hc, hrest⟩ := h
    rcases Nat.eq_or_lt_of_le hi with rfl | hlt
    · rw [suspiciousAt_append]
      exact hc ((active_append done c rest).mp ha)
    · have hsplit : done ++ c :: rest = (done ++ [c]) ++ rest := by simp
      rw [hsplit] at ha ⊢
      exact ih (done ++ [c]) (by rwa [List.getLast?_concat, List.foldl_concat])
        (by simpa using Nat.succ_le_of_lt hlt) ha

/-- A text that is calm stays as it is. -/
theorem escapeFrom_of_calm {before : Option Char} {q : QuoteState} {s : List Char}
    (h : Calm before q s) : escapeFrom before q s = s := by
  induction s generalizing before q with
  | nil => rfl
  | cons c rest ih =>
    obtain ⟨hc, hrest⟩ := h
    have hkept : ¬ (q.isActive = true ∧ isSuspicious before c rest.head? = true) := by
      rintro ⟨hactive, hsuspicious⟩
      rw [hc hactive] at hsuspicious
      cases hsuspicious
    rw [escapeFrom_cons, if_neg hkept, ih hrest]
    rfl

theorem head?_escapeFrom (before : Option Char) (q : QuoteState) (s : List Char) :
    (escapeFrom before q s).head? = s.head? ∨
      (escapeFrom before q s).head? = some '\\' ∧
        ∃ c rest, s = c :: rest ∧ isSuspicious before c rest.head? = true := by
  cases s with
  | nil => exact Or.inl rfl
  | cons c rest =>
    rw [escapeFrom_cons]
    by_cases h : q.isActive = true ∧ isSuspicious before c rest.head? = true
    · rw [if_pos h]
      exact Or.inr ⟨rfl, c, rest, rfl, h.2⟩
    · rw [if_neg h]
      exact Or.inl rfl

theorem isSuspicious_backslash (before after : Option Char) :
    isSuspicious before '\\' after = false := rfl

/-- **A character that is not suspicious does not become so by a backslash put in behind it.** Only a
lone ampersand could, and the ampersand next to one that is not alone is not suspicious either. -/
theorem isSuspicious_escapeFrom {before : Option Char} {c : Char} {rest : List Char} (q : QuoteState)
    (h : isSuspicious before c rest.head? = false) :
    isSuspicious before c (escapeFrom (some c) q rest).head? = false := by
  rcases head?_escapeFrom (some c) q rest with hkept | ⟨hput, d, rest, rfl, hd⟩
  · rw [hkept]
    exact h
  · rw [hput, Bool.eq_false_iff, ne_eq, isSuspicious_iff]
    rw [Bool.eq_false_iff, ne_eq, isSuspicious_iff] at h
    rintro (⟨-, hnext⟩ | ⟨-, -, -, e, hnext, he⟩ | ⟨rfl, hbefore, -⟩ | ⟨-, hnext⟩ | rfl)
    · cases hnext
    · cases hnext
      revert he
      decide
    · have hne : d ≠ '&' := by
        rintro rfl
        rw [isSuspicious_iff] at hd
        simp at hd
      exact h (Or.inr (Or.inr (Or.inl ⟨rfl, hbefore, by simpa using hne⟩)))
    · cases hnext
    · exact h (by simp)

theorem ordinary_of_metacharacter {c : Char} (hc : c ∈ metacharacters) :
    c ≠ '\\' ∧ c ≠ '\'' ∧ c ≠ '"' := by
  have hall : metacharacters.all fun c => c ≠ '\\' ∧ c ≠ '\'' ∧ c ≠ '"' := by decide
  simpa using List.all_eq_true.mp hall c hc

/-- Behind a backslash that was put in, the scan goes on as it would have without it. -/
theorem next_backslash_next {q : QuoteState} {c : Char} (hq : q.isActive = true)
    (hc : c ∈ metacharacters) : (q.next '\\').isActive = false ∧ (q.next '\\').next c = q.next c := by
  obtain rfl := QuoteState.isActive_iff.mp hq
  obtain ⟨hb, hs, hd⟩ := ordinary_of_metacharacter hc
  refine ⟨rfl, ?_⟩
  unfold QuoteState.start
  rw [next_backslash, next_escaped, next_other (fun h => absurd h hb) (fun h => absurd h hs)
    (fun h => absurd h hd)]

/-- **Behind the backslashes nothing active is suspicious any more.** -/
theorem calm_escapeFrom (before : Option Char) (q : QuoteState) (s : List Char) :
    Calm before q (escapeFrom before q s) := by
  induction s generalizing before q with
  | nil => trivial
  | cons c rest ih =>
    rw [escapeFrom_cons]
    by_cases h : q.isActive = true ∧ isSuspicious before c rest.head? = true
    · -- the backslash is not suspicious, and the scan passes over the character behind it
      rw [if_pos h]
      obtain ⟨hpassing, hafter⟩ := next_backslash_next h.1 (metacharacter_of_isSuspicious h.2)
      refine ⟨fun _ => isSuspicious_backslash _ _, fun hactive => ?_, ?_⟩
      · rw [hpassing] at hactive
        cases hactive
      · rw [hafter]
        exact ih (some c) (q.next c)
    · -- the character is kept, but what stands behind it may be a backslash now
      rw [if_neg h]
      rw [not_and, Bool.not_eq_true] at h
      exact ⟨fun hactive => isSuspicious_escapeFrom (q.next c) (h hactive), ih (some c) (q.next c)⟩

/-- **Escaping a second time changes nothing.** -/
theorem escapeMetacharacters_idempotent (s : List Char) :
    escapeMetacharacters (escapeMetacharacters s) = escapeMetacharacters s :=
  escapeFrom_of_calm (calm_escapeFrom none .start s)

theorem suspiciousAt_escapeMetacharacters {s : List Char} {i : Nat}
    (h : Active (escapeMetacharacters s) i) : suspiciousAt (escapeMetacharacters s) i = false :=
  suspiciousAt_of_calm [] (escapeMetacharacters s) (calm_escapeFrom none .start s) (Nat.zero_le i) h

/-! ## 5. What is left -/

/-- **A text as it leaves the escaping**: a backslash stands right before each active character that was
suspicious, nothing else is changed, and no active character is suspicious any more -- a dollar sign
before a parenthesis, a backquote, a doubled semicolon, an ampersand on its own, a pipe into a word. -/
structure Neutralised (s out : List Char) : Prop where
  inserted : out = backslashesAt (fun i => Active s i ∧ suspiciousAt s i = true) s
  calm : ∀ i, Active out i → suspiciousAt out i = false
  dollar : ∀ i, Active out i → out[i]? = some '$' → out[i + 1]? ≠ some '('
  backquote : ∀ i, Active out i → out[i]? ≠ some '`'
  semicolon : ∀ i, Active out i → out[i]? = some ';' → out[i + 1]? ≠ some ';'
  ampersand : ∀ i, Active out i → out[i]? = some '&' →
    before? out i = some '&' ∨ out[i + 1]? = some '&'
  pipe : ∀ i, Active out i → out[i]? = some '|' → before? out i ≠ some '|' →
    out[i + 1]? ≠ some '|' → ∀ c, out[i + 1]? = some c → c ≠ ' ' ∧ Text.isLetter c = false

theorem not_isSuspicious_of_calm {s : List Char}
    (h : ∀ i, Active s i → suspiciousAt s i = false) {i : Nat} {c : Char} (ha : Active s i)
    (hc : s[i]? = some c) : ¬ isSuspicious (before? s i) c s[i + 1]? = true := by
  have hi := h i ha
  unfold suspiciousAt at hi
  rw [hc, Option.any_some] at hi
  rw [hi]
  decide

/-- **Escaping neutralises exactly the suspicious characters.** -/
theorem escapeMetacharacters_neutralised (s : List Char) : Neutralised s (escapeMetacharacters s) := by
  have hcalm : ∀ i, Active (escapeMetacharacters s) i →
      suspiciousAt (escapeMetacharacters s) i = false :=
    fun i => suspiciousAt_escapeMetacharacters
  have hnone := @not_isSuspicious_of_calm _ hcalm
  simp only [isSuspicious_iff, not_or, not_and] at hnone
  exact {
    inserted := escapeMetacharacters_eq s
    calm := hcalm
    dollar := fun i ha hc => (hnone ha hc).2.2.2.1 rfl
    backquote := fun i ha hc => (hnone ha hc).2.2.2.2 rfl
    semicolon := fun i ha hc => (hnone ha hc).1 rfl
    ampersand := fun i ha hc => by
      by_contra h
      rw [not_or] at h
      exact (hnone ha hc).2.2.1 rfl h.1 h.2
    pipe := fun i ha hc hb hn c hd => by
      have hword := (hnone ha hc).2.1 rfl hb hn
      refine ⟨fun he => hword ⟨c, hd, Or.inl he⟩, ?_⟩
      rw [← Bool.not_eq_true]
      exact fun he => hword ⟨c, hd, Or.inr he⟩ }

end Runbook.Sanitize
