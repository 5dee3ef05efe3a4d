import Runbook.Json.Reader
import Runbook.Proofs.Fallible

/-!
# How large a JSON document may be

The reader goes into so many brackets at a time and reads so many digits of a whole number, and no more.
To refuse a document for this is not to find a fault in its text, and it says something of the text:

* `openings`, `digits`: how many brackets a text opens, and how many digits it has;
* `Oversized`: what a problem says of the size of a text;
* `Reading`: what is read from a text leaves an end of it, or is refused with a problem that says what is
  so;
* `readings`: values, the items of lists and the entries of maps are read so;
* **`oversized_of_read`**: a document that is refused for its size opens too many brackets, or has too
  many digits.
-/

namespace Runbook.Json

variable {α β : Type}

/-! ## 1. The size of a text -/

/-- How many brackets a text opens. -/
def openings (s : List Char) : Nat := s.countP fun c => c == '[' || c == '\x7b'

/-- How many digits a text has. -/
def digits (s : List Char) : Nat := s.countP Char.isDigit

theorem openings_of_suffix {s t : List Char} (h : s <:+ t) : openings s ≤ openings t :=
  h.sublist.countP_le

theorem digits_of_suffix {s t : List Char} (h : s <:+ t) : digits s ≤ digits t :=
  h.sublist.countP_le

/-- What a problem says of the size of a text that is read inside `depth` brackets. -/
def Oversized (depth : Nat) (s : List Char) : Problem → Prop
  | .tooDeep => maxDepth < depth + openings s
  | .tooManyDigits => maxDigits < digits s
  | _ => True

namespace Oversized

variable {depth : Nat} {s t : List Char} {problem : Problem}

theorem of_isMalformed (h : problem.isMalformed = true) : Oversized depth s problem := by
  cases problem with
  | tooDeep => cases h
  | tooManyDigits => cases h
  | _ => trivial

theorem widen (h : Oversized depth t problem) (hs : t <:+ s) : Oversized depth s problem := by
  cases problem with
  | tooDeep => exact Nat.lt_of_lt_of_le h (Nat.add_le_add_left (openings_of_suffix hs) depth)
  | tooManyDigits => exact Nat.lt_of_lt_of_le h (digits_of_suffix hs)
  | _ => trivial

/-- What is so inside a bracket, seen from before it. -/
theorem outward {c : Char} (h : Oversized (depth + 1) s problem)
    (hc : (c == '[' || c == '\x7b') = true) : Oversized depth (c :: s) problem := by
  cases problem with
  | tooDeep =>
    have hdeep : maxDepth < depth + 1 + openings s := h
    have hcons : openings (c :: s) = openings s + 1 := List.countP_cons_of_pos hc
    show maxDepth < depth + openings (c :: s)
    omega
  | tooManyDigits => exact Nat.lt_of_lt_of_le h (digits_of_suffix (List.suffix_cons c s))
  | _ => trivial

end Oversized

/-- **What is read from a text inside `depth` brackets** leaves an end of the text. If it is refused for a
size, the text has that size. -/
def Reading (depth : Nat) (s : List Char) : Except Fault (α × Place) → Prop
  | .ok (_, p) => p.rest <:+ s
  | .error fault => Oversized depth s fault.problem

namespace Reading

variable {depth : Nat} {s t : List Char} {r : Except Fault (α × Place)}

/-- What is read from the end of a text is read from the text. -/
theorem widen (h : Reading depth t r) (hs : t <:+ s) : Reading depth s r := by
  cases r with
  | ok a => exact h.trans hs
  | error fault => exact Oversized.widen h hs

theorem of_problem {problem : Problem} {offset : Nat} (h : problem.isMalformed = true) :
    Reading depth s (.error ⟨problem, offset⟩ : Except Fault (α × Place)) :=
  Oversized.of_isMalformed h

/-- Reading on where something was read. -/
theorem bind {f : α × Place → Except Fault (β × Place)} (h : Reading depth s r)
    (hf : ∀ a p, Reading depth p.rest (f (a, p))) : Reading depth s (r >>= f) := by
  cases r with
  | ok a => exact (hf a.1 a.2).widen h
  | error fault => exact h

theorem pure {a : α} {p : Place} (h : p.rest <:+ s) :
    Reading depth s (Pure.pure (a, p) : Except Fault (α × Place)) := h

/-- What was read inside a bracket, seen from before it. -/
theorem outward {c : Char} (h : Reading (depth + 1) t r) (ht : t <:+ s)
    (hc : (c == '[' || c == '\x7b') = true) : Reading depth (c :: s) r := by
  cases r with
  | ok a => exact h.trans (ht.trans (List.suffix_cons c s))
  | error fault => exact (Oversized.widen h ht).outward hc

end Reading

theorem skipSpace_suffix (p : Place) : p.skipSpace.rest <:+ p.rest :=
  List.dropWhile_suffix _

/-! ## 2. Strings and scalars -/

theorem reading_push {depth code : Nat} {s t : List Char}
    {r : Except Fault (List Nat × Place)} (h : Reading depth t r) (hs : t <:+ s) :
    Reading depth s (push code r) := by
  cases r with
  | ok a => exact List.IsSuffix.trans h hs
  | error fault => exact h.widen hs

/-- A string is read up to its end, and is never too deep. -/
theorem readString_reading (depth start n : Nat) (s : List Char) :
    Reading depth s (readString start n s) := by
  fun_induction readString start n s with
  | case1 | case3 | case5 | case7 | case8 | case10 | case11 | case12 => exact .of_problem rfl
  | case2 n rest => exact List.suffix_cons _ _
  | case4 n a b c d high hh low c₁ c₂ c₃ c₄ c₅ c₆ rest _ _ ih =>
    exact reading_push ih ⟨['\\', 'u', a, b, c, d, c₁, c₂, c₃, c₄, c₅, c₆], rfl⟩
  | case6 n a b c d rest high _ _ _ ih => exact reading_push ih ⟨['\\', 'u', a, b, c, d], rfl⟩
  | case9 n c rest _ _ c' _ ih => exact reading_push ih ⟨['\\', c], rfl⟩
  | case13 n c rest _ _ _ _ _ _ ih => exact reading_push ih ⟨[c], rfl⟩

theorem readFraction_suffix (s : List Char) : (readFraction s).2 <:+ s := by
  unfold readFraction
  split
  · dsimp only
    split
    · exact List.suffix_rfl
    · exact (List.dropWhile_suffix _).trans (List.suffix_cons _ _)
  · exact List.suffix_rfl

theorem readExponent?_suffix {s rest : List Char} {e : Int} (h : readExponent? s = some (e, rest)) :
    rest <:+ s := by
  have digits : ∀ {t : List Char} {n : Int}, (if (t.takeWhile Char.isDigit).isEmpty then none
      else some (n, t.dropWhile Char.isDigit)) = some (e, rest) → rest <:+ t := by
    intro t n h
    split at h
    · cases h
    · obtain ⟨-, rfl⟩ := Prod.mk.inj (Option.some.inj h)
      exact List.dropWhile_suffix _
  unfold readExponent? at h
  split at h
  · split at h
    · -- the sign, if there is one, is passed over
      dsimp only at h
      split at h
      · exact (digits h).trans ((List.suffix_cons _ _).trans (List.suffix_cons _ _))
      · exact (digits h).trans ((List.suffix_cons _ _).trans (List.suffix_cons _ _))
      · exact (digits h).trans (List.suffix_cons _ _)
    · cases h
  · cases h

theorem readUnsigned?_suffix {negative : Bool} {s rest : List Char} {v : Scalar}
    (h : readUnsigned? negative s = some (v, rest)) : rest <:+ s := by
  have hfraction : (readFraction (s.drop (wholeDigits s).length)).2 <:+ s :=
    (readFraction_suffix _).trans (List.drop_suffix _ _)
  unfold readUnsigned? at h
  dsimp only at h
  split at h
  · cases h
  · split at h
    · rename_i hexponent
      obtain ⟨-, rfl⟩ := Prod.mk.inj (Option.some.inj h)
      exact (readExponent?_suffix hexponent).trans hfraction
    · split at h
      · obtain ⟨-, rfl⟩ := Prod.mk.inj (Option.some.inj h)
        exact hfraction
      · obtain ⟨-, rfl⟩ := Prod.mk.inj (Option.some.inj h)
        exact hfraction

theorem readNumber?_suffix {s rest : List Char} {v : Scalar} (h : readNumber? s = some (v, rest)) :
    rest <:+ s := by
  unfold readNumber? at h
  split at h
  · exact (readUnsigned?_suffix h).trans (List.suffix_cons _ _)
  · exact readUnsigned?_suffix h

theorem readScalar?_suffix {s rest : List Char} {v : Scalar} (h : readScalar? s = some (v, rest)) :
    rest <:+ s := by
  unfold readScalar? at h
  dsimp only at h
  split at h
  · rename_i r hword
    cases h
    obtain ⟨entry, -, hentry⟩ := List.exists_of_findSome?_eq_some hword
    obtain ⟨rest', hrest, he⟩ := Option.map_eq_some_iff.mp hentry
    cases he
    exact ⟨entry.1, (Text.dropStart?_eq_some_iff.mp hrest).symm⟩
  · exact readNumber?_suffix h

/-- A digit is worth less than ten. -/
theorem digit_lt {c : Char} (h : c.isDigit = true) : c.toNat - '0'.toNat < 10 := by
  simp only [Char.isDigit, Bool.and_eq_true, decide_eq_true_eq] at h
  have hle : c.toNat ≤ 57 := h.2
  have hzero : '0'.toNat = 48 := rfl
  omega

theorem digitsValue_lt {ds : List Char} (h : ∀ c ∈ ds, c.isDigit = true) :
    digitsValue ds < Nat.pow 10 ds.length := by
  -- behind a value read so far
  have behind : ∀ (ds : List Char) (n : Nat), (∀ c ∈ ds, c.isDigit = true) →
      ds.foldl (fun n c => 10 * n + (c.toNat - '0'.toNat)) n < (n + 1) * Nat.pow 10 ds.length := by
    intro ds
    induction ds with
    | nil =>
      intro n _
      simp
    | cons c rest ih =>
      intro n h
      have hc := digit_lt (h c List.mem_cons_self)
      have hrest := ih (10 * n + (c.toNat - '0'.toNat)) fun d hd => h d (List.mem_cons_of_mem _ hd)
      have hpow : Nat.pow 10 (rest.length + 1) = 10 * Nat.pow 10 rest.length := Nat.pow_succ'
      rw [List.foldl_cons, List.length_cons, hpow, ← Nat.mul_assoc]
      exact Nat.lt_of_lt_of_le hrest (Nat.mul_le_mul_right _ (by omega))
  have hzero := behind ds 0 h
  rwa [Nat.zero_add, Nat.one_mul] at hzero

/-- A value that is large takes many digits. -/
theorem lt_length_of_pow_le {n : Nat} {ds : List Char} (hds : ∀ c ∈ ds, c.isDigit = true)
    (h : Nat.pow 10 n ≤ digitsValue ds) : n < ds.length :=
  (Nat.pow_lt_pow_iff_right (by decide)).mp (Nat.lt_of_le_of_lt h (digitsValue_lt hds))

theorem wholeDigits_spec (s : List Char) :
    wholeDigits s <+: s ∧ ∀ c ∈ wholeDigits s, c.isDigit = true := by
  unfold wholeDigits
  split
  · rename_i rest
    refine ⟨⟨rest, rfl⟩, fun c hc => ?_⟩
    rw [List.mem_singleton.mp hc]
    rfl
  · exact ⟨List.takeWhile_prefix _, List.all_eq_true.mp (List.all_takeWhile ..)⟩

theorem digits_of_readUnsigned? {negative : Bool} {s rest : List Char} {v : Scalar}
    (h : readUnsigned? negative s = some (v, rest)) (hv : hasTooManyDigits v = true) :
    maxDigits < digits s := by
  unfold readUnsigned? at h
  dsimp only at h
  split at h
  · cases h
  · split at h
    · cases h
      cases hv
    · split at h
      · obtain ⟨rfl, -⟩ := Prod.mk.inj (Option.some.inj h)
        obtain ⟨hpre, hall⟩ := wholeDigits_spec s
        have hbound : Nat.pow 10 maxDigits ≤ digitsValue (wholeDigits s) := by
          unfold hasTooManyDigits at hv
          rw [decide_eq_true_eq] at hv
          cases negative <;> simpa using hv
        have hlength := lt_length_of_pow_le hall hbound
        have hcount : (wholeDigits s).countP Char.isDigit = (wholeDigits s).length :=
          List.countP_eq_length.mpr hall
        have hle : (wholeDigits s).countP Char.isDigit ≤ digits s := hpre.sublist.countP_le
        omega
      · cases h
        cases hv

/-- A whole number that takes too many digits stands in a text with too many of them. -/
theorem digits_of_readScalar? {s rest : List Char} {v : Scalar} (h : readScalar? s = some (v, rest))
    (hv : hasTooManyDigits v = true) : maxDigits < digits s := by
  unfold readScalar? at h
  dsimp only at h
  split at h
  · rename_i r hword
    cases h
    obtain ⟨entry, hmem, hentry⟩ := List.exists_of_findSome?_eq_some hword
    obtain ⟨rest', -, he⟩ := Option.map_eq_some_iff.mp hentry
    cases he
    -- no word is a whole number
    have hwords : ∀ entry ∈ words, hasTooManyDigits entry.2 = false := by simp [words, hasTooManyDigits]
    rw [hwords entry hmem] at hv
    cases hv
  · unfold readNumber? at h
    split at h
    · exact Nat.lt_of_lt_of_le (digits_of_readUnsigned? h hv) (digits_of_suffix (List.suffix_cons _ _))
    · exact digits_of_readUnsigned? h hv

/-! ## 3. Values -/

/-- With some fuel all values, items and entries are read as they should be. -/
structure Readings (fuel : Nat) : Prop where
  value : ∀ depth p, Reading depth p.rest (readValue depth fuel p)
  items : ∀ depth p, Reading depth p.rest (readItems depth fuel p)
  fields : ∀ depth p fields, Reading depth p.rest (readFields depth fuel p fields)

/-- A bracket is not gone into if too many are open. -/
theorem reading_tooDeep {depth offset : Nat} {c : Char} {rest : List Char}
    (h : maxDepth ≤ depth) (hc : (c == '[' || c == '\x7b') = true) :
    Reading depth (c :: rest) (.error ⟨.tooDeep, offset⟩ : Except Fault (α × Place)) := by
  have hcons : openings (c :: rest) = openings rest + 1 := List.countP_cons_of_pos hc
  show maxDepth < depth + openings (c :: rest)
  omega

theorem readValue_reading {fuel : Nat} (h : Readings fuel) (depth : Nat) (p : Place) :
    Reading depth p.rest (readValue depth (fuel + 1) p) := by
  unfold readValue
  split
  · rename_i rest hp
    rw [hp]
    refine Reading.widen ?_ (List.suffix_cons _ _)
    exact (readString_reading _ _ _ _).bind fun _ _ => .pure List.suffix_rfl
  · rename_i rest hp
    rw [hp]
    split
    · rename_i hdepth
      exact reading_tooDeep hdepth rfl
    · have hskip := skipSpace_suffix ⟨p.offset + 1, rest⟩
      dsimp only
      split
      · rename_i rest' hclosed
        rw [hclosed] at hskip
        exact ((List.suffix_cons _ _).trans hskip).trans (List.suffix_cons _ _)
      · refine Reading.outward ?_ hskip rfl
        exact (h.items _ _).bind fun _ _ => .pure List.suffix_rfl
  · rename_i rest hp
    rw [hp]
    split
    · rename_i hdepth
      exact reading_tooDeep hdepth rfl
    · have hskip := skipSpace_suffix ⟨p.offset + 1, rest⟩
      dsimp only
      split
      · rename_i rest' hclosed
        rw [hclosed] at hskip
        exact ((List.suffix_cons _ _).trans hskip).trans (List.suffix_cons _ _)
      · refine Reading.outward ?_ hskip rfl
        exact (h.fields _ _ _).bind fun _ _ => .pure List.suffix_rfl
  · split
    · rename_i hscalar
      split
      · rename_i hlong
        exact digits_of_readScalar? hscalar hlong
      · exact readScalar?_suffix hscalar
    · exact .of_problem rfl

theorem readItems_reading {fuel : Nat} (h : Readings fuel) (depth : Nat) (p : Place) :
    Reading depth p.rest (readItems depth (fuel + 1) p) := by
  unfold readItems
  refine (h.value depth p).bind fun item q => ?_
  have hskip := skipSpace_suffix q
  dsimp only
  split
  · rename_i rest hclosed
    rw [hclosed] at hskip
    exact .pure ((List.suffix_cons _ _).trans hskip)
  · rename_i rest hcomma
    rw [hcomma] at hskip
    have hnext := (skipSpace_suffix ⟨q.skipSpace.offset + 1, rest⟩).trans
      ((List.suffix_cons _ _).trans hskip)
    refine Reading.widen ?_ hnext
    exact (h.items _ _).bind fun _ _ => .pure List.suffix_rfl
  · exact .of_problem rfl

theorem readFields_reading {fuel : Nat} (h : Readings fuel) (depth : Nat) (p : Place)
    (fields : List (Scalar × Value)) :
    Reading depth p.rest (readFields depth (fuel + 1) p fields) := by
  unfold readFields
  split
  · rename_i rest hp
    rw [hp]
    refine Reading.widen ?_ (List.suffix_cons _ _)
    refine (readString_reading _ _ _ _).bind fun name q => ?_
    have hskip := skipSpace_suffix q
    dsimp only
    split
    · rename_i rest hcolon
      rw [hcolon] at hskip
      have hvalue := (skipSpace_suffix ⟨q.skipSpace.offset + 1, rest⟩).trans
        ((List.suffix_cons _ _).trans hskip)
      refine Reading.widen ((h.value _ _).bind fun value q => ?_) hvalue
      have hskip := skipSpace_suffix q
      dsimp only
      split
      · rename_i rest hclosed
        rw [hclosed] at hskip
        exact .pure ((List.suffix_cons _ _).trans hskip)
      · rename_i rest hcomma
        rw [hcomma] at hskip
        have hnext := (skipSpace_suffix ⟨q.skipSpace.offset + 1, rest⟩).trans
          ((List.suffix_cons _ _).trans hskip)
        exact (h.fields _ _ _).widen hnext
      · exact .of_problem rfl
    · exact .of_problem rfl
  · exact .of_problem rfl

/-- **Values, items and entries are read as they should be**: by induction on the fuel. -/
theorem readings (fuel : Nat) : Readings fuel := by
  induction fuel with
  | zero => exact ⟨fun _ _ => .of_problem rfl, fun _ _ => .of_problem rfl,
      fun _ _ _ => .of_problem rfl⟩
  | succ fuel ih => exact ⟨readValue_reading ih, readItems_reading ih, readFields_reading ih⟩

/-- **A document that is refused for its size opens too many brackets, or has too many digits.** -/
theorem oversized_of_read {text : List Char} {fault : Fault} (h : read text = .error fault) :
    Oversized 0 text fault.problem := by
  unfold read at h
  split at h
  · cases h
    trivial
  · rcases bind_eq_error.mp h with h | ⟨⟨value, p⟩, -, h⟩
    · have hread := (readings (2 * text.length + 2)).value 0 (Place.skipSpace ⟨0, text⟩)
      rw [h] at hread
      exact Oversized.widen hread (skipSpace_suffix ⟨0, text⟩)
    · dsimp only at h
      split at h <;> cases h
      trivial

end Runbook.Json
