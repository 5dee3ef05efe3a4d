import Runbook.Proofs.Json.Grammar
import Runbook.Proofs.Json.Size

/-!
# What is read is written so

The reader of JSON documents goes by the grammar: what it takes for a value is written for that value.

* `readString_spelled`: strings; `readNumber?_numeral`: numbers; `readScalar?_written`: words and numbers;
* `Sound`, `sound`: values, items of lists and entries of maps, by induction on the fuel;
* **`isDocument_of_read`**: a text that is read is a document for the value that is read from it.
-/

namespace Runbook.Json

/-! ## 1. Strings -/

theorem push_eq_ok {code : Nat} {r : Except Fault (List Nat × Place)} {codes : List Nat} {q : Place}
    (h : push code r = .ok (codes, q)) : ∃ later, codes = code :: later ∧ r = .ok (later, q) := by
  obtain ⟨⟨later, q'⟩, hr, heq⟩ := map_eq_ok.mp h
  obtain ⟨rfl, rfl⟩ := Prod.mk.inj heq
  exact ⟨later, rfl, hr⟩

/-- A second half is told by its escape, with one more character behind it. -/
theorem secondHalf_eq_half {high low : Nat} {rest : List Char} (h : secondHalf high rest = .half low) :
    ∃ a b c d e tail, rest = '\\' :: 'u' :: a :: b :: c :: d :: e :: tail ∧
      Text.isHighHalf high = true ∧ hexValue4? a b c d = some low ∧ Text.isLowHalf low = true := by
  unfold secondHalf at h
  split at h
  · rename_i a b c d e tail
    split at h
    · rename_i hhigh
      split at h
      · cases h
      · rename_i n hn
        split at h
        · rename_i hlow
          obtain rfl : n = low := by injection h
          exact ⟨a, b, c, d, e, tail, rfl, hhigh, hn, hlow⟩
        · cases h
    · cases h
  · cases h

/-- Where there is no second half, no escape behind a first half is one. -/
theorem isLowHalf_of_absent {high low : Nat} {a b c d e : Char} {tail : List Char}
    (h : secondHalf high ('\\' :: 'u' :: a :: b :: c :: d :: e :: tail) = .absent)
    (hlow : hexValue4? a b c d = some low) (hhigh : Text.isHighHalf high = true) :
    Text.isLowHalf low = false := by
  simp only [secondHalf, hhigh, hlow, if_true] at h
  cases hl : Text.isLowHalf low with
  | false => rfl
  | true =>
    rw [hl, if_pos rfl] at h
    cases h

/-- **What is read of a string spells its code points**, up to the closing quote. -/
theorem readString_spelled {start n : Nat} {s : List Char} {codes : List Nat} {q : Place}
    (h : readString start n s = .ok (codes, q)) :
    ∃ inner, s = inner ++ '"' :: q.rest ∧ Spelled inner codes := by
  fun_induction readString start n s generalizing codes with
  | case1 | case3 | case5 | case7 | case8 | case10 | case11 | case12 => cases h
  | case2 n rest =>
    cases h
    exact ⟨[], rfl, .nil⟩
  | case4 n a b c d high hhigh low c₁ c₂ c₃ c₄ c₅ c₆ rest _ hsecond ih =>
    obtain ⟨later, rfl, hr⟩ := push_eq_ok h
    obtain ⟨inner, hrest, hinner⟩ := ih hr
    obtain ⟨e, f, g, i, j, tail, heq, hfirst, hlow, hlast⟩ := secondHalf_eq_half hsecond
    simp only [List.cons.injEq] at heq
    obtain ⟨rfl, rfl, rfl, rfl, rfl, rfl, -⟩ := heq
    exact ⟨_, by rw [hrest]; rfl, .pair hhigh hlow hfirst hlast hinner⟩
  | case6 n a b c d rest high _ hhigh habsent ih =>
    obtain ⟨later, rfl, hr⟩ := push_eq_ok h
    obtain ⟨inner, hrest, hinner⟩ := ih hr
    refine ⟨'\\' :: 'u' :: a :: b :: c :: d :: inner, by rw [hrest]; rfl, .unit hhigh ?_ hinner⟩
    intro e f g i low tail heq hlow hfirst
    rw [hrest, heq] at habsent
    -- behind the escape at least the closing quote follows
    obtain ⟨j, more, hmore⟩ : ∃ j more, tail ++ '"' :: q.rest = j :: more :=
      List.exists_cons_of_ne_nil (by simp)
    simp only [List.cons_append] at habsent
    rw [hmore] at habsent
    exact isLowHalf_of_absent habsent hlow hfirst
  | case9 n c rest _ _ d hd ih =>
    obtain ⟨later, rfl, hr⟩ := push_eq_ok h
    obtain ⟨inner, hrest, hinner⟩ := ih hr
    exact ⟨'\\' :: c :: inner, by rw [hrest]; rfl, .letter hd hinner⟩
  | case13 n c rest hquote _ _ hletter hend hcontrol ih =>
    obtain ⟨later, rfl, hr⟩ := push_eq_ok h
    obtain ⟨inner, hrest, hinner⟩ := ih hr
    refine ⟨c :: inner, by rw [hrest]; rfl, .plain ?_ ?_ (Nat.not_lt.mp hcontrol) hinner⟩
    · exact hquote
    · intro hc
      cases rest with
      | nil => exact hend hc rfl
      | cons d rest => exact hletter d rest hc rfl

/-! ## 2. Numbers and words -/

theorem areDigits_takeWhile {s : List Char} (h : ¬ (s.takeWhile Char.isDigit).isEmpty = true) :
    AreDigits (s.takeWhile Char.isDigit) :=
  ⟨fun hnil => h (List.isEmpty_iff.mpr hnil), List.all_eq_true.mp (List.all_takeWhile ..)⟩

theorem wholeDigits_written {s : List Char} (h : ¬ (wholeDigits s).isEmpty = true) :
    AreWhole (wholeDigits s) ∧ s = wholeDigits s ++ s.drop (wholeDigits s).length := by
  obtain ⟨hpre, hdigits⟩ := wholeDigits_spec s
  refine ⟨⟨⟨fun hnil => h (List.isEmpty_iff.mpr hnil), hdigits⟩, ?_⟩, ?_⟩
  · unfold wholeDigits
    split
    · exact fun _ => rfl
    · rename_i hzero
      intro hhead
      cases s with
      | nil => cases hhead
      | cons c rest =>
        by_cases hc : c.isDigit = true
        · rw [List.takeWhile_cons_of_pos hc] at hhead
          exact (hzero rest (by rw [Option.some.inj hhead])).elim
        · rw [List.takeWhile_cons_of_neg hc] at hhead
          cases hhead
  · exact (List.prefix_iff_eq_append.mp hpre).symm

theorem readFraction_written (s : List Char) :
    ∃ t, s = t ++ (readFraction s).2 ∧ Fraction t (readFraction s).1 := by
  unfold readFraction
  split
  · rename_i rest
    dsimp only
    split
    · exact ⟨[], rfl, .none⟩
    · rename_i hdigits
      refine ⟨'.' :: rest.takeWhile Char.isDigit, ?_, .some (areDigits_takeWhile hdigits)⟩
      rw [List.cons_append, List.takeWhile_append_dropWhile]
  · exact ⟨[], rfl, .none⟩

/-- Digits up to where they end. -/
theorem exists_digits {s rest : List Char} {e f : Int}
    (h : (if (s.takeWhile Char.isDigit).isEmpty then none
      else some (f, s.dropWhile Char.isDigit)) = some (e, rest)) :
    e = f ∧ s = s.takeWhile Char.isDigit ++ rest ∧ AreDigits (s.takeWhile Char.isDigit) := by
  split at h
  · cases h
  · rename_i hdigits
    obtain ⟨rfl, rfl⟩ := Prod.mk.inj (Option.some.inj h)
    exact ⟨rfl, List.takeWhile_append_dropWhile.symm, areDigits_takeWhile hdigits⟩

theorem readExponent?_written {s rest : List Char} {e : Int} (h : readExponent? s = some (e, rest)) :
    ∃ t, s = t ++ rest ∧ Exponent t e := by
  unfold readExponent? at h
  split at h
  · rename_i first tail
    split at h
    · rename_i hletter
      have he : first = 'e' ∨ first = 'E' := by simpa using hletter
      dsimp only at h
      split at h
      · obtain ⟨rfl, hsplit, hds⟩ := exists_digits h
        exact ⟨_, congrArg (fun t => first :: '-' :: t) hsplit, .minus he hds⟩
      · obtain ⟨rfl, hsplit, hds⟩ := exists_digits h
        exact ⟨_, congrArg (fun t => first :: '+' :: t) hsplit, .plus he hds⟩
      · obtain ⟨rfl, hsplit, hds⟩ := exists_digits h
        exact ⟨_, congrArg (first :: ·) hsplit, .bare he hds⟩
    · cases h
  · cases h

/-- **What is read as a number behind a sign is one.** -/
theorem readUnsigned?_numeral {negative : Bool} {s rest : List Char} {v : Scalar}
    (h : readUnsigned? negative s = some (v, rest)) :
    ∃ t, s = t ++ rest ∧ Numeral (sign negative ++ t) v := by
  unfold readUnsigned? at h
  dsimp only at h
  split at h
  · cases h
  · rename_i hwhole
    obtain ⟨hds, hs⟩ := wholeDigits_written hwhole
    obtain ⟨t, ht, hfraction⟩ := readFraction_written (s.drop (wholeDigits s).length)
    split at h
    · rename_i e rest' hexponent
      obtain ⟨rfl, rfl⟩ := Prod.mk.inj (Option.some.inj h)
      obtain ⟨u, hu, he⟩ := readExponent?_written hexponent
      refine ⟨wholeDigits s ++ (t ++ u), ?_, .exponent negative hds hfraction he⟩
      rw [List.append_assoc, List.append_assoc, ← hu, ← ht]
      exact hs
    · split at h
      · rename_i hnone
        obtain ⟨rfl, rfl⟩ := Prod.mk.inj (Option.some.inj h)
        rw [List.isEmpty_iff.mp hnone] at hfraction
        cases hfraction with
        | none =>
          rw [List.nil_append] at ht
          rw [ht] at hs
          exact ⟨wholeDigits s, hs, .whole negative hds⟩
        | some hempty => exact absurd rfl hempty.1
      · rename_i hsome
        obtain ⟨rfl, rfl⟩ := Prod.mk.inj (Option.some.inj h)
        refine ⟨wholeDigits s ++ t, ?_, .fraction negative hds hfraction fun hnil => ?_⟩
        · rw [List.append_assoc, ← ht]
          exact hs
        · exact hsome (List.isEmpty_iff.mpr hnil)

theorem readNumber?_numeral {s rest : List Char} {v : Scalar} (h : readNumber? s = some (v, rest)) :
    ∃ t, s = t ++ rest ∧ Numeral t v := by
  unfold readNumber? at h
  split at h
  · rename_i tail
    obtain ⟨t, rfl, ht⟩ := readUnsigned?_numeral h
    exact ⟨'-' :: t, rfl, ht⟩
  · obtain ⟨t, rfl, ht⟩ := readUnsigned?_numeral h
    exact ⟨t, rfl, ht⟩

/-- **What is read as a word or number is one.** -/
theorem readScalar?_written {s rest : List Char} {v : Scalar} (h : readScalar? s = some (v, rest)) :
    ∃ t, s = t ++ rest ∧ Written words t (.value (.scalar v)) := by
  unfold readScalar? at h
  dsimp only at h
  split at h
  · rename_i r hword
    cases h
    obtain ⟨entry, hentry, hfound⟩ := List.exists_of_findSome?_eq_some hword
    obtain ⟨rest', hrest, heq⟩ := Option.map_eq_some_iff.mp hfound
    cases heq
    exact ⟨entry.1, Text.dropStart?_eq_some_iff.mp hrest, .word hentry⟩
  · obtain ⟨t, hs, ht⟩ := readNumber?_numeral h
    exact ⟨t, hs, .number ht⟩

/-! ## 3. Values -/

theorem exists_blank (p : Place) : ∃ b, Blank b ∧ p.rest = b ++ p.skipSpace.rest :=
  ⟨p.rest.takeWhile isSpace, List.all_eq_true.mp (List.all_takeWhile ..),
    List.takeWhile_append_dropWhile.symm⟩

/-- With some fuel, all that is read is written so. -/
structure Sound (fuel : Nat) : Prop where
  value : ∀ {depth p v q}, readValue depth fuel p = .ok (v, q) →
    ∃ s, p.rest = s ++ q.rest ∧ Written words s (.value v)
  items : ∀ {depth p vs q}, readItems depth fuel p = .ok (vs, q) →
    ∃ s, p.rest = s ++ q.rest ∧ Written words s (.items vs)
  fields : ∀ {depth p fields fields' q}, readFields depth fuel p fields = .ok (fields', q) →
    ∃ s entries, p.rest = s ++ q.rest ∧ Written words s (.fields entries) ∧
      fields' = putAll fields entries

variable {fuel depth : Nat} {p q : Place}

theorem readValue_sound (h : Sound fuel) {v : Value}
    (hv : readValue depth (fuel + 1) p = .ok (v, q)) :
    ∃ s, p.rest = s ++ q.rest ∧ Written words s (.value v) := by
  unfold readValue at hv
  split at hv
  · rename_i rest hp
    obtain ⟨⟨codes, r⟩, hr, hv⟩ := bind_eq_ok.mp hv
    cases hv
    obtain ⟨inner, rfl, hinner⟩ := readString_spelled hr
    exact ⟨quoted inner, by simp [hp, quoted], .string hinner⟩
  · rename_i rest hp
    split at hv
    · cases hv
    · obtain ⟨b, hb, hrest⟩ := exists_blank ⟨p.offset + 1, rest⟩
      have hrest : rest = b ++ _ := hrest
      dsimp only at hv
      split at hv
      · rename_i rest' hclosed
        cases hv
        rw [hclosed] at hrest
        exact ⟨_, by simp [hp, hrest], .emptyList hb⟩
      · obtain ⟨⟨vs, r⟩, hr, hv⟩ := bind_eq_ok.mp hv
        cases hv
        obtain ⟨s, hs, hitems⟩ := h.items hr
        rw [hs] at hrest
        exact ⟨_, by simp [hp, hrest], .list hb hitems⟩
  · rename_i rest hp
    split at hv
    · cases hv
    · obtain ⟨b, hb, hrest⟩ := exists_blank ⟨p.offset + 1, rest⟩
      have hrest : rest = b ++ _ := hrest
      dsimp only at hv
      split at hv
      · rename_i rest' hclosed
        cases hv
        rw [hclosed] at hrest
        exact ⟨_, by simp [hp, hrest], .emptyMap hb⟩
      · obtain ⟨⟨fields, r⟩, hr, hv⟩ := bind_eq_ok.mp hv
        cases hv
        obtain ⟨s, entries, hs, hfields, rfl⟩ := h.fields hr
        rw [hs] at hrest
        exact ⟨_, by simp [hp, hrest], .map hb hfields⟩
  · split at hv
    · rename_i w rest hscalar
      split at hv
      · cases hv
      · cases hv
        exact readScalar?_written hscalar
    · cases hv

theorem readItems_sound (h : Sound fuel) {vs : List Value}
    (hvs : readItems depth (fuel + 1) p = .ok (vs, q)) :
    ∃ s, p.rest = s ++ q.rest ∧ Written words s (.items vs) := by
  unfold readItems at hvs
  obtain ⟨⟨v, r⟩, hr, hvs⟩ := bind_eq_ok.mp hvs
  obtain ⟨s, hs, hv⟩ := h.value hr
  obtain ⟨b, hb, hrest⟩ := exists_blank r
  dsimp only at hvs
  split at hvs
  · rename_i rest hclosed
    cases hvs
    rw [hclosed] at hrest
    exact ⟨_, by simp [hs, hrest], .lastItem hv hb⟩
  · rename_i rest hcomma
    obtain ⟨⟨others, r'⟩, hr', hvs⟩ := bind_eq_ok.mp hvs
    cases hvs
    obtain ⟨t, ht, hothers⟩ := h.items hr'
    obtain ⟨b', hb', hrest'⟩ := exists_blank ⟨r.skipSpace.offset + 1, rest⟩
    have hrest' : rest = b' ++ _ := hrest'
    rw [hcomma, hrest', ht] at hrest
    exact ⟨_, by simp [hs, hrest], .item hv hb hb' hothers⟩
  · cases hvs

theorem readFields_sound (h : Sound fuel) {fields fields' : List (Scalar × Value)}
    (hf : readFields depth (fuel + 1) p fields = .ok (fields', q)) :
    ∃ s entries, p.rest = s ++ q.rest ∧ Written words s (.fields entries) ∧
      fields' = putAll fields entries := by
  unfold readFields at hf
  split at hf
  · rename_i rest hp
    obtain ⟨⟨codes, r⟩, hr, hf⟩ := bind_eq_ok.mp hf
    obtain ⟨inner, hstring, hinner⟩ := readString_spelled hr
    obtain ⟨b, hb, hrest⟩ := exists_blank r
    dsimp only at hf
    split at hf
    · rename_i rest hcolon
      obtain ⟨⟨v, r'⟩, hr', hf⟩ := bind_eq_ok.mp hf
      obtain ⟨s, hs, hv⟩ := h.value hr'
      obtain ⟨b', hb', hrest'⟩ := exists_blank ⟨r.skipSpace.offset + 1, rest⟩
      have hrest' : rest = b' ++ _ := hrest'
      obtain ⟨b'', hb'', hrest''⟩ := exists_blank r'
      dsimp only at hf
      split at hf
      · rename_i rest'' hclosed
        cases hf
        rw [hclosed] at hrest''
        rw [hcolon, hrest', hs, hrest''] at hrest
        exact ⟨_, [(codes, v)], by simp [hp, hstring, quoted, hrest],
          .lastField hinner hb hb' hv hb'', rfl⟩
      · rename_i rest'' hcomma
        obtain ⟨t, entries, ht, hentries, rfl⟩ := h.fields hf
        obtain ⟨b₃, hb₃, hrest₃⟩ := exists_blank ⟨r'.skipSpace.offset + 1, rest''⟩
        have hrest₃ : rest'' = b₃ ++ _ := hrest₃
        rw [hcomma, hrest₃, ht] at hrest''
        rw [hcolon, hrest', hs, hrest''] at hrest
        exact ⟨_, (codes, v) :: entries, by simp [hp, hstring, quoted, hrest],
          .field hinner hb hb' hv hb'' hb₃ hentries, rfl⟩
      · cases hf
    · cases hf
  · cases hf

/-- **Values, items and entries are written as they are read**: by induction on the fuel. -/
theorem sound (fuel : Nat) : Sound fuel := by
  induction fuel with
  | zero => exact ⟨nofun, nofun, nofun⟩
  | succ fuel ih => exact ⟨readValue_sound ih, readItems_sound ih, readFields_sound ih⟩

/-- **A text that is read is a document** for the value that is read from it. -/
theorem isDocument_of_read {text : List Char} {v : Value} (h : read text = .ok v) :
    IsDocument words text v := by
  unfold read at h
  split at h
  · cases h
  · obtain ⟨⟨w, p⟩, hp, h⟩ := bind_eq_ok.mp h
    obtain ⟨front, hfront, htext⟩ := exists_blank ⟨0, text⟩
    obtain ⟨back, hback, hrest⟩ := exists_blank p
    obtain ⟨s, hs, hwritten⟩ := (sound _).value hp
    dsimp only at h
    split at h
    · rename_i hend
      cases h
      rw [List.isEmpty_iff.mp hend, List.append_nil] at hrest
      rw [hs, hrest] at htext
      exact ⟨front, s, back, htext, hfront, hback, hwritten⟩
    · cases h

end Runbook.Json
