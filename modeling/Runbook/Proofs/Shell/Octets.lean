import Runbook.Proofs.Shell.DoubleQuotes
import Runbook.Proofs.Text.Tidy
import Runbook.Shell.Octets

/-!
# The bytes of a text

* `octetsOf_ofList`: the bytes of a text are those of its characters, one after the other;
* `octets_of_lt`, `le_toNat_of_mem_octets`: an ASCII character is its own byte, and no byte of another
  character is in ASCII;
* `octetsOf_append`, `octetsOf_of_lt`: the bytes of two texts, and of an ASCII text;
* **`isInert_octetsOf`**: whether a text stands for itself between double quotes can be told from its
  characters.
-/

namespace Runbook.Shell

/-! ## 1. Bytes of characters -/

/-- The bytes of a character. -/
def octets (c : Char) : Octets := (String.utf8EncodeChar c).map fun b => Char.ofNat b.toNat

/-- Bytes put into an array and taken out from a place on. -/
theorem toList_loop_toByteArray (front rest seen : List UInt8) :
    ByteArray.toList.loop (front ++ rest).toByteArray front.length seen = seen.reverse ++ rest := by
  induction rest generalizing front seen with
  | nil =>
    unfold ByteArray.toList.loop
    rw [if_neg (by simp), List.append_nil]
  | cons b rest ih =>
    have hget : (front ++ b :: rest).toByteArray.get! front.length = b := by
      simp [ByteArray.get!]
    have hnext := ih (front ++ [b]) (b :: seen)
    rw [List.append_assoc, List.singleton_append, List.length_append] at hnext
    unfold ByteArray.toList.loop
    rw [if_pos (by simp), hget]
    simpa using hnext

theorem octetsOf_ofList (cs : List Char) : octetsOf (String.ofList cs) = cs.flatMap octets := by
  have hbytes : (String.ofList cs).toUTF8.toList = cs.flatMap String.utf8EncodeChar := by
    rw [String.toUTF8_eq_toByteArray]
    exact toList_loop_toByteArray [] _ []
  unfold octetsOf
  rw [hbytes, List.map_flatMap]
  rfl

theorem octetsOf_append (a b : String) : octetsOf (a ++ b) = octetsOf a ++ octetsOf b := by
  rw [← String.ofList_toList (s := a), ← String.ofList_toList (s := b), ← String.ofList_append,
    octetsOf_ofList, octetsOf_ofList, octetsOf_ofList, List.flatMap_append]

theorem toNat_ofNat {n : Nat} (h : n < 256) : (Char.ofNat n).toNat = n := by
  have hvalid : n.isValidChar := .inl (by omega)
  unfold Char.ofNat
  rw [dif_pos hvalid]
  rfl

/-- An ASCII character is its own byte. -/
theorem octets_of_lt {c : Char} (h : c.toNat < 128) : octets c = [c] := by
  have hone : String.utf8EncodeChar c = [UInt8.ofNat c.toNat] := if_pos (Nat.le_of_lt_succ h)
  unfold octets
  rw [hone, List.map_singleton, UInt8.toNat_ofNat_of_lt' (Nat.lt_trans h (by decide)),
    Char.ofNat_toNat]

/-- No byte of another character is in ASCII. -/
theorem le_toNat_of_mem_octets {c b : Char} (h : 128 ≤ c.toNat) (hb : b ∈ octets c) :
    128 ≤ b.toNat := by
  obtain ⟨u, hu, rfl⟩ := List.mem_map.mp hb
  rw [toNat_ofNat (UInt8.toNat_lt u)]
  have hno : ¬c.val.toNat ≤ 127 := Nat.not_le.mpr h
  unfold String.utf8EncodeChar at hu
  dsimp only at hu
  rw [if_neg hno] at hu
  split_ifs at hu
  all_goals
    simp only [List.mem_cons, List.not_mem_nil, or_false] at hu
  · rcases hu with rfl | rfl <;> simp <;> omega
  · rcases hu with rfl | rfl | rfl <;> simp <;> omega
  · rcases hu with rfl | rfl | rfl | rfl <;> simp <;> omega

theorem octets_ne_nil (c : Char) : octets c ≠ [] := by
  refine List.ne_nil_of_length_pos ?_
  rw [octets, List.length_map, String.length_utf8EncodeChar]
  exact c.utf8Size_pos

theorem octetsOf_of_lt {s : String} (h : ∀ c ∈ s.toList, c.toNat < 128) : octetsOf s = s.toList := by
  conv => lhs; rw [← String.ofList_toList (s := s), octetsOf_ofList]
  calc s.toList.flatMap octets
      _ = s.toList.flatMap fun c => [c] := List.flatMap_congr fun c hc => octets_of_lt (h c hc)
      _ = s.toList := List.flatMap_singleton' _

/-- An ASCII character is among the bytes of a text if it is in the text. -/
theorem mem_flatMap_octets_iff {cs : List Char} {c : Char} (h : c.toNat < 128) :
    c ∈ cs.flatMap octets ↔ c ∈ cs := by
  rw [List.mem_flatMap]
  constructor
  · rintro ⟨d, hd, hc⟩
    rcases Nat.lt_or_ge d.toNat 128 with hlt | hge
    · rw [octets_of_lt hlt, List.mem_singleton] at hc
      rwa [hc]
    · exact absurd (le_toNat_of_mem_octets hge hc) (Nat.not_le.mpr h)
  · intro hc
    exact ⟨c, hc, by rw [octets_of_lt h]; exact List.mem_singleton_self c⟩

/-! ## 2. Bytes between double quotes -/

theorem ne_of_ge {c d : Char} (hc : 128 ≤ c.toNat) (hd : d.toNat < 128) : c ≠ d := by
  rintro rfl
  exact absurd hc (Nat.not_le.mpr hd)

theorem ne_of_ge_of_all {c : Char} (hc : 128 ≤ c.toNat) {cs : List Char}
    (h : cs.all (·.toNat < 128) = true) : ∀ d ∈ cs, c ≠ d :=
  fun d hd => ne_of_ge hc (by simpa using List.all_eq_true.mp h d hd)

/-- What is not in ASCII has no meaning between double quotes. -/
theorem isInert_cons_of_ge {c : Char} (h : 128 ≤ c.toNat) (t : List Char) :
    isInert (c :: t) = isInert t := by
  conv => lhs; unfold isInert
  split
  · exact absurd rfl (ne_of_ge h (by decide))
  · exact absurd rfl (ne_of_ge h (by decide))
  · exact absurd rfl (ne_of_ge h (by decide))
  · exact absurd rfl (ne_of_ge h (by decide))
  · exact Bool.and_true _

theorem isInert_append_of_ge {bs : List Char} (h : ∀ b ∈ bs, 128 ≤ b.toNat) (t : List Char) :
    isInert (bs ++ t) = isInert t := by
  induction bs with
  | nil => rfl
  | cons b bs ih =>
    obtain ⟨hb, hbs⟩ := List.forall_mem_cons.mp h
    rw [List.cons_append, isInert_cons_of_ge hb, ih hbs]

/-- What depends on the first character alone, and is the same for all that are not in ASCII, is the
same for the bytes of a text. -/
theorem head?_flatMap_octets {β : Type} (f : Option Char → β) {other : β}
    (hf : ∀ c : Char, 128 ≤ c.toNat → f (some c) = other) (cs : List Char) :
    f (cs.flatMap octets).head? = f cs.head? := by
  cases cs with
  | nil => rfl
  | cons c cs =>
    rw [List.flatMap_cons]
    rcases Nat.lt_or_ge c.toNat 128 with hlt | hge
    · rw [octets_of_lt hlt]
      rfl
    · cases hc : octets c with
      | nil => exact absurd hc (octets_ne_nil c)
      | cons b bs =>
        have hb : 128 ≤ b.toNat := le_toNat_of_mem_octets hge (hc ▸ List.mem_cons_self)
        exact (hf b hb).trans (hf c hge).symm

theorem isIdentChar_of_ge {c : Char} (h : 128 ≤ c.toNat) : Text.isIdentChar c = false := by
  cases hc : Text.isIdentChar c with
  | false => rfl
  | true => exact absurd h (Nat.not_le.mpr (Text.toNat_lt_of_isIdentChar hc))

theorem opensExpansion_of_ge (c : Char) (h : 128 ≤ c.toNat) : opensExpansion c = false := by
  have hident := isIdentChar_of_ge h
  have hstart : Text.isIdentStart c = false := by
    cases hc : Text.isIdentStart c with
    | false => rfl
    | true => rw [← hident, Text.isIdentChar_of_isIdentStart hc]
  have hdigit : c.isDigit = false := by
    simp only [Text.isIdentChar, Char.isAlphanum, Bool.or_eq_false_iff] at hident
    exact hident.1.2
  have hnone := ne_of_ge_of_all h (show "(\x7b@*#?$!-".toList.all (·.toNat < 128) = true by decide)
  have hspecial : isSpecialName c = false := by
    rw [isSpecialName, hdigit, Bool.false_or, List.contains_eq_mem, decide_eq_false_iff_not]
    exact fun hc => hnone c (List.mem_cons_of_mem _ (List.mem_cons_of_mem _ hc)) rfl
  simp [opensExpansion, hstart, hspecial, hnone '(' (by decide), hnone '\x7b' (by decide)]

theorem not_escapes_of_ge (c : Char) (h : 128 ≤ c.toNat) :
    (decide (c ≠ '\n') && !Mode.quoted.escapes c) = true := by
  have hother := ne_of_ge_of_all h (show "\n$\x60\\\"".toList.all (·.toNat < 128) = true by decide)
  simp [Mode.escapes, Mode.isQuoted, hother _ (by decide : '\n' ∈ _), hother '$' (by decide),
    hother '\x60' (by decide), hother '\\' (by decide), hother '"' (by decide)]

theorem isInert_flatMap_octets (cs : List Char) : isInert (cs.flatMap octets) = isInert cs := by
  induction cs with
  | nil => rfl
  | cons c cs ih =>
    rw [List.flatMap_cons]
    rcases Nat.lt_or_ge c.toNat 128 with hlt | hge
    · rw [octets_of_lt hlt, List.singleton_append]
      have hslash := head?_flatMap_octets
        (fun first => first.any fun d => d ≠ '\n' && !Mode.quoted.escapes d)
        not_escapes_of_ge cs
      have hdollar : startsExpansion (cs.flatMap octets) = startsExpansion cs :=
        head?_flatMap_octets (fun first => first.any opensExpansion) opensExpansion_of_ge cs
      unfold isInert
      rw [ih]
      split
      · rfl
      · rfl
      · rw [← hslash]
      · rw [hdollar]
      · rfl
    · rw [isInert_append_of_ge fun b hb => le_toNat_of_mem_octets hge hb, ih, isInert_cons_of_ge hge]

/-- **Whether a text stands for itself between double quotes** can be told from its characters. -/
theorem isInert_octetsOf (s : String) : isInert (octetsOf s) = isInert s.toList := by
  rw [← String.ofList_toList (s := s), octetsOf_ofList, isInert_flatMap_octets, String.toList_ofList]

end Runbook.Shell
