import Mathlib.Data.List.Basic
import Runbook.Json.Reader
import Runbook.Proofs.Entries

/-!
# How JSON documents are written

The grammar of documents, apart from any reader of them: which text is written for which value.

* `Spelled`: how the code points of a string are written between its quotes; `Spelled.exists_split`,
  `Spelled.eq_codesOf`: a part of a string has a stretch of its own, which is the part itself where
  nothing in it is escaped;
* `Numeral`: how numbers are written;
* `Written`, `IsDocument`: how values are written, and documents, with the words that stand for values;
* `Value.Holds`: the scalars in a value, at any depth; **`Written.literal`**: each string in a value stands
  between quotes in what is written for the value;
* **`Written.restrict`**: words that do not occur are not needed; `IsDocument.standard`: which documents are
  standard ones.
-/

namespace Runbook

/-! ## 1. Scalars in a value -/

/-- **A scalar stands in a value**, at any depth, as a value or as a key. -/
inductive Value.Holds : Value → Scalar → Prop
  | scalar {s : Scalar} : Value.Holds (.scalar s) s
  | item {items : List Value} {v : Value} {s : Scalar} (hv : v ∈ items) (h : v.Holds s) :
      Value.Holds (.list items) s
  | member {members : List Scalar} {s : Scalar} (hs : s ∈ members) : Value.Holds (.set members) s
  | key {fields : List (Scalar × Value)} {s : Scalar} {v : Value} (h : (s, v) ∈ fields) :
      Value.Holds (.map fields) s
  | field {fields : List (Scalar × Value)} {k s : Scalar} {v : Value} (hv : (k, v) ∈ fields)
      (h : v.Holds s) : Value.Holds (.map fields) s

/-- The code points of a text. -/
def Scalar.codes? : Scalar → Option (List Nat)
  | .text s => some (Text.codesOf s.toList)
  | .brokenText codes => some codes
  | _ => none

/-- The scalar of code points has these code points. -/
theorem Scalar.codes?_ofCodes {codes : List Nat} (h : ∀ n ∈ codes, n < 0x110000) :
    (Scalar.ofCodes codes).codes? = some codes := by
  unfold Scalar.ofCodes
  split
  · rfl
  · rename_i hhalf
    have hvalid : ∀ n ∈ codes, (Char.toNat ∘ Char.ofNat) n = id n := by
      intro n hn
      have hnot : Text.isHalf n = false := by
        rw [← Bool.not_eq_true]
        exact fun hany => hhalf (List.any_eq_true.mpr ⟨n, hn, hany⟩)
      have hbound := h n hn
      have hlegal : n.isValidChar := by
        simp only [Text.isHalf, Text.isHighHalf, Text.isLowHalf, Bool.or_eq_false_iff,
          Bool.and_eq_false_iff, decide_eq_false_iff_not, Nat.not_le, Nat.not_lt] at hnot
        show n < 0xD800 ∨ 0xDFFF < n ∧ n < 0x110000
        omega
      rw [Function.comp_apply, Char.ofNat, dif_pos hlegal]
      rfl
    show some (Text.codesOf (String.ofList (codes.map Char.ofNat)).toList) = some codes
    rw [String.toList_ofList, Text.codesOf, List.map_map, List.map_congr_left hvalid, List.map_id]

namespace Json

/-! ## 2. Strings -/

/-- **How the code points of a string are written** between its quotes: as characters, as escapes of one
letter, and as escapes of four hexadecimal digits. Two of these that are the halves of a pair are one
character. -/
inductive Spelled : List Char → List Nat → Prop
  | nil : Spelled [] []
  | plain {c : Char} {rest : List Char} {codes : List Nat} (hquote : c ≠ '"') (hescape : c ≠ '\\')
      (hcontrol : 32 ≤ c.toNat) (later : Spelled rest codes) :
      Spelled (c :: rest) (c.toNat :: codes)
  | letter {c d : Char} {rest : List Char} {codes : List Nat} (hd : escaped? c = some d)
      (later : Spelled rest codes) : Spelled ('\\' :: c :: rest) (d.toNat :: codes)
  | unit {a b c d : Char} {n : Nat} {rest : List Char} {codes : List Nat}
      (hn : hexValue4? a b c d = some n)
      (halone : ∀ e f g h low tail, rest = '\\' :: 'u' :: e :: f :: g :: h :: tail →
        hexValue4? e f g h = some low → Text.isHighHalf n = true → Text.isLowHalf low = false)
      (later : Spelled rest codes) :
      Spelled ('\\' :: 'u' :: a :: b :: c :: d :: rest) (n :: codes)
  | pair {a b c d e f g h : Char} {high low : Nat} {rest : List Char} {codes : List Nat}
      (hhigh : hexValue4? a b c d = some high) (hlow : hexValue4? e f g h = some low)
      (hfirst : Text.isHighHalf high = true) (hsecond : Text.isLowHalf low = true)
      (later : Spelled rest codes) :
      Spelled ('\\' :: 'u' :: a :: b :: c :: d :: '\\' :: 'u' :: e :: f :: g :: h :: rest)
        ((Text.pairChar high low).toNat :: codes)

/-- A string as it is written. -/
def quoted (inner : List Char) : List Char := '"' :: (inner ++ ['"'])

theorem infix_quoted (inner : List Char) : inner <:+: quoted inner := ⟨['"'], ['"'], rfl⟩

theorem hexValue?_lt {c : Char} {n : Nat} (h : Text.hexValue? c = some n) : n < 16 := by
  unfold Text.hexValue? at h
  split at h
  · rename_i hdigit
    obtain rfl := Option.some.inj h
    have hle : c.toNat ≤ 57 := (Bool.and_eq_true_iff.mp hdigit).2 |> of_decide_eq_true
    have hzero : '0'.toNat = 48 := rfl
    omega
  · split at h
    · rename_i hletter
      obtain rfl := Option.some.inj h
      have hle : c.toNat ≤ 102 := hletter.2
      have ha : 'a'.toNat = 97 := rfl
      omega
    · split at h
      · rename_i hletter
        obtain rfl := Option.some.inj h
        have hle : c.toNat ≤ 70 := hletter.2
        have ha : 'A'.toNat = 65 := rfl
        omega
      · cases h

theorem hexValue4?_lt {a b c d : Char} {n : Nat} (h : hexValue4? a b c d = some n) :
    n < 0x10000 := by
  unfold hexValue4? at h
  obtain ⟨x, hx, h⟩ := Option.bind_eq_some_iff.mp h
  obtain ⟨y, hy, h⟩ := Option.bind_eq_some_iff.mp h
  obtain ⟨z, hz, h⟩ := Option.bind_eq_some_iff.mp h
  obtain ⟨w, hw, h⟩ := Option.bind_eq_some_iff.mp h
  have hx := hexValue?_lt hx
  have hy := hexValue?_lt hy
  have hz := hexValue?_lt hz
  have hw := hexValue?_lt hw
  obtain rfl : (x * 16 + y) * 256 + (z * 16 + w) = n := Option.some.inj h
  omega

theorem toNat_lt (c : Char) : c.toNat < 0x110000 := by
  have hvalid : c.toNat < 0xD800 ∨ 0xDFFF < c.toNat ∧ c.toNat < 0x110000 := c.valid
  omega

namespace Spelled

variable {s : List Char} {codes front back : List Nat}

/-- What is spelled are code points. -/
theorem lt (h : Spelled s codes) : ∀ n ∈ codes, n < 0x110000 := by
  induction h with
  | nil => exact fun n hn => absurd hn List.not_mem_nil
  | plain _ _ _ _ ih | letter _ _ ih | pair _ _ _ _ _ ih =>
    exact List.forall_mem_cons.mpr ⟨toNat_lt _, ih⟩
  | unit hn _ _ ih =>
    exact List.forall_mem_cons.mpr ⟨Nat.lt_trans (hexValue4?_lt hn) (by decide), ih⟩

/-- **Each part of a string has a stretch of its own** in what is written. -/
theorem exists_split (h : Spelled s (front ++ back)) :
    ∃ s₁ s₂, s = s₁ ++ s₂ ∧ Spelled s₁ front ∧ Spelled s₂ back := by
  generalize hcodes : front ++ back = codes at h
  induction h generalizing front with
  | nil =>
    obtain ⟨rfl, rfl⟩ := List.append_eq_nil_iff.mp hcodes
    exact ⟨[], [], rfl, .nil, .nil⟩
  | @plain c rest codes hquote hescape hcontrol later ih =>
    rcases List.append_eq_cons_iff.mp hcodes with ⟨rfl, rfl⟩ | ⟨front', rfl, rfl⟩
    · exact ⟨[], _, rfl, .nil, .plain hquote hescape hcontrol later⟩
    · obtain ⟨s₁, s₂, rfl, h₁, h₂⟩ := ih rfl
      exact ⟨c :: s₁, s₂, rfl, .plain hquote hescape hcontrol h₁, h₂⟩
  | @letter c d rest codes hd later ih =>
    rcases List.append_eq_cons_iff.mp hcodes with ⟨rfl, rfl⟩ | ⟨front', rfl, rfl⟩
    · exact ⟨[], _, rfl, .nil, .letter hd later⟩
    · obtain ⟨s₁, s₂, rfl, h₁, h₂⟩ := ih rfl
      exact ⟨'\\' :: c :: s₁, s₂, rfl, .letter hd h₁, h₂⟩
  | @unit a b c d n rest codes hn halone later ih =>
    rcases List.append_eq_cons_iff.mp hcodes with ⟨rfl, rfl⟩ | ⟨front', rfl, rfl⟩
    · exact ⟨[], _, rfl, .nil, .unit hn halone later⟩
    · obtain ⟨s₁, s₂, rfl, h₁, h₂⟩ := ih rfl
      refine ⟨'\\' :: 'u' :: a :: b :: c :: d :: s₁, s₂, rfl, .unit hn ?_ h₁, h₂⟩
      intro e f g h low tail htail
      exact halone e f g h low (tail ++ s₂) (by rw [htail]; rfl)
  | @pair a b c d e f g h high low rest codes hhigh hlow hfirst hsecond later ih =>
    rcases List.append_eq_cons_iff.mp hcodes with ⟨rfl, rfl⟩ | ⟨front', rfl, rfl⟩
    · exact ⟨[], _, rfl, .nil, .pair hhigh hlow hfirst hsecond later⟩
    · obtain ⟨s₁, s₂, rfl, h₁, h₂⟩ := ih rfl
      exact ⟨'\\' :: 'u' :: a :: b :: c :: d :: '\\' :: 'u' :: e :: f :: g :: h :: s₁, s₂, rfl,
        .pair hhigh hlow hfirst hsecond h₁, h₂⟩

/-- **What is spelled without escapes is spelled by itself.** -/
theorem eq_codesOf (h : Spelled s codes) (hs : '\\' ∉ s) : codes = Text.codesOf s := by
  induction h with
  | nil => rfl
  | plain _ _ _ _ ih => rw [ih fun hin => hs (List.mem_cons_of_mem _ hin)]; rfl
  | letter | unit | pair => exact absurd List.mem_cons_self hs

/-- **A text in a string stands in what is written, or is spelled there with escapes.** -/
theorem infix_cases {f : List Char} (h : Spelled s codes) (hf : Text.codesOf f <:+: codes) :
    f <:+: s ∨ ∃ m, m <:+: s ∧ '\\' ∈ m ∧ Spelled m (Text.codesOf f) := by
  obtain ⟨front, back, rfl⟩ := hf
  obtain ⟨s', s₃, rfl, h', -⟩ := h.exists_split
  obtain ⟨s₁, m, rfl, -, hm⟩ := h'.exists_split
  by_cases hescape : '\\' ∈ m
  · exact Or.inr ⟨m, ⟨s₁, s₃, rfl⟩, hescape, hm⟩
  · have hinjective : Function.Injective Char.toNat := fun _ _ heq => Char.toNat_inj.mp heq
    obtain rfl : f = m := hinjective.list_map (hm.eq_codesOf hescape)
    exact Or.inl ⟨s₁, s₃, rfl⟩

end Spelled

/-! ## 3. Numbers -/

/-- Decimal digits, at least one. -/
def AreDigits (ds : List Char) : Prop := ds ≠ [] ∧ ∀ c ∈ ds, c.isDigit = true

/-- The digits in front of a point or an exponent: nothing follows a zero there. -/
def AreWhole (ds : List Char) : Prop := AreDigits ds ∧ (ds.head? = some '0' → ds = ['0'])

/-- A minus, or nothing. -/
def sign (negative : Bool) : List Char := if negative then ['-'] else []

/-- How exponents are written. -/
inductive Exponent : List Char → Int → Prop
  | bare {e : Char} {ds : List Char} (he : e = 'e' ∨ e = 'E') (hds : AreDigits ds) :
      Exponent (e :: ds) (digitsValue ds)
  | plus {e : Char} {ds : List Char} (he : e = 'e' ∨ e = 'E') (hds : AreDigits ds) :
      Exponent (e :: '+' :: ds) (digitsValue ds)
  | minus {e : Char} {ds : List Char} (he : e = 'e' ∨ e = 'E') (hds : AreDigits ds) :
      Exponent (e :: '-' :: ds) (-(digitsValue ds : Int))

/-- How the digits behind a point are written, if there are any. -/
inductive Fraction : List Char → List Char → Prop
  | none : Fraction [] []
  | some {ds : List Char} (hds : AreDigits ds) : Fraction ('.' :: ds) ds

/-- **How numbers are written.** -/
inductive Numeral : List Char → Scalar → Prop
  | whole (negative : Bool) {ds : List Char} (hds : AreWhole ds) :
      Numeral (sign negative ++ ds)
        (.int (if negative then -(digitsValue ds : Int) else digitsValue ds))
  | fraction (negative : Bool) {ds s fs : List Char} (hds : AreWhole ds) (hfs : Fraction s fs)
      (hne : fs ≠ []) : Numeral (sign negative ++ (ds ++ s))
        (.real (.ofDecimal negative (digitsValue (ds ++ fs)) (-fs.length)))
  | exponent (negative : Bool) {ds s fs t : List Char} {e : Int} (hds : AreWhole ds)
      (hfs : Fraction s fs) (he : Exponent t e) : Numeral (sign negative ++ (ds ++ (s ++ t)))
        (.real (.ofDecimal negative (digitsValue (ds ++ fs)) (e - fs.length)))

theorem Numeral.codes? {s : List Char} {v : Scalar} (h : Numeral s v) : v.codes? = none := by
  cases h <;> rfl

/-! ## 4. Values -/

/-- What can be written: a value, the items of a list that is not empty, and the entries of a map that is
not empty. -/
inductive Content where
  | value (v : Value)
  | items (vs : List Value)
  | fields (entries : List (List Nat × Value))

/-- The scalars that stand in what is written. -/
def Content.Holds : Content → Scalar → Prop
  | .value v, s => v.Holds s
  | .items vs, s => ∃ v ∈ vs, v.Holds s
  | .fields entries, s => ∃ entry ∈ entries, s = .ofCodes entry.1 ∨ entry.2.Holds s

/-- White space. -/
def Blank (b : List Char) : Prop := ∀ c ∈ b, isSpace c = true

/-- The fields of a map with further entries: the last one with a key counts. -/
def putAll (fields : List (Scalar × Value)) (entries : List (List Nat × Value)) :
    List (Scalar × Value) :=
  entries.foldl (fun fields entry => Value.putField (.ofCodes entry.1) entry.2 fields) fields

/-- **How values are written**, if certain words stand for values. Items are written up to the closing
bracket, and entries up to the closing brace. -/
inductive Written (ws : List (List Char × Scalar)) : List Char → Content → Prop
  | string {inner : List Char} {codes : List Nat} (h : Spelled inner codes) :
      Written ws (quoted inner) (.value (.scalar (.ofCodes codes)))
  | word {w : List Char} {v : Scalar} (h : (w, v) ∈ ws) : Written ws w (.value (.scalar v))
  | number {s : List Char} {v : Scalar} (h : Numeral s v) : Written ws s (.value (.scalar v))
  | emptyList {b : List Char} (hb : Blank b) :
      Written ws ('[' :: (b ++ [']'])) (.value (.list []))
  | list {b s : List Char} {vs : List Value} (hb : Blank b) (h : Written ws s (.items vs)) :
      Written ws ('[' :: (b ++ s)) (.value (.list vs))
  | emptyMap {b : List Char} (hb : Blank b) :
      Written ws ('\x7b' :: (b ++ ['\x7d'])) (.value (.map []))
  | map {b s : List Char} {entries : List (List Nat × Value)} (hb : Blank b)
      (h : Written ws s (.fields entries)) :
      Written ws ('\x7b' :: (b ++ s)) (.value (.map (putAll [] entries)))
  | lastItem {s b : List Char} {v : Value} (h : Written ws s (.value v)) (hb : Blank b) :
      Written ws (s ++ (b ++ [']'])) (.items [v])
  | item {s b b' t : List Char} {v : Value} {vs : List Value} (h : Written ws s (.value v))
      (hb : Blank b) (hb' : Blank b') (more : Written ws t (.items vs)) :
      Written ws (s ++ (b ++ ',' :: (b' ++ t))) (.items (v :: vs))
  | lastField {inner b b' b'' s : List Char} {codes : List Nat} {v : Value}
      (hkey : Spelled inner codes) (hb : Blank b) (hb' : Blank b') (h : Written ws s (.value v))
      (hb'' : Blank b'') :
      Written ws (quoted inner ++ (b ++ ':' :: (b' ++ (s ++ (b'' ++ ['\x7d'])))))
        (.fields [(codes, v)])
  | field {inner b b' b'' b₃ s t : List Char} {codes : List Nat} {v : Value}
      {entries : List (List Nat × Value)} (hkey : Spelled inner codes) (hb : Blank b)
      (hb' : Blank b') (h : Written ws s (.value v)) (hb'' : Blank b'') (hb₃ : Blank b₃)
      (more : Written ws t (.fields entries)) :
      Written ws (quoted inner ++ (b ++ ':' :: (b' ++ (s ++ (b'' ++ ',' :: (b₃ ++ t))))))
        (.fields ((codes, v) :: entries))

/-- **A document**: a value with nothing but white space around it. -/
def IsDocument (ws : List (List Char × Scalar)) (text : List Char) (v : Value) : Prop :=
  ∃ front s back, text = front ++ (s ++ back) ∧ Blank front ∧ Blank back ∧ Written ws s (.value v)

/-- The words of standard documents. -/
def standardWords : List (List Char × Scalar) :=
  [("null".toList, .null), ("true".toList, .bool true), ("false".toList, .bool false)]

/-- What stands in a map stands in its entries. -/
theorem holds_of_putAll {entries : List (List Nat × Value)} {s : Scalar} :
    ∀ {fields : List (Scalar × Value)}, (Value.map (putAll fields entries)).Holds s →
      (Value.map fields).Holds s ∨ (Content.fields entries).Holds s := by
  induction entries with
  | nil => exact fun h => Or.inl h
  | cons entry entries ih =>
    intro fields h
    have hbehind : (Value.map (putAll (Value.putField (.ofCodes entry.1) entry.2 fields)
      entries)).Holds s := h
    rcases ih hbehind with h | h
    · cases h with
      | key hin =>
        rcases (Value.mem_putField hin).1 with rfl | ⟨w, hw⟩
        · exact Or.inr ⟨entry, List.mem_cons_self, Or.inl rfl⟩
        · exact Or.inl (.key hw)
      | field hin hv =>
        rcases (Value.mem_putField hin).2 with rfl | ⟨k, hk⟩
        · exact Or.inr ⟨entry, List.mem_cons_self, Or.inr hv⟩
        · exact Or.inl (.field hk hv)
    · obtain ⟨e, he, hs⟩ := h
      exact Or.inr ⟨e, List.mem_cons_of_mem _ he, hs⟩

/-- A text as it is written stands in what is written. -/
def Literal (text : List Char) (s : Scalar) : Prop :=
  ∃ inner codes, quoted inner <:+: text ∧ Spelled inner codes ∧ s = .ofCodes codes

theorem Literal.widen {s t : List Char} {v : Scalar} (h : Literal s v) (hs : s <:+: t) :
    Literal t v := by
  obtain ⟨inner, codes, hin, hspelled, hv⟩ := h
  exact ⟨inner, codes, hin.trans hs, hspelled, hv⟩

section Parts

variable {inner b b' b'' b₃ s t tail : List Char}

/-- The further items are the end of what is written. -/
theorem suffix_item : t <:+ s ++ (b ++ ',' :: (b' ++ t)) :=
  (((List.suffix_append b' t).trans (List.suffix_cons ',' _)).trans (List.suffix_append b _)).trans
    (List.suffix_append s _)

/-- What stands behind a key and its colon is the end of what is written. -/
theorem suffix_field : t <:+ quoted inner ++ (b ++ ':' :: (b' ++ t)) :=
  (((List.suffix_append b' t).trans (List.suffix_cons ':' _)).trans (List.suffix_append b _)).trans
    (List.suffix_append _ _)

theorem infix_field : s <:+: quoted inner ++ (b ++ ':' :: (b' ++ (s ++ tail))) :=
  (List.prefix_append s tail).isInfix.trans suffix_field.isInfix

/-- The further entries are the end of what is written. -/
theorem suffix_fields :
    t <:+ quoted inner ++ (b ++ ':' :: (b' ++ (s ++ (b'' ++ ',' :: (b₃ ++ t))))) :=
  suffix_item.trans suffix_field

theorem infix_bracket {c : Char} : s <:+: c :: (b ++ s) :=
  ((List.suffix_append b s).trans (List.suffix_cons c _)).isInfix

end Parts

namespace Written

variable {ws ws' : List (List Char × Scalar)} {text : List Char} {content : Content} {s : Scalar}

/-- **Each text in what is written stands there between quotes**, if no word is a text. -/
theorem literal (hws : ∀ entry ∈ ws, entry.2.codes? = none) (h : Written ws text content)
    (hs : content.Holds s) (ht : s.codes? ≠ none) : Literal text s := by
  induction h generalizing s with
  | string h =>
    cases hs
    exact ⟨_, _, List.infix_rfl, h, rfl⟩
  | word h =>
    cases hs
    exact absurd (hws _ h) ht
  | number h =>
    cases hs
    exact absurd h.codes? ht
  | emptyList hb => cases hs with | item hv => exact absurd hv List.not_mem_nil
  | emptyMap hb =>
    cases hs with
    | key hv => exact absurd hv List.not_mem_nil
    | field hv => exact absurd hv List.not_mem_nil
  | list hb h ih =>
    cases hs with
    | item hv hin => exact (ih ⟨_, hv, hin⟩ ht).widen infix_bracket
  | map hb h ih =>
    rcases holds_of_putAll hs with hnone | hs
    · cases hnone with
      | key hv => exact absurd hv List.not_mem_nil
      | field hv => exact absurd hv List.not_mem_nil
    · exact (ih hs ht).widen infix_bracket
  | lastItem h hb ih =>
    obtain ⟨v, hv, hin⟩ := hs
    obtain rfl := List.mem_singleton.mp hv
    exact (ih hin ht).widen (List.prefix_append _ _).isInfix
  | item h hb hb' more ih ihmore =>
    obtain ⟨v, hv, hin⟩ := hs
    rcases List.mem_cons.mp hv with rfl | hv
    · exact (ih hin ht).widen (List.prefix_append _ _).isInfix
    · exact (ihmore ⟨v, hv, hin⟩ ht).widen suffix_item.isInfix
  | lastField hkey hb hb' h hb'' ih =>
    obtain ⟨entry, hentry, hin⟩ := hs
    obtain rfl := List.mem_singleton.mp hentry
    rcases hin with rfl | hin
    · exact ⟨_, _, (List.prefix_append _ _).isInfix, hkey, rfl⟩
    · exact (ih hin ht).widen infix_field
  | field hkey hb hb' h hb'' hb₃ more ih ihmore =>
    obtain ⟨entry, hentry, hin⟩ := hs
    rcases List.mem_cons.mp hentry with rfl | hentry
    · rcases hin with rfl | hin
      · exact ⟨_, _, (List.prefix_append _ _).isInfix, hkey, rfl⟩
      · exact (ih hin ht).widen infix_field
    · exact (ihmore ⟨entry, hentry, hin⟩ ht).widen suffix_fields.isInfix

/-- **Words that do not occur in what is written are not needed for it.** -/
theorem restrict (h : Written ws text content) (hws : ∀ entry ∈ ws, entry.1 <:+: text → entry ∈ ws') :
    Written ws' text content := by
  have part : ∀ {s t : List Char}, s <:+: t → (∀ entry ∈ ws, entry.1 <:+: t → entry ∈ ws') →
      ∀ entry ∈ ws, entry.1 <:+: s → entry ∈ ws' :=
    fun hs hws entry hentry hin => hws entry hentry (hin.trans hs)
  induction h with
  | string h => exact .string h
  | word h => exact .word (hws _ h List.infix_rfl)
  | number h => exact .number h
  | emptyList hb => exact .emptyList hb
  | emptyMap hb => exact .emptyMap hb
  | list hb h ih => exact .list hb (ih (part infix_bracket hws))
  | map hb h ih => exact .map hb (ih (part infix_bracket hws))
  | lastItem h hb ih => exact .lastItem (ih (part (List.prefix_append _ _).isInfix hws)) hb
  | item h hb hb' more ih ihmore =>
    exact .item (ih (part (List.prefix_append _ _).isInfix hws)) hb hb'
      (ihmore (part suffix_item.isInfix hws))
  | lastField hkey hb hb' h hb'' ih => exact .lastField hkey hb hb' (ih (part infix_field hws)) hb''
  | field hkey hb hb' h hb'' hb₃ more ih ihmore =>
    exact .field hkey hb hb' (ih (part infix_field hws)) hb'' hb₃
      (ihmore (part suffix_fields.isInfix hws))

end Written

/-- A document in which neither of the words for what is no number occurs is a standard one. -/
theorem IsDocument.standard {text : List Char} {v : Value} (h : IsDocument words text v)
    (hnan : ¬ "NaN".toList <:+: text) (hinfinity : ¬ "Infinity".toList <:+: text) :
    IsDocument standardWords text v := by
  obtain ⟨front, s, back, htext, hfront, hback, hs⟩ := h
  have hin : s <:+: text := ⟨front, back, by rw [htext, List.append_assoc]⟩
  refine ⟨front, s, back, htext, hfront, hback, hs.restrict fun entry hentry hword => ?_⟩
  have hfurther : ∀ entry ∈ words.drop 3, "NaN".toList <:+: entry.1 ∨
      "Infinity".toList <:+: entry.1 := by decide +kernel
  rcases List.mem_append.mp (show entry ∈ standardWords ++ words.drop 3 from hentry) with hst | hmore
  · exact hst
  · rcases hfurther entry hmore with hn | hi
    · exact absurd ((hn.trans hword).trans hin) hnan
    · exact absurd ((hi.trans hword).trans hin) hinfinity

end Json

end Runbook
