import Mathlib.Data.List.TakeWhile
import Runbook.Condition.Expression
import Runbook.Proofs.Text.Pieces

/-!
# Replacing the variables of a condition

The variables of a condition are replaced in two turns: first those in braces, and then, in what comes of
that, those without. Each turn replaces its variables at once and never looks at a value again; but the
second turn looks at the values that the first one put in:

* `Form`, `Starts`: a variable at the start of a text; `Form.read`: the readers find them;
* **`Replaced`**: a text with its bound variables replaced at once;
* `replaced_substituteWith`: what one turn does;
* `Apart`: the values put in by the first turn neither hold nor complete a variable of the second;
* **`substituteVariables_replaces`**: where values stay apart, both turns replace all variables at once,
  and the form of a variable makes no difference.
-/

namespace Runbook.Expression

/-! ## 1. Variables -/

/-- The ways to write a variable: its name in braces, or the name alone. -/
inductive Form where
  | braced
  | plain
deriving DecidableEq, Repr

/-- **A variable starts a text**: the form, the name, what follows, and the text. A name without braces
goes on as long as it can. -/
inductive Starts : Form → List Char → List Char → List Char → Prop
  | braced {name after : List Char} (hne : name ≠ [])
      (hname : ∀ d ∈ name, Text.isIdentChar d = true) :
      Starts .braced name after ('$' :: '\x7b' :: (name ++ '\x7d' :: after))
  | plain {name after : List Char} (hne : name ≠ [])
      (hname : ∀ d ∈ name, Text.isIdentChar d = true)
      (hafter : ∀ d ∈ after.head?, Text.isIdentChar d = false) :
      Starts .plain name after ('$' :: (name ++ after))

/-- The reader of a form. -/
def Form.read : Form → Char → List Char → Option (String × Nat)
  | .braced => bracedAt
  | .plain => plainAt

theorem bracedAt_eq_some {c : Char} {rest : List Char} {name : String} {n : Nat}
    (h : bracedAt c rest = some (name, n)) : ∃ after, c = '$' ∧
      rest = '\x7b' :: (name.toList ++ '\x7d' :: after) ∧ name.toList ≠ [] ∧
      (∀ d ∈ name.toList, Text.isIdentChar d = true) ∧ n = name.toList.length + 2 := by
  unfold bracedAt at h
  split at h
  · rename_i body
    dsimp only at h
    split at h
    · cases h
    · rename_i first more after hname hafter
      cases h
      rw [String.toList_ofList]
      refine ⟨after, rfl, ?_, ?_, fun d hd => List.mem_takeWhile_imp hd, rfl⟩
      · rw [← hafter, List.takeWhile_append_dropWhile]
      · rw [hname]
        exact List.cons_ne_nil first more
    · cases h
  · cases h

theorem plainAt_eq_some {c : Char} {rest : List Char} {name : String} {n : Nat}
    (h : plainAt c rest = some (name, n)) : ∃ after, c = '$' ∧ rest = name.toList ++ after ∧
      name.toList ≠ [] ∧ (∀ d ∈ name.toList, Text.isIdentChar d = true) ∧
      (∀ d ∈ after.head?, Text.isIdentChar d = false) ∧ n = name.toList.length := by
  unfold plainAt at h
  split at h
  · rename_i hc
    split at h
    · cases h
    · rename_i hname
      cases h
      rw [String.toList_ofList]
      exact ⟨rest.dropWhile Text.isIdentChar, hc, List.takeWhile_append_dropWhile.symm, hname,
        fun d hd => List.mem_takeWhile_imp hd, Text.dropWhile_stop Text.isIdentChar rest, rfl⟩
  · cases h

/-- What a reader finds starts the text. -/
theorem starts_of_read {f : Form} {c : Char} {rest : List Char} {name : String} {n : Nat}
    (h : f.read c rest = some (name, n)) :
    Starts f name.toList (rest.drop n) (c :: rest) := by
  cases f with
  | braced =>
    obtain ⟨after, rfl, rfl, hne, hname, rfl⟩ := bracedAt_eq_some h
    have hdrop : ('\x7b' :: (name.toList ++ '\x7d' :: after)).drop (name.toList.length + 2) =
        after := by
      rw [List.drop_succ_cons, List.drop_length_add_append]
      rfl
    rw [hdrop]
    exact .braced hne hname
  | plain =>
    obtain ⟨after, rfl, rfl, hne, hname, hafter, rfl⟩ := plainAt_eq_some h
    rw [List.drop_left]
    exact .plain hne hname hafter

/-- What starts a text is found by its reader. -/
theorem read_of_starts {f : Form} {c : Char} {name after rest : List Char}
    (h : Starts f name after (c :: rest)) :
    ∃ n, f.read c rest = some (String.ofList name, n) ∧ rest.drop n = after := by
  generalize htext : c :: rest = text at h
  cases h with
  | braced hne hname =>
    cases htext
    have hstop : ∀ d ∈ ('\x7d' :: after).head?, Text.isIdentChar d = false := by
      simp only [List.head?_cons, Option.mem_some_iff, forall_eq']
      decide
    obtain ⟨htake, hdrop⟩ := Text.takeWhile_stop hname hstop
    refine ⟨name.length + 2, ?_, ?_⟩
    · obtain ⟨first, more, rfl⟩ := List.exists_cons_of_ne_nil hne
      simp only [Form.read, bracedAt, htake, hdrop]
    · rw [List.drop_succ_cons, List.drop_length_add_append]
      rfl
  | plain hne hname hafter =>
    cases htext
    obtain ⟨htake, -⟩ := Text.takeWhile_stop hname hafter
    refine ⟨name.length, ?_, List.drop_left⟩
    obtain ⟨first, more, rfl⟩ := List.exists_cons_of_ne_nil hne
    simp only [Form.read, plainAt, htake, if_true]

namespace Starts

variable {f g : Form} {c : Char} {name other after later rest text : List Char}

theorem dollar (h : Starts f name after (c :: rest)) : c = '$' := by
  generalize htext : c :: rest = text at h
  cases h <;> cases htext <;> rfl

theorem length_lt (h : Starts f name after text) : after.length < text.length := by
  cases h <;> simp only [List.length_cons, List.length_append] <;> omega

/-- **At most one variable starts a text.** -/
theorem unique (h : Starts f name after text) (h' : Starts g other later text) :
    name = other ∧ after = later := by
  have hne : ∀ {a b : List Char}, Starts .braced a b text → ∀ {x y : List Char},
      ¬ Starts .plain x y text := by
    intro a b hb x y hp
    cases hb with
    | braced =>
      generalize htext : '$' :: '\x7b' :: (a ++ '\x7d' :: b) = t at hp
      cases hp with
      | plain hx hname =>
        obtain ⟨first, more, rfl⟩ := List.exists_cons_of_ne_nil hx
        obtain rfl := (List.cons.inj (List.cons.inj htext).2).1
        exact absurd (hname '\x7b' List.mem_cons_self) (by decide)
  have same : ∀ {k : Form}, Starts k name after text → Starts k other later text →
      name = other ∧ after = later := by
    intro k hk hk'
    cases text with
    | nil => cases hk
    | cons c rest =>
      obtain ⟨n, hn, rfl⟩ := read_of_starts hk
      obtain ⟨m, hm, rfl⟩ := read_of_starts hk'
      rw [hn] at hm
      obtain ⟨hname, rfl⟩ := Prod.mk.inj (Option.some.inj hm)
      exact ⟨String.ofList_injective hname, rfl⟩
  cases f <;> cases g
  · exact same h h'
  · exact absurd h' (hne h)
  · exact absurd h (hne h')
  · exact same h h'

/-- What is written of a variable holds no dollar sign but the one in front. -/
theorem exists_written (h : Starts f name after text) :
    ∃ written, text = '$' :: (written ++ after) ∧ '$' ∉ written := by
  have hfree : (∀ d ∈ name, Text.isIdentChar d = true) → '$' ∉ name :=
    fun hname hd => absurd (hname _ hd) (by decide)
  cases h with
  | braced hne hname =>
    refine ⟨'\x7b' :: (name ++ ['\x7d']), by simp, ?_⟩
    simp only [List.mem_cons, List.mem_append, List.not_mem_nil, or_false, not_or]
    exact ⟨by decide, hfree hname, by decide⟩
  | plain hne hname => exact ⟨name, rfl, hfree hname⟩

/-- A variable ends in front of a further dollar sign, whatever follows that. -/
theorem before_dollar {front tail : List Char} (h : Starts f name after (front ++ '$' :: tail))
    (hfront : front ≠ []) :
    ∃ between, after = between ++ '$' :: tail ∧ between.length < front.length ∧
      ∀ tail', Starts f name (between ++ '$' :: tail') (front ++ '$' :: tail') := by
  obtain ⟨written, htext, hw⟩ := h.exists_written
  obtain ⟨between, rfl, rfl⟩ : ∃ between, front = '$' :: (written ++ between) ∧
      after = between ++ '$' :: tail := by
    rw [← List.cons_append] at htext
    rcases List.append_eq_append_iff.mp htext with ⟨more, hwritten, htail⟩ | ⟨between, hf, ha⟩
    · cases more with
      | nil => exact ⟨[], by simpa using hwritten.symm, by simpa using htail.symm⟩
      | cons d more =>
        obtain rfl : '$' = d := (List.cons.inj htail).1
        obtain ⟨first, front, rfl⟩ := List.exists_cons_of_ne_nil hfront
        exact absurd (by rw [(List.cons.inj hwritten).2]; simp) hw
    · exact ⟨between, hf, ha⟩
  refine ⟨between, rfl, ?_, fun tail' => ?_⟩
  · simp only [List.length_cons, List.length_append]
    omega
  generalize htext' : '$' :: (written ++ between) ++ '$' :: tail = text at h
  cases h with
  | braced hne hname =>
    have hwritten : written ++ (between ++ '$' :: tail) =
        '\x7b' :: (name ++ ['\x7d']) ++ (between ++ '$' :: tail) := by
      simpa using (List.cons.inj htext').2
    obtain rfl := List.append_cancel_right hwritten
    have hs : Starts .braced name (between ++ '$' :: tail') _ := .braced hne hname
    simpa using hs
  | plain hne hname hafter =>
    have hwritten : written ++ (between ++ '$' :: tail) = name ++ (between ++ '$' :: tail) := by
      simpa using (List.cons.inj htext').2
    obtain rfl := List.append_cancel_right hwritten
    have hstop : ∀ d ∈ (between ++ '$' :: tail').head?, Text.isIdentChar d = false := by
      cases between with
      | nil => exact hafter
      | cons d between => exact hafter
    simpa using Starts.plain hne hname hstop

end Starts

/-- A text falls into the characters in front that can stand in a name, and what follows them. -/
theorem exists_run (text : List Char) : ∃ run after, text = run ++ after ∧
    (∀ d ∈ run, Text.isIdentChar d = true) ∧ ∀ d ∈ after.head?, Text.isIdentChar d = false :=
  ⟨text.takeWhile Text.isIdentChar, text.dropWhile Text.isIdentChar,
    List.takeWhile_append_dropWhile.symm, fun _ hd => List.mem_takeWhile_imp hd,
    Text.dropWhile_stop Text.isIdentChar text⟩

/-- The name of a variable without braces is all that can stand in one. -/
theorem starts_plain_iff {run after : List Char} (hrun : ∀ d ∈ run, Text.isIdentChar d = true)
    (hafter : ∀ d ∈ after.head?, Text.isIdentChar d = false) (name later : List Char) :
    Starts .plain name later ('$' :: (run ++ after)) ↔ run ≠ [] ∧ name = run ∧ later = after := by
  constructor
  · intro h
    have hne : run ≠ [] := by
      rintro rfl
      generalize htext : '$' :: ([] ++ after) = text at h
      cases h with
      | plain hne hname =>
        obtain ⟨first, more, rfl⟩ := List.exists_cons_of_ne_nil hne
        obtain rfl : after = first :: (more ++ later) := (List.cons.inj htext).2
        have hfirst := hname first List.mem_cons_self
        rw [hafter first rfl] at hfirst
        cases hfirst
    exact ⟨hne, h.unique (.plain hne hrun hafter)⟩
  · rintro ⟨hne, rfl, rfl⟩
    exact .plain hne hrun hafter

/-! ## 2. All at once -/

/-- **A text with its bound variables replaced, all at once**: each variable of the given forms whose name
is bound gives way to its value, and everything else stays as it is written. Values are not looked at. -/
inductive Replaced (forms : Form → Prop) (context : Context) : List Char → List Char → Prop
  | nil : Replaced forms context [] []
  | token {f : Form} {name after text out : List Char} {value : String} (hf : forms f)
      (h : Starts f name after text) (hv : context.get? (String.ofList name) = some value)
      (later : Replaced forms context after out) :
      Replaced forms context text (value.toList ++ out)
  | kept {c : Char} {rest out : List Char}
      (h : ∀ f name after, forms f → Starts f name after (c :: rest) →
        context.get? (String.ofList name) = none)
      (later : Replaced forms context rest out) :
      Replaced forms context (c :: rest) (c :: out)

variable {context : Context}

/-- **There is only one such text.** -/
theorem Replaced.unique {forms : Form → Prop} {text out other : List Char}
    (h : Replaced forms context text out) (h' : Replaced forms context text other) :
    out = other := by
  induction h generalizing other with
  | nil =>
    cases h' with
    | nil => rfl
    | token _ hs => cases hs
  | token hf hs hv _ ih =>
    cases h' with
    | nil => cases hs
    | token _ hs' hv' later =>
      obtain ⟨rfl, rfl⟩ := hs.unique hs'
      rw [hv] at hv'
      cases hv'
      rw [ih later]
    | kept hk =>
      rw [hk _ _ _ hf hs] at hv
      cases hv
  | kept hk _ ih =>
    cases h' with
    | token hf hs hv =>
      rw [hk _ _ _ hf hs] at hv
      cases hv
    | kept _ later => rw [ih later]

/-- What stands in front of a dollar sign is replaced without regard to what follows. -/
theorem Replaced.behind {forms : Form → Prop} {tail tail' : List Char}
    (h : ∀ out, Replaced forms context ('$' :: tail) out → Replaced forms context ('$' :: tail') out) :
    ∀ (front out : List Char), Replaced forms context (front ++ '$' :: tail) out →
      Replaced forms context (front ++ '$' :: tail') out
  | [], out, hr => h out hr
  | c :: front, out, hr => by
    generalize htext : c :: front ++ '$' :: tail = text at hr
    cases hr with
    | nil => cases htext
    | token hf hs hv later =>
      subst htext
      obtain ⟨between, rfl, hlt, hs'⟩ := hs.before_dollar (List.cons_ne_nil c front)
      have hle : between.length ≤ front.length := Nat.le_of_lt_succ hlt
      exact .token hf (hs' tail') hv (Replaced.behind h between _ later)
    | kept hk later =>
      cases htext
      refine .kept (fun f name after hf hs => ?_) (Replaced.behind h front _ later)
      obtain ⟨between, -, -, hs'⟩ := hs.before_dollar (List.cons_ne_nil c front)
      exact hk f name _ hf (hs' tail)
termination_by front => front.length

/-! ## 3. One turn -/

theorem read_of_ne {f : Form} {c : Char} (hc : c ≠ '$') (rest : List Char) : f.read c rest = none := by
  cases h : f.read c rest with
  | none => rfl
  | some token => exact absurd (starts_of_read h).dollar hc

/-- A text without dollar signs in front of another stays as it is. -/
theorem substituteWith_append {f : Form} {front : List Char} (h : '$' ∉ front) (back : List Char) :
    substituteWith f.read context (front ++ back) =
      front ++ substituteWith f.read context back := by
  unfold substituteWith
  rw [Text.pieces_append fun d hd => read_of_ne (fun he => h (he ▸ hd)), List.flatMap_append,
    List.flatMap_map]
  congr 1
  exact List.flatMap_singleton' front

/-- **What a turn does at the start of a text**: it replaces a bound variable, or goes on behind the first
character. -/
theorem substituteWith_cons (f : Form) (context : Context) (c : Char) (rest : List Char) :
    (∃ name after value, Starts f name after (c :: rest) ∧
      context.get? (String.ofList name) = some value ∧ substituteWith f.read context (c :: rest) =
        value.toList ++ substituteWith f.read context after) ∨
    ((∀ name after, Starts f name after (c :: rest) → context.get? (String.ofList name) = none) ∧
      substituteWith f.read context (c :: rest) =
        c :: substituteWith f.read context rest) := by
  cases hr : f.read c rest with
  | none =>
    refine Or.inr ⟨fun name after hs => ?_, ?_⟩
    · obtain ⟨n, hn, -⟩ := read_of_starts hs
      rw [hr] at hn
      cases hn
    · unfold substituteWith
      rw [Text.pieces_of_none hr]
      rfl
  | some token =>
    obtain ⟨name, n⟩ := token
    have hs := starts_of_read hr
    have hpieces : substituteWith f.read context (c :: rest) =
        Template.resolvePiece context (.token name (c :: rest.take n)) ++
          substituteWith f.read context (rest.drop n) := by
      unfold substituteWith
      rw [Text.pieces_of_some hr, List.flatMap_cons]
    cases hv : context.get? name with
    | some value =>
      refine Or.inl ⟨name.toList, rest.drop n, value, hs, by rwa [String.ofList_toList], ?_⟩
      rw [hpieces, Template.resolvePiece, hv]
    | none =>
      refine Or.inr ⟨fun other after ho => ?_, ?_⟩
      · rw [← (hs.unique ho).1, String.ofList_toList]
        exact hv
      · -- no variable starts inside of the one that stays
        have hfree : '$' ∉ rest.take n := by
          obtain ⟨written, hw, hfree⟩ := hs.exists_written
          rw [List.append_cancel_right ((List.take_append_drop n rest).trans (List.cons.inj hw).2)]
          exact hfree
        have hrest : substituteWith f.read context rest =
            rest.take n ++ substituteWith f.read context (rest.drop n) := by
          rw [← substituteWith_append hfree, List.take_append_drop]
        rw [hpieces, hrest, Template.resolvePiece, hv]
        rfl

/-- **One turn replaces the variables of its form at once.** -/
theorem replaced_substituteWith (f : Form) (context : Context) :
    ∀ text, Replaced (· = f) context text (substituteWith f.read context text)
  | [] => .nil
  | c :: rest => by
    rcases substituteWith_cons f context c rest with ⟨name, after, value, hs, hv, he⟩ | ⟨hn, he⟩
    · have hle : after.length ≤ rest.length := Nat.le_of_lt_succ hs.length_lt
      rw [he]
      exact .token rfl hs hv (replaced_substituteWith f context after)
    · rw [he]
      refine .kept ?_ (replaced_substituteWith f context rest)
      rintro g name after rfl hs
      exact hn name after hs
termination_by text => text.length

/-! ## 4. Both turns -/

/-- Whether a text ends with a dollar sign and characters of a name, so that a name could go on behind
it. -/
def Open (text : List Char) : Prop :=
  ∃ front run, text = front ++ '$' :: run ∧ ∀ d ∈ run, Text.isIdentChar d = true

theorem open_iff {text : List Char} :
    Open text ↔ (text.reverse.dropWhile Text.isIdentChar).head? = some '$' := by
  constructor
  · rintro ⟨front, run, rfl, hrun⟩
    rw [List.reverse_append, List.reverse_cons, List.append_assoc, List.dropWhile_append_of_pos
      fun d hd => hrun d (List.mem_reverse.mp hd)]
    rfl
  · intro h
    obtain ⟨front, hfront⟩ := List.head?_eq_some_iff.mp h
    refine ⟨front.reverse, (text.reverse.takeWhile Text.isIdentChar).reverse, ?_, ?_⟩
    · have hcut := List.takeWhile_append_dropWhile (p := Text.isIdentChar) (l := text.reverse)
      rw [hfront] at hcut
      have htext := congrArg List.reverse hcut
      rw [List.reverse_reverse, List.reverse_append, List.reverse_cons, List.append_assoc] at htext
      exact htext.symm
    · exact fun d hd => List.mem_takeWhile_imp (List.mem_reverse.mp hd)

instance (text : List Char) : Decidable (Open text) := decidable_of_iff _ open_iff.symm

theorem Open.behind {text : List Char} (h : Open text) (front : List Char) : Open (front ++ text) := by
  obtain ⟨before, run, rfl, hrun⟩ := h
  exact ⟨front ++ before, run, (List.append_assoc ..).symm, hrun⟩

/-- **Values stay apart from the text around them**: no value that is put in for a variable in braces holds
a dollar sign, and behind a dollar sign or a name without braces it starts with a character that no name
goes on with. -/
def Apart (context : Context) (text : List Char) : Prop :=
  ∀ front name after tail value, text = front ++ tail → Starts .braced name after tail →
    context.get? (String.ofList name) = some value →
      '$' ∉ value.toList ∧
        (Open front → ∃ d, value.toList.head? = some d ∧ Text.isIdentChar d = false)

/-- Whether the value that is put in for a variable in braces at a place stays apart. -/
def apartAt (context : Context) (front tail : List Char) : Bool :=
  match tail with
  | [] => true
  | c :: rest =>
    match (bracedAt c rest).bind fun token => context.get? token.1 with
    | none => true
    | some value => !value.toList.contains '$' &&
        (!decide (Open front) || value.toList.head?.any (!Text.isIdentChar ·))

theorem apart_iff {text : List Char} : Apart context text ↔
    ∀ n ∈ List.range (text.length + 1), apartAt context (text.take n) (text.drop n) = true := by
  constructor
  · intro h n _
    unfold apartAt
    split
    · rfl
    · rename_i c rest htail
      split
      · rfl
      · rename_i value hv
        obtain ⟨⟨name, k⟩, hr, hv⟩ := Option.bind_eq_some_iff.mp hv
        have hs := starts_of_read (f := .braced) hr
        rw [← htail] at hs
        obtain ⟨hfree, hopen⟩ := h _ _ _ _ value (List.take_append_drop n text).symm hs
          (by rwa [String.ofList_toList])
        by_cases ho : Open (text.take n)
        · obtain ⟨d, hd, hstop⟩ := hopen ho
          simp [hfree, hd, hstop]
        · simp [hfree, ho]
  · rintro h front name after tail value rfl hs hv
    have hplace := h front.length (by simp only [List.mem_range, List.length_append]; omega)
    rw [List.take_left, List.drop_left] at hplace
    cases tail with
    | nil => cases hs
    | cons c rest =>
      obtain ⟨k, hr, -⟩ := read_of_starts hs
      have hbound : ((bracedAt c rest).bind fun token => context.get? token.1) = some value := by
        rw [show bracedAt c rest = some (String.ofList name, k) from hr]
        exact hv
      unfold apartAt at hplace
      dsimp only at hplace
      rw [hbound] at hplace
      simp only [Bool.and_eq_true, Bool.or_eq_true, Bool.not_eq_true', List.contains_eq_mem,
        decide_eq_false_iff_not, Option.any_eq_true] at hplace
      refine ⟨hplace.1, fun ho => ?_⟩
      obtain ⟨d, hd, hstop⟩ := hplace.2.resolve_left (not_not_intro ho)
      exact ⟨d, hd, hstop⟩

instance (context : Context) (text : List Char) : Decidable (Apart context text) :=
  decidable_of_iff _ apart_iff.symm

namespace Apart

/-- Values that stay apart in a text do so in each of its ends. -/
theorem suffix (front : List Char) {back : List Char} (h : Apart context (front ++ back)) :
    Apart context back := by
  intro before name after tail value hback hs hv
  obtain ⟨hfree, hopen⟩ := h (front ++ before) name after tail value
    (by rw [hback, List.append_assoc]) hs hv
  exact ⟨hfree, fun ho => hopen (ho.behind front)⟩

/-- Behind a dollar sign and all characters that a name goes on with, the first turn leaves none such. -/
theorem head_stops {run after : List Char} (h : Apart context ('$' :: run ++ after))
    (hrun : ∀ d ∈ run, Text.isIdentChar d = true)
    (hafter : ∀ d ∈ after.head?, Text.isIdentChar d = false) :
    ∀ d ∈ (substituteWith bracedAt context after).head?, Text.isIdentChar d = false := by
  cases after with
  | nil => nofun
  | cons c rest =>
    rcases substituteWith_cons .braced context c rest with ⟨name, later, value, hs, hv, he⟩ | ⟨-, he⟩
    · obtain ⟨-, hopen⟩ := h ('$' :: run) name later (c :: rest) value rfl hs hv
      obtain ⟨d, hd, hstop⟩ := hopen ⟨[], run, rfl, hrun⟩
      obtain ⟨more, hvalue⟩ := List.head?_eq_some_iff.mp hd
      change ∀ d ∈ (substituteWith Form.braced.read context (c :: rest)).head?, _
      rw [he, hvalue]
      simpa using hstop
    · change ∀ d ∈ (substituteWith Form.braced.read context (c :: rest)).head?, _
      rw [he]
      exact hafter

end Apart

/-- **Where values stay apart, the two turns replace all variables at once.** -/
theorem replaced_of_apart {text : List Char} (h : Apart context text) :
    Replaced (fun _ => True) context text
      (substituteWith Form.plain.read context (substituteWith Form.braced.read context text)) := by
  induction hn : text.length using Nat.strong_induction_on generalizing text with
  | _ n ih =>
  subst hn
  cases text with
  | nil => exact .nil
  | cons c rest =>
  rcases substituteWith_cons .braced context c rest with ⟨name, after, value, hs, hv, he⟩ | ⟨hn, he⟩
  · obtain ⟨written, hw, -⟩ := hs.exists_written
    have hafter : Apart context after := Apart.suffix ('$' :: written) (by rwa [hw] at h)
    rw [he, substituteWith_append (h [] name after _ value rfl hs hv).1]
    exact .token trivial hs hv (ih _ hs.length_lt hafter rfl)
  have hrest := ih rest.length (Nat.lt_succ_self _) (Apart.suffix [c] h) rfl
  rw [he]
  by_cases hc : c = '$'
  · subst hc
    -- the name that may stand here without braces is the same before and after the first turn
    obtain ⟨run, after, rfl, hrun, hstop⟩ := exists_run rest
    have hfree : '$' ∉ run := fun hd => absurd (hrun _ hd) (by decide)
    have hstarts := starts_plain_iff hrun hstop
    have hstarts' := starts_plain_iff hrun (h.head_stops hrun hstop)
    have hmid : substituteWith Form.braced.read context (run ++ after) =
        run ++ substituteWith Form.braced.read context after := substituteWith_append hfree after
    rw [hmid] at hrest ⊢
    rcases substituteWith_cons .plain context '$'
        (run ++ substituteWith Form.braced.read context after) with
      ⟨name, later, value, hs, hv, he'⟩ | ⟨hn', he'⟩
    · obtain ⟨hne, rfl, rfl⟩ := (hstarts' name later).mp hs
      rw [he']
      exact .token trivial ((hstarts _ _).mpr ⟨hne, rfl, rfl⟩) hv
        (ih _ (by simp only [List.length_cons, List.length_append]; omega) (Apart.suffix ('$' :: name) h) rfl)
    · rw [he']
      refine .kept (fun f name later _ hs => ?_) hrest
      cases f with
      | braced => exact hn name later hs
      | plain =>
        obtain ⟨hne, rfl, rfl⟩ := (hstarts name later).mp hs
        exact hn' _ _ ((hstarts' _ _).mpr ⟨hne, rfl, rfl⟩)
  · have hfree : '$' ∉ [c] := by simpa using Ne.symm hc
    have hkept : ∀ back, substituteWith Form.plain.read context (c :: back) =
        c :: substituteWith Form.plain.read context back := fun back => substituteWith_append hfree back
    rw [hkept]
    exact .kept (fun f name after _ hs => absurd hs.dollar hc) hrest

/-- **How the variables of texts are replaced.**

* `inTurn`: first those in braces, all at once, and then in what comes of that those without, all at once;
* `atOnce`: where values stay apart, all of them at once;
* `onlyOne`: which says what comes of the text;
* `alike`: where values stay apart, a bound name gives the same in either form, if what follows cannot go on
  with it. -/
structure Replaces (context : Context) : Prop where
  inTurn : ∀ text : String, ∃ between, Replaced (· = .braced) context text.toList between ∧
    Replaced (· = .plain) context between (substituteVariables context text).toList
  atOnce : ∀ text : String, Apart context text.toList →
    Replaced (fun _ => True) context text.toList (substituteVariables context text).toList
  onlyOne : ∀ (text : String) out, Apart context text.toList →
    Replaced (fun _ => True) context text.toList out →
      substituteVariables context text = String.ofList out
  alike : ∀ (front name tail : String) value, context.get? name = some value → name ≠ "" →
    (∀ d ∈ name.toList, Text.isIdentChar d = true) →
    (∀ d ∈ tail.toList.head?, Text.isIdentChar d = false) →
    Apart context (front ++ "$\x7b" ++ name ++ "\x7d" ++ tail).toList →
    Apart context (front ++ "$" ++ name ++ tail).toList →
      substituteVariables context (front ++ "$\x7b" ++ name ++ "\x7d" ++ tail) =
        substituteVariables context (front ++ "$" ++ name ++ tail)

/-- **Variables are replaced in two turns, and where values stay apart all at once.** -/
theorem substituteVariables_replaces (context : Context) : Replaces context where
  inTurn text := by
    refine ⟨_, replaced_substituteWith .braced context text.toList, ?_⟩
    rw [substituteVariables, String.toList_ofList]
    exact replaced_substituteWith .plain context _
  atOnce text h := by
    rw [substituteVariables, String.toList_ofList]
    exact replaced_of_apart h
  onlyOne text out h hr := congrArg String.ofList ((replaced_of_apart h).unique hr)
  alike front name tail value hv hne hname htail h h' := by
    have hv' : context.get? (String.ofList name.toList) = some value := by
      rwa [String.ofList_toList]
    have hne' : name.toList ≠ [] := by rwa [ne_eq, String.toList_eq_nil_iff]
    have hbraced : Starts .braced name.toList tail.toList _ := .braced hne' hname
    have hplain := Starts.plain hne' hname htail
    simp only [String.toList_append, List.append_assoc] at h h'
    -- both forms give way to the value, and what stands in front does not notice
    have hswap : ∀ out,
        Replaced (fun _ => True) context
          ('$' :: '\x7b' :: (name.toList ++ '\x7d' :: tail.toList)) out →
        Replaced (fun _ => True) context ('$' :: (name.toList ++ tail.toList)) out := by
      intro out hr
      cases hr with
      | token _ hs hw later =>
        obtain ⟨rfl, rfl⟩ := hbraced.unique hs
        exact .token trivial hplain hw later
      | kept hk =>
        rw [hk _ _ _ trivial hbraced] at hv'
        cases hv'
    have hr := Replaced.behind hswap front.toList _ (replaced_of_apart h)
    unfold substituteVariables
    simp only [String.toList_append, List.append_assoc]
    exact congrArg String.ofList (hr.unique (replaced_of_apart h'))

/-- Values with dollar signs stay apart where their variables have no braces, and behind a name without
braces values do so that start with a sign. -/
example :
    Apart [("A", "1"), ("B", "$A"), ("C", "-c")] "$\x7bA\x7d-$B$\x7bC\x7d".toList ∧
      substituteVariables [("A", "1"), ("B", "$A"), ("C", "-c")] "$\x7bA\x7d-$B$\x7bC\x7d" =
        "1-$A-c" := by
  decide

/-- A value that is put in for a variable in braces is looked at again, and one for a variable without
braces is not; and a value may complete a variable that the text does not hold. -/
theorem values_looked_at_again :
    substituteVariables [("A", "$B"), ("B", "x")] "$\x7bA\x7d" = "x" ∧
      substituteVariables [("A", "$B"), ("B", "x")] "$A" = "$B" ∧
      Replaced (fun _ => True) [("A", "$B"), ("B", "x")] "$\x7bA\x7d".toList "$B".toList ∧
      substituteVariables [("A", "B"), ("B", "x")] "$$\x7bA\x7d" = "x" ∧
      ¬ ∀ (context : Context) (text : String),
        Replaced (fun _ => True) context text.toList (substituteVariables context text).toList := by
  have hs : Starts .braced ['A'] [] "$\x7bA\x7d".toList := .braced (by decide) (List.all_eq_true.mp rfl)
  have honce : Replaced (fun _ => True) [("A", "$B"), ("B", "x")] "$\x7bA\x7d".toList
      ("$B".toList ++ []) :=
    .token trivial hs rfl .nil
  refine ⟨by decide +kernel, by decide +kernel, honce, by decide +kernel, fun h => ?_⟩
  have hagain := (h [("A", "$B"), ("B", "x")] "$\x7bA\x7d").unique honce
  exact absurd hagain (by decide +kernel)

end Runbook.Expression
