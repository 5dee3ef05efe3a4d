import Runbook.Proofs.Sanitize.Cleansing
import Runbook.Proofs.Text.Replacement

/-!
# Cleansed free text

Free text is cleansed in five passes, each made once. What is read off the text that comes out:

* `cutLineFeeds_infix_iff`, `cutLineFeeds_of_few`: cutting line feeds brings nothing else together;
* `unwanted`: what free text is cleansed of; `unwanted_starts`, `unwanted_ends`: how these texts overlap;
* `LeavesBehind`: what becomes of a stretch from which addresses are taken out;
* **`unwanted_infix_iff`**: an unwanted text is left exactly if addresses are taken out of the midst of it;
* `CleansedText`, **`userInput_cleansed`**: what is said of free text that was cleansed.
-/

namespace Runbook.Sanitize

/-! ## 1. Line feeds -/

/-- A text without line feeds at a place that no line feed was cut in front of. -/
theorem cutLineFeeds_prefix_iff {f s : List Char} (hf : '\n' ∉ f) :
    f <+: cutLineFeeds 0 s ↔ f <+: s := by
  induction s generalizing f with
  | nil => exact Iff.rfl
  | cons c s ih =>
    cases f with
    | nil => exact iff_of_true List.nil_prefix List.nil_prefix
    | cons d f =>
      obtain ⟨hd, hf⟩ := List.ne_and_not_mem_of_not_mem_cons hf
      rw [cutLineFeeds, List.cons_prefix_cons]
      by_cases hc : c = '\n'
      · have hne : d ≠ c := fun h => hd (hc.symm.trans h.symm)
        rw [if_pos hc, if_pos (by decide), List.cons_prefix_cons]
        exact iff_of_false (fun h => hne h.1) fun h => hne h.1
      · rw [if_neg hc, List.cons_prefix_cons, ih hf]

/-- **Cutting line feeds leaves texts without line feeds where they are, and makes no new ones.** -/
theorem cutLineFeeds_infix_iff {f s : List Char} (hf : '\n' ∉ f) (seen : Nat) :
    f <:+: cutLineFeeds seen s ↔ f <:+: s := by
  by_cases hne : f = []
  · rw [hne]
    exact iff_of_true List.nil_infix List.nil_infix
  obtain ⟨d, f, rfl⟩ := List.exists_cons_of_ne_nil hne
  have hd : d ≠ '\n' := fun h => hf (h ▸ List.mem_cons_self)
  induction s generalizing seen with
  | nil => exact Iff.rfl
  | cons c s ih =>
    by_cases hc : c = '\n'
    · have hhere : ∀ t : List Char, ¬ d :: f <+: c :: t := fun t h =>
        hd ((List.cons_prefix_cons.mp h).1.trans hc)
      have hlater : d :: f <:+: c :: s ↔ d :: f <:+: s :=
        List.infix_cons_iff.trans (or_iff_right (hhere s))
      rw [cutLineFeeds, if_pos hc, hlater]
      by_cases hseen : seen < 2
      · rw [if_pos hseen, List.infix_cons_iff, or_iff_right (hhere _)]
        exact ih (seen + 1)
      · rw [if_neg hseen]
        exact ih seen
    · have hcut : cutLineFeeds seen (c :: s) = cutLineFeeds 0 (c :: s) := by
        rw [cutLineFeeds, cutLineFeeds, if_neg hc, if_neg hc]
      have hkept : cutLineFeeds 0 (c :: s) = c :: cutLineFeeds 0 s := by
        rw [cutLineFeeds, if_neg hc]
      have hhere := cutLineFeeds_prefix_iff (s := c :: s) hf
      rw [hkept] at hcut hhere
      rw [hcut, List.infix_cons_iff, List.infix_cons_iff]
      exact or_congr hhere (ih 0)

theorem cutLineFeeds_sublist (seen : Nat) (s : List Char) : (cutLineFeeds seen s).Sublist s := by
  induction s generalizing seen with
  | nil => exact List.Sublist.slnil
  | cons c s ih =>
    rw [cutLineFeeds]
    split
    · split
      · exact (ih _).cons_cons c
      · exact (ih _).cons c
    · exact (ih _).cons_cons c

/-- Behind `seen` line feeds at most so many come that there are two. -/
theorem replicate_not_prefix_cutLineFeeds {seen : Nat} (h : seen ≤ 2) (s : List Char) :
    ¬ List.replicate (3 - seen) '\n' <+: cutLineFeeds seen s := by
  induction s generalizing seen with
  | nil =>
    intro hp
    have hlength := congrArg List.length (List.prefix_nil.mp hp)
    rw [List.length_replicate, List.length_nil] at hlength
    omega
  | cons c s ih =>
    rw [cutLineFeeds]
    by_cases hc : c = '\n'
    · by_cases hseen : seen < 2
      · have hsplit : 3 - seen = (3 - (seen + 1)) + 1 := by omega
        rw [if_pos hc, if_pos hseen, hsplit, List.replicate_succ, List.cons_prefix_cons]
        exact fun hp => ih (by omega) hp.2
      · rw [if_pos hc, if_neg hseen]
        exact ih h
    · have hsplit : 3 - seen = (2 - seen) + 1 := by omega
      rw [if_neg hc, hsplit, List.replicate_succ, List.cons_prefix_cons]
      exact fun hp => hc hp.1.symm

theorem not_threeLineFeeds_cutLineFeeds {seen : Nat} (h : seen ≤ 2) (s : List Char) :
    ¬ ['\n', '\n', '\n'] <:+: cutLineFeeds seen s := by
  induction s generalizing seen with
  | nil => exact fun hp => absurd (List.infix_nil.mp hp) (by simp)
  | cons c s ih =>
    rw [cutLineFeeds]
    by_cases hc : c = '\n'
    · by_cases hseen : seen < 2
      · rw [if_pos hc, if_pos hseen, List.infix_cons_iff, hc]
        have hfew : List.replicate (3 - (seen + 1)) '\n' <+: ['\n', '\n'] := by
          have hcases : seen = 0 ∨ seen = 1 := by omega
          rcases hcases with rfl | rfl <;> decide
        have hhere : ¬ ['\n', '\n'] <+: cutLineFeeds (seen + 1) s := fun hp =>
          replicate_not_prefix_cutLineFeeds (by omega) s (hfew.trans hp)
        exact not_or.mpr ⟨fun hp => hhere (List.cons_prefix_cons.mp hp).2, ih (by omega)⟩
      · rw [if_pos hc, if_neg hseen]
        exact ih h
    · rw [if_neg hc, List.infix_cons_iff]
      exact not_or.mpr ⟨fun hp => hc (List.cons_prefix_cons.mp hp).1.symm, ih (by omega)⟩

/-- **A text with no three line feeds in a row is left alone.** -/
theorem cutLineFeeds_of_few {seen : Nat} {s : List Char} (h : seen ≤ 2)
    (hs : ¬ ['\n', '\n', '\n'] <:+: List.replicate seen '\n' ++ s) : cutLineFeeds seen s = s := by
  induction s generalizing seen with
  | nil => rfl
  | cons c s ih =>
    rw [cutLineFeeds]
    by_cases hc : c = '\n'
    · have hmove : List.replicate seen '\n' ++ c :: s = List.replicate (seen + 1) '\n' ++ s := by
        rw [hc, List.replicate_succ', List.append_assoc]
        rfl
      have hseen : seen < 2 := by
        refine Nat.lt_of_le_of_ne h fun heq => hs ?_
        rw [hmove, heq]
        exact (List.prefix_append _ s).isInfix
      rw [hmove] at hs
      rw [if_pos hc, if_pos hseen, ih hseen hs]
    · have hlater : ¬ ['\n', '\n', '\n'] <:+: List.replicate 0 '\n' ++ s := fun hp =>
        hs (hp.trans ((List.suffix_cons c s).trans (List.suffix_append _ _)).isInfix)
      rw [if_neg hc, ih (by omega) hlater]

/-! ## 2. What is unwanted -/

/-- The start of a script element. -/
def scriptStart : List Char := "<script".toList

/-- What a script address starts with. -/
def scriptAddress : List Char := "javascript:".toList

/-- What a data address starts with. -/
def dataAddress : List Char := "data:".toList

/-- What free text is cleansed of. -/
def unwanted : List (List Char) := [scriptStart, scriptAddress, dataAddress]

/-- None of these texts goes on with a character that one of them starts with. -/
theorem unwanted_starts {p q : List Char} {c : Char} (hp : p ∈ unwanted) (hq : q ∈ unwanted)
    (hc : p.head? = some c) : c ∉ q.tail := by
  have hall : ∀ p ∈ unwanted, ∀ q ∈ unwanted, p.head?.all (fun c => !q.tail.contains c) = true := by
    decide +kernel
  have hfree := hall p hp q hq
  rw [hc] at hfree
  simpa using hfree

/-- What one of these texts starts with, short of the whole, ends none of them and holds no address. -/
theorem unwanted_ends : ∀ p ∈ unwanted, ∀ n < p.length, 0 < n →
    (∀ q ∈ unwanted, ¬ p.take n <:+ q) ∧ ¬ scriptAddress <:+: p.take n ∧ ¬ dataAddress <:+: p.take n := by
  decide +kernel

/-- A text that starts as one of the unwanted texts does. -/
def StartsUnwanted (t : List Char) : Prop := ∃ p ∈ unwanted, t.head? = p.head?

/-- **What becomes of a stretch of text** from which first all script addresses are taken out, and then
all data addresses. -/
def LeavesBehind (t f : List Char) : Prop :=
  ∃ m, Text.Replaced scriptAddress [] t m ∧ Text.Replaced dataAddress [] m f

/-! ## 3. What is left -/

section Stretches

variable {p q f t m a b : List Char}

theorem exists_cons_of_unwanted (hp : p ∈ unwanted) : ∃ c ps, p = c :: ps := by
  have hne : ∀ p ∈ unwanted, p ≠ [] := by decide
  exact List.exists_cons_of_ne_nil (hne p hp)

/-- A text that becomes one that starts so starts so itself. -/
theorem StartsUnwanted.of_replaced (hq : q ∈ unwanted) (h : Text.Replaced q [] t m)
    (hm : StartsUnwanted m) : StartsUnwanted t := by
  obtain ⟨c, qs, rfl⟩ := exists_cons_of_unwanted hq
  obtain ⟨p, hp, hhead⟩ := hm
  rcases h.head?_cases (List.cons_ne_nil c qs) with ht | ht
  · exact ⟨p, hp, ht.trans hhead⟩
  · exact ⟨c :: qs, hq, ht⟩

/-- No unwanted text reaches over the place in front of such a text. -/
theorem StartsUnwanted.severed (ht : StartsUnwanted t) (hq : q ∈ unwanted) :
    Text.Severed q a (t ++ b) := by
  obtain ⟨p, hp, hhead⟩ := ht
  obtain ⟨c, ps, rfl⟩ := exists_cons_of_unwanted hp
  obtain ⟨more, rfl⟩ := List.head?_eq_some_iff.mp hhead
  exact Text.severed_of_head fun d hd => unwanted_starts hp hq hd

/-- What an unwanted text starts with, short of the whole. -/
structure IsStart (u : List Char) : Prop where
  starts : StartsUnwanted u
  endsNone : ∀ q ∈ unwanted, ¬ u <:+ q
  noScript : ¬ scriptAddress <:+: u
  noData : ¬ dataAddress <:+: u

theorem isStart_of_append {u v : List Char} (hp : p ∈ unwanted) (huv : p = u ++ v) (hu : u ≠ [])
    (hv : v ≠ []) : IsStart u := by
  have hupos : 0 < u.length := List.length_pos_iff.mpr hu
  have hvpos : 0 < v.length := List.length_pos_iff.mpr hv
  have hlength := congrArg List.length huv
  rw [List.length_append] at hlength
  have hends := unwanted_ends p hp u.length (by omega) hupos
  rw [huv, List.take_left] at hends
  obtain ⟨hnone, hscript, hdata⟩ := hends
  have hhead : u.head? = p.head? := by rw [huv, List.head?_append_of_ne_nil u hu]
  exact ⟨⟨p, hp, hhead⟩, hnone, hscript, hdata⟩

/-- What starts so stays at the end of a text from which addresses are taken out. -/
theorem StartsUnwanted.stays {u : List Char} (hu : StartsUnwanted u) (hq : q ∈ unwanted)
    (hfree : ¬ q <:+: u) (h : Text.Replaced q [] t m) (ht : u <:+ t) : u <:+ m := by
  obtain ⟨c, qs, rfl⟩ := exists_cons_of_unwanted hq
  refine h.suffix_of_severed (List.cons_ne_nil c qs) ht hfree fun a => ?_
  have hsevered := hu.severed (a := a) (b := []) hq
  rwa [List.append_nil] at hsevered

/-- No unwanted text reaches over the end of what becomes one of them without its data addresses. -/
theorem severed_of_dataReplaced (h : Text.Replaced dataAddress [] m f) (hf : f ∈ unwanted)
    (hp : p ∈ unwanted) : Text.Severed p m b := by
  refine Text.severed_of_suffix fun u v huv hu hv hm => ?_
  have hstart := isStart_of_append hp huv hu hv
  have hend : u <:+ f := hstart.starts.stays (by decide) hstart.noData h hm
  exact hstart.endsNone f hf hend

/-- **No unwanted text reaches over the end of a stretch that leaves one of them behind.** -/
theorem LeavesBehind.severed (h : LeavesBehind t f) (hf : f ∈ unwanted) (hp : p ∈ unwanted) :
    Text.Severed p t b := by
  obtain ⟨m, hscript, hdata⟩ := h
  refine Text.severed_of_suffix fun u v huv hu hv ht => ?_
  have hstart := isStart_of_append hp huv hu hv
  have hmiddle : u <:+ m := hstart.starts.stays (by decide) hstart.noScript hscript ht
  have hend : u <:+ f := hstart.starts.stays (by decide) hstart.noData hdata hmiddle
  exact hstart.endsNone f hf hend

/-- A stretch that leaves an unwanted text behind starts as one of them does. -/
theorem LeavesBehind.startsUnwanted (h : LeavesBehind t f) (hf : f ∈ unwanted) :
    StartsUnwanted t := by
  obtain ⟨m, hscript, hdata⟩ := h
  have hm : StartsUnwanted m := .of_replaced (by decide) hdata ⟨f, hf, rfl⟩
  exact .of_replaced (by decide) hscript hm

/-- What leaves an unwanted text behind has no other characters than addresses and that text. -/
theorem LeavesBehind.not_mem {c : Char} (h : LeavesBehind t f) (hf : f ∈ unwanted)
    (hc : ∀ q ∈ unwanted, c ∉ q) : c ∉ t := by
  intro ht
  obtain ⟨m, hscript, hdata⟩ := h
  rcases hscript.mem_cases ht with hm | hq
  · rcases hdata.mem_cases hm with hq | hq
    · exact hc f hf hq
    · exact hc dataAddress (by decide) hq
  · exact hc scriptAddress (by decide) hq

end Stretches

/-- **An unwanted text is left exactly if it is left behind by a stretch of the text given that holds no
script element.** -/
theorem unwanted_infix_iff {s s₁ s₃ f : List Char} (hf : f ∈ unwanted)
    (h₁ : Text.Replaced scriptStart "&lt;script".toList s s₁) (h : LeavesBehind s₁ s₃) :
    f <:+: s₃ ↔ ∃ t, t <:+: s ∧ ¬ scriptStart <:+: t ∧ LeavesBehind t f := by
  obtain ⟨s₂, h₂, h₃⟩ := h
  constructor
  · intro hleft
    obtain ⟨m, hm, hdata⟩ := h₃.exists_stretch hleft
    obtain ⟨t, ht, hscript⟩ := h₂.exists_stretch hm
    have hbehind : LeavesBehind t f := ⟨m, hscript, hdata⟩
    have hampersand : '&' ∉ t := hbehind.not_mem hf (by decide)
    have hnone : ¬ scriptStart <:+: s₁ := h₁.absent (by decide) (by decide)
    obtain ⟨p, hp, hhead⟩ := hbehind.startsUnwanted hf
    obtain ⟨c, ps, rfl⟩ := exists_cons_of_unwanted hp
    obtain ⟨v, rfl⟩ := List.head?_eq_some_iff.mp hhead
    -- no unwanted text starts as something inside of what a script element gives way to
    have houtside : ∀ q ∈ unwanted, q.head?.all (fun d => !"lt;script".toList.contains d) = true := by
      decide +kernel
    have hc : c ∉ "lt;script".toList := by simpa using houtside (c :: ps) hp
    have hgiven : c :: v <:+: s := h₁.infix_of_free hampersand hc ht
    exact ⟨c :: v, hgiven, fun hstart => hnone (hstart.trans ht), hbehind⟩
  · intro hstretch
    obtain ⟨t, ⟨a, b, hs⟩, hfree, hbehind⟩ := hstretch
    have ht : StartsUnwanted t := hbehind.startsUnwanted hf
    rw [List.append_assoc] at hs
    rw [← hs] at h₁
    obtain ⟨a₁, b₁, rfl⟩ := h₁.infix_of_severed (by decide) (Text.replaced_of_absent hfree)
      (ht.severed (by decide)) (hbehind.severed hf (by decide))
    have hscriptEnd : Text.Severed scriptAddress t b₁ := hbehind.severed hf (by decide)
    obtain ⟨m, hscript, hdata⟩ := hbehind
    obtain ⟨a₂, b₂, rfl⟩ := h₂.infix_of_severed (by decide) hscript (ht.severed (by decide)) hscriptEnd
    have hm : StartsUnwanted m := .of_replaced (by decide) hdata ⟨f, hf, rfl⟩
    obtain ⟨a₃, b₃, rfl⟩ := h₃.infix_of_severed (by decide) hdata (hm.severed (by decide))
      (severed_of_dataReplaced hdata hf (by decide))
    exact ⟨a₃, b₃, by rw [List.append_assoc]⟩

/-! ## 4. Free text -/

/-- **What cleansing makes of a text**: the passes in their order. -/
theorem userInput_eq_ok_iff {x y : List Char} : userInput x = .ok y ↔
    ∃ s₁ s₃, Text.Replaced scriptStart "&lt;script".toList (withoutNull x) s₁ ∧
      LeavesBehind s₁ s₃ ∧ y = cutLineFeeds 0 s₃ ∧ y.length ≤ 2048 := by
  unfold userInput within
  constructor
  · intro h
    dsimp only at h
    split at h
    · rename_i hlength
      obtain rfl := Except.ok.inj h
      exact ⟨_, _, Text.replaced_replaceAll (by decide) _, ⟨_, Text.replaced_replaceAll (by decide) _,
        Text.replaced_replaceAll (by decide) _⟩, rfl, hlength⟩
    · cases h
  · intro h
    obtain ⟨s₁, s₃, h₁, ⟨s₂, h₂, h₃⟩, rfl, hlength⟩ := h
    have e₁ := (Text.replaced_iff (by decide)).mp h₁
    have e₂ := (Text.replaced_iff (by decide)).mp h₂
    have e₃ := (Text.replaced_iff (by decide)).mp h₃
    unfold scriptStart at e₁
    unfold scriptAddress at e₂
    unfold dataAddress at e₃
    dsimp only
    rw [e₁, e₂, e₃, if_pos hlength]

/-- **What is said of free text** `y` that `x` was cleansed to: it has no null character, at most two line
feeds in a row and at most 2048 characters. One of the unwanted texts is left in it exactly if it is left
behind by a stretch of `x` that holds no script element, so none is left if `x` holds no address. And
cleansing it again changes nothing exactly if none is left. -/
structure CleansedText (x y : List Char) : Prop where
  noNull : Char.ofNat 0 ∉ y
  fewLineFeeds : ¬ ['\n', '\n', '\n'] <:+: y
  short : y.length ≤ 2048
  left : ∀ f ∈ unwanted, f <:+: y ↔
    ∃ t, t <:+: withoutNull x ∧ ¬ scriptStart <:+: t ∧ LeavesBehind t f
  clean : ¬ scriptAddress <:+: withoutNull x → ¬ dataAddress <:+: withoutNull x →
    ∀ f ∈ unwanted, ¬ f <:+: y
  again : userInput y = .ok y ↔ ∀ f ∈ unwanted, ¬ f <:+: y

/-- A stretch without addresses leaves itself behind. -/
theorem LeavesBehind.eq_of_free {t f : List Char} (h : LeavesBehind t f)
    (hscript : ¬ scriptAddress <:+: t) (hdata : ¬ dataAddress <:+: t) : f = t := by
  obtain ⟨m, h₂, h₃⟩ := h
  obtain rfl := h₂.unique (by decide) (Text.replaced_of_absent hscript)
  exact h₃.unique (by decide) (Text.replaced_of_absent hdata)

/-- A text that holds an unwanted text is not left alone. -/
theorem userInput_ne_of_unwanted {y f : List Char} (hnull : Char.ofNat 0 ∉ y) (hf : f ∈ unwanted)
    (hin : f <:+: y) : userInput y ≠ .ok y := by
  intro h
  obtain ⟨s₁, s₃, h₁, ⟨s₂, h₂, h₃⟩, hy, -⟩ := userInput_eq_ok_iff.mp h
  rw [withoutNull_of_not_mem hnull] at h₁
  have hcut : ∀ c, y.count c ≤ s₃.count c := fun c => by
    rw [hy]
    exact (cutLineFeeds_sublist 0 s₃).count_le c
  by_cases hstart : scriptStart <:+: y
  · -- a script element has more than what it gives way to
    have l₁ : s₁.count '<' < y.count '<' := h₁.countP_lt (by decide) hstart
    have l₂ : s₂.count '<' ≤ s₁.count '<' := h₂.countP_le (by decide)
    have l₃ : s₃.count '<' ≤ s₂.count '<' := h₃.countP_le (by decide)
    have l₄ := hcut '<'
    omega
  obtain rfl := (Text.replaced_of_absent hstart).unique (by decide) h₁
  have l₄ := hcut ':'
  by_cases hscript : scriptAddress <:+: y
  · have l₂ : s₂.count ':' < y.count ':' := h₂.countP_lt (by decide) hscript
    have l₃ : s₃.count ':' ≤ s₂.count ':' := h₃.countP_le (by decide)
    omega
  obtain rfl := (Text.replaced_of_absent hscript).unique (by decide) h₂
  by_cases hdata : dataAddress <:+: y
  · have l₃ : s₃.count ':' < y.count ':' := h₃.countP_lt (by decide) hdata
    omega
  · have hnone : ∀ f ∈ unwanted, ¬ f <:+: y := by
      simp [unwanted, hstart, hscript, hdata]
    exact hnone f hf hin

/-- A text in which nothing is unwanted is left alone. -/
theorem userInput_of_clean {y : List Char} (hnull : Char.ofNat 0 ∉ y)
    (hlines : ¬ ['\n', '\n', '\n'] <:+: y) (hshort : y.length ≤ 2048)
    (h : ∀ f ∈ unwanted, ¬ f <:+: y) : userInput y = .ok y := by
  have hcut : y = cutLineFeeds 0 y := (cutLineFeeds_of_few (Nat.zero_le 2) hlines).symm
  refine userInput_eq_ok_iff.mpr ⟨y, y, ?_, ⟨y, ?_, ?_⟩, hcut, hshort⟩
  · rw [withoutNull_of_not_mem hnull]
    exact Text.replaced_of_absent (h scriptStart (by decide))
  · exact Text.replaced_of_absent (h scriptAddress (by decide))
  · exact Text.replaced_of_absent (h dataAddress (by decide))

/-- **Cleansed free text holds nothing that it is cleansed of, but for what taking addresses out brings
together.** -/
theorem userInput_cleansed {x y : List Char} (h : userInput x = .ok y) : CleansedText x y := by
  obtain ⟨s₁, s₃, h₁, hbehind, hy, hshort⟩ := userInput_eq_ok_iff.mp h
  have hlines : ¬ ['\n', '\n', '\n'] <:+: y := by
    rw [hy]
    exact not_threeLineFeeds_cutLineFeeds (Nat.zero_le 2) s₃
  have hnull : Char.ofNat 0 ∉ y := by
    obtain ⟨s₂, h₂, h₃⟩ := hbehind
    have l₀ : (withoutNull x).count (Char.ofNat 0) = 0 :=
      List.count_eq_zero.mpr (not_mem_withoutNull x)
    have l₁ : s₁.count (Char.ofNat 0) ≤ (withoutNull x).count (Char.ofNat 0) :=
      h₁.countP_le (by decide)
    have l₂ : s₂.count (Char.ofNat 0) ≤ s₁.count (Char.ofNat 0) := h₂.countP_le (by decide)
    have l₃ : s₃.count (Char.ofNat 0) ≤ s₂.count (Char.ofNat 0) := h₃.countP_le (by decide)
    have l₄ : y.count (Char.ofNat 0) ≤ s₃.count (Char.ofNat 0) := by
      rw [hy]
      exact (cutLineFeeds_sublist 0 s₃).count_le _
    exact List.count_eq_zero.mp (by omega)
  have hleft : ∀ f ∈ unwanted, f <:+: y ↔
      ∃ t, t <:+: withoutNull x ∧ ¬ scriptStart <:+: t ∧ LeavesBehind t f := by
    intro f hf
    have hfeed : ∀ f ∈ unwanted, '\n' ∉ f := by decide
    rw [hy, cutLineFeeds_infix_iff (hfeed f hf), unwanted_infix_iff hf h₁ hbehind]
  have hclean : ¬ scriptAddress <:+: withoutNull x → ¬ dataAddress <:+: withoutNull x →
      ∀ f ∈ unwanted, ¬ f <:+: y := by
    intro hscript hdata f hf hin
    obtain ⟨t, ht, hstart, hstretch⟩ := (hleft f hf).mp hin
    obtain rfl : f = t := hstretch.eq_of_free (fun hp => hscript (hp.trans ht))
      fun hp => hdata (hp.trans ht)
    have hcases : f = scriptStart ∨ f = scriptAddress ∨ f = dataAddress := by
      simpa [unwanted] using hf
    rcases hcases with rfl | rfl | rfl
    · exact hstart List.infix_rfl
    · exact hscript ht
    · exact hdata ht
  refine ⟨hnull, hlines, hshort, hleft, hclean, fun hagain f hf hin => ?_, ?_⟩
  · exact userInput_ne_of_unwanted hnull hf hin hagain
  · exact userInput_of_clean hnull hlines hshort

/-- A text with a script element, a data address in the midst of a script address, and empty lines. -/
theorem mixed_text_cleansed :
    userInput "<script>jav\x00adata:script:go\n\n\n\nend".toList =
        .ok "&lt;script>javascript:go\n\nend".toList ∧
      CleansedText "<script>jav\x00adata:script:go\n\n\n\nend".toList
        "&lt;script>javascript:go\n\nend".toList := by
  have h : userInput "<script>jav\x00adata:script:go\n\n\n\nend".toList =
      .ok "&lt;script>javascript:go\n\nend".toList := by decide +kernel
  exact ⟨h, userInput_cleansed h⟩

/-- Where a data address is taken out of the midst of a script address, the script address is left, and
cleansing the text again takes it out. -/
theorem joined_address_left : ¬ ∀ x y, userInput x = .ok y →
    (∀ f ∈ unwanted, ¬ f <:+: y) ∧ userInput y = .ok y := by
  intro h
  have hleft : userInput "javadata:script:go".toList = .ok "javascript:go".toList := by
    decide +kernel
  exact (h _ _ hleft).1 scriptAddress (by decide) (by decide +kernel)

end Runbook.Sanitize
