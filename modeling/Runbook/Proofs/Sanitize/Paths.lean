import Mathlib.Data.List.Destutter
import Runbook.Proofs.Sanitize.Cleansing
import Runbook.Proofs.Text.Replacement

/-!
# Accepted paths

A path is judged before its slashes are collapsed, so what can be said of an accepted path depends on what
collapsing makes of a text:

* `singleSlashes`: the text with one slash for every run of slashes; `singleSlashes_append`,
  `singleSlashes_run`: what it is made of;
* **`collapseSlashes_eq`**: halving the runs until none is left comes to this text;
* `prefix_singleSlashes_iff`: the directories that the text lies in;
* `AcceptedPath`, **`filePath_accepted`**: what is said of a path that is accepted.
-/

namespace Runbook.Sanitize

/-! ## 1. One slash for every run -/

/-- Two characters are not both slashes. -/
def SlashesApart (a b : Char) : Prop := ¬ (a = '/' ∧ b = '/')

instance : DecidableRel SlashesApart := fun _ _ => inferInstanceAs (Decidable (¬ _))

/-- The text with one slash for every run of slashes. -/
def singleSlashes (s : List Char) : List Char := s.destutter SlashesApart

@[simp] theorem singleSlashes_nil : singleSlashes [] = [] := rfl

/-- A slash is left out in front of another one. -/
theorem singleSlashes_cons (c : Char) (s : List Char) : singleSlashes (c :: s) =
    if c = '/' ∧ s.head? = some '/' then singleSlashes s else c :: singleSlashes s := by
  cases s with
  | nil => simp [singleSlashes]
  | cons d s =>
    show List.destutter' SlashesApart c (d :: s) =
      if c = '/' ∧ some d = some '/' then List.destutter' SlashesApart d s
      else c :: List.destutter' SlashesApart d s
    by_cases h : c = '/' ∧ d = '/'
    · obtain ⟨rfl, rfl⟩ := h
      exact List.destutter'_cons_neg _ fun hr => hr ⟨rfl, rfl⟩
    · rw [if_neg fun hd => h ⟨hd.1, Option.some.inj hd.2⟩]
      exact List.destutter'_cons_pos _ h

/-- Characters that are no slashes are kept. -/
theorem singleSlashes_append {w : List Char} (hw : '/' ∉ w) (s : List Char) :
    singleSlashes (w ++ s) = w ++ singleSlashes s := by
  induction w with
  | nil => rfl
  | cons c w ih =>
    obtain ⟨hc, hw⟩ := List.ne_and_not_mem_of_not_mem_cons hw
    rw [List.cons_append, singleSlashes_cons, if_neg fun h => hc h.1.symm, ih hw, List.cons_append]

/-- A run of slashes becomes one slash. -/
theorem singleSlashes_run (n : Nat) {s : List Char} (hs : s.head? ≠ some '/') :
    singleSlashes (List.replicate (n + 1) '/' ++ s) = '/' :: singleSlashes s := by
  induction n with
  | zero => exact (singleSlashes_cons '/' s).trans (if_neg fun h => hs h.2)
  | succ n ih =>
    rw [List.replicate_succ, List.cons_append, singleSlashes_cons, if_pos ⟨rfl, rfl⟩, ih]

theorem head?_singleSlashes (s : List Char) : (singleSlashes s).head? = s.head? := by
  induction s with
  | nil => rfl
  | cons c s ih =>
    rw [singleSlashes_cons]
    split
    · next h => rw [ih, h.1, h.2, List.head?_cons]
    · rfl

/-- What stands in front of a text makes no difference to what its slashes become. -/
theorem singleSlashes_cons_congr (c : Char) {s t : List Char}
    (h : singleSlashes s = singleSlashes t) : singleSlashes (c :: s) = singleSlashes (c :: t) := by
  have hhead : s.head? = t.head? := by rw [← head?_singleSlashes s, h, head?_singleSlashes]
  rw [singleSlashes_cons, singleSlashes_cons, hhead, h]

/-- What is left out is a slash in front of another one, so no new neighbours arise. -/
theorem isChain_singleSlashes {R : Char → Char → Prop} {s : List Char} (h : s.IsChain R) :
    (singleSlashes s).IsChain R := by
  induction s with
  | nil => exact h
  | cons c s ih =>
    obtain ⟨hc, hs⟩ := List.isChain_cons.mp h
    rw [singleSlashes_cons]
    split
    · exact ih hs
    · exact List.isChain_cons.mpr ⟨head?_singleSlashes s ▸ hc, ih hs⟩

/-- A character stands nowhere twice in a row. -/
theorem isChain_iff_not_doubled {a : Char} {s : List Char} :
    s.IsChain (fun b c => ¬ (b = a ∧ c = a)) ↔ ¬ [a, a] <:+: s := by
  rw [List.isChain_iff_forall_rel_of_append_cons_cons]
  constructor
  · rintro h ⟨front, back, rfl⟩
    exact h (List.append_assoc front [a, a] back) ⟨rfl, rfl⟩
  · rintro h b c front back rfl ⟨rfl, rfl⟩
    exact h ⟨front, back, by simp⟩

theorem singleSlashes_of_single {s : List Char} (h : ¬ ['/', '/'] <:+: s) : singleSlashes s = s :=
  List.destutter_of_isChain _ s (isChain_iff_not_doubled.mpr h)

theorem not_doubled_singleSlashes (s : List Char) : ¬ ['/', '/'] <:+: singleSlashes s :=
  isChain_iff_not_doubled.mp (List.isChain_destutter _ s)

/-! ## 2. Halving until nothing changes -/

theorem replaced_halveSlashes (s : List Char) :
    Text.Replaced ['/', '/'] ['/'] s (halveSlashes s) :=
  Text.replaced_replaceAll (List.cons_ne_nil _ _) s

/-- A pass does not change what the runs become in the end. -/
theorem singleSlashes_of_replaced {s t : List Char} (h : Text.Replaced ['/', '/'] ['/'] s t) :
    singleSlashes t = singleSlashes s := by
  induction h with
  | nil => rfl
  | @found s out _ ih =>
    change singleSlashes ('/' :: out) = singleSlashes ('/' :: '/' :: s)
    rw [singleSlashes_cons_congr '/' ih, singleSlashes_cons '/' ('/' :: s), if_pos ⟨rfl, rfl⟩]
  | kept _ _ ih => exact singleSlashes_cons_congr _ ih

/-- **Halving the runs of slashes until none is left leaves one slash for every run**, if there is room
for as many passes as the text has characters. -/
theorem collapseSlashes_eq {fuel : Nat} {s : List Char} (h : s.length ≤ fuel) :
    collapseSlashes fuel s = singleSlashes s := by
  induction fuel generalizing s with
  | zero => rw [List.length_eq_zero_iff.mp (Nat.le_zero.mp h)]; rfl
  | succ fuel ih =>
    rw [collapseSlashes]
    by_cases hd : ['/', '/'] <:+: s
    · have hpass := replaced_halveSlashes s
      have hshorter := hpass.length_lt (Nat.lt_succ_self 1) hd
      rw [if_pos (Text.occursIn_iff.mpr hd), ih (by omega), singleSlashes_of_replaced hpass]
    · rw [if_neg (mt Text.occursIn_iff.mp hd), singleSlashes_of_single hd]

/-! ## 3. Directories at the start -/

/-- A text is a run of slashes, possibly empty, and something that starts with no slash. -/
theorem exists_run (s : List Char) :
    ∃ n rest, s = List.replicate n '/' ++ rest ∧ rest.head? ≠ some '/' := by
  induction s with
  | nil => exact ⟨0, [], rfl, by simp⟩
  | cons c s ih =>
    by_cases hc : c = '/'
    · obtain ⟨n, rest, rfl, hrest⟩ := ih
      exact ⟨n + 1, rest, by rw [hc, List.replicate_succ, List.cons_append], hrest⟩
    · exact ⟨0, c :: s, rfl, by simpa using hc⟩

/-- A name with a slash behind it stands in front of a text exactly if it is the first name of the text
and a slash is behind it there. -/
theorem name_prefix_iff {name w rest : List Char} (hname : '/' ∉ name) (hw : '/' ∉ w)
    (hrest : ∀ c ∈ rest.head?, c = '/') : name ++ ['/'] <+: w ++ rest ↔ name = w ∧ rest ≠ [] := by
  have hstop : ∀ {u : List Char} (back : List Char), '/' ∉ u → (∀ c ∈ back.head?, c = '/') →
      (u ++ back).takeWhile (· ≠ '/') = u := fun _ hu hb =>
    (Text.takeWhile_stop (fun d hd => by simpa using ne_of_mem_of_not_mem hd hu)
      fun d hd => by simpa using hb d hd).1
  constructor
  · rintro ⟨more, h⟩
    rw [List.append_assoc, List.singleton_append] at h
    obtain rfl : name = w := by
      rw [← hstop ('/' :: more) hname (by simp), h, hstop rest hw hrest]
    refine ⟨rfl, ?_⟩
    rintro rfl
    simp at h
  · rintro ⟨rfl, hne⟩
    obtain ⟨c, more, rfl⟩ := List.exists_cons_of_ne_nil hne
    rw [hrest c rfl]
    exact ⟨more, by simp⟩

/-- The first name of a text and what follows it are the same before and after. -/
theorem name_prefix_singleSlashes_iff {name s : List Char} (hname : '/' ∉ name) :
    name ++ ['/'] <+: singleSlashes s ↔ name ++ ['/'] <+: s := by
  have hw : '/' ∉ s.takeWhile (· ≠ '/') := fun h => by simpa using List.mem_takeWhile_imp h
  have hrest : ∀ c ∈ (s.dropWhile (· ≠ '/')).head?, c = '/' := fun c hc => by
    simpa using Text.dropWhile_stop (· ≠ '/') s c hc
  have hempty : ∀ t, singleSlashes t ≠ [] ↔ t ≠ [] := fun t => by
    rw [Ne, Ne, ← List.head?_eq_none_iff, head?_singleSlashes, List.head?_eq_none_iff]
  rw [← List.takeWhile_append_dropWhile (p := (· ≠ '/')) (l := s), singleSlashes_append hw,
    name_prefix_iff hname hw hrest, name_prefix_iff hname hw (by rwa [head?_singleSlashes]), hempty]

/-- **A text with single slashes starts with a directory exactly if the text itself starts with it, but
for further slashes in front.** -/
theorem prefix_singleSlashes_iff {name s : List Char} (hname : '/' ∉ name) (hne : name ≠ []) :
    '/' :: (name ++ ['/']) <+: singleSlashes s ↔
      ∃ n, List.replicate n '/' ++ '/' :: (name ++ ['/']) <+: s := by
  constructor
  · intro h
    obtain ⟨n, rest, rfl, hrest⟩ := exists_run s
    cases n with
    | zero =>
      rw [List.replicate_zero, List.nil_append] at h
      obtain ⟨more, hmore⟩ := h
      rw [← head?_singleSlashes, ← hmore] at hrest
      exact absurd rfl hrest
    | succ n =>
      rw [singleSlashes_run n hrest, List.cons_prefix_cons, name_prefix_singleSlashes_iff hname] at h
      obtain ⟨-, more, rfl⟩ := h
      exact ⟨n, more, by simp [List.replicate_succ']⟩
  · rintro ⟨n, more, rfl⟩
    have hfirst : (name ++ '/' :: more).head? ≠ some '/' := by
      rw [List.head?_append_of_ne_nil _ hne]
      exact fun h => hname (List.mem_of_mem_head? h)
    obtain ⟨tail, htail⟩ := List.head?_eq_some_iff.mp (head?_singleSlashes ('/' :: more))
    have hs : List.replicate n '/' ++ '/' :: (name ++ ['/']) ++ more =
        List.replicate (n + 1) '/' ++ (name ++ '/' :: more) := by
      simp [List.replicate_succ']
    rw [hs, singleSlashes_run n hfirst, singleSlashes_append hname, htail]
    exact ⟨tail, by simp⟩

/-! ## 4. Accepted paths -/

/-- The name of a directory that is written with a slash in front and behind. -/
def directoryName (start : String) : List Char := (start.toList.drop 1).dropLast

theorem sensitiveStarts_named : ∀ start ∈ sensitiveStarts,
    start.toList = '/' :: (directoryName start ++ ['/']) ∧ '/' ∉ directoryName start ∧
      directoryName start ≠ [] := by
  decide

/-- None of these directories lies in another one. -/
theorem sensitiveStarts_apart : ∀ start ∈ sensitiveStarts, ∀ other ∈ sensitiveStarts,
    start.toList <+: other.toList → start = other := by
  decide

/-- **When a path is accepted, and as what.** -/
theorem filePath_eq_ok_iff {p q : List Char} : filePath p = .ok q ↔
    ¬ ['.', '.'] <:+: withoutNull p ∧ (∀ start ∈ sensitiveStarts, ¬ start.toList <+: withoutNull p) ∧
      q = singleSlashes (withoutNull p) ∧ q.length ≤ 256 := by
  unfold filePath within
  dsimp only
  rw [collapseSlashes_eq (Nat.le_refl _)]
  by_cases hdots : ['.', '.'] <:+: withoutNull p
  · rw [if_pos (Text.occursIn_iff.mpr hdots)]
    exact iff_of_false nofun fun h => h.1 hdots
  rw [if_neg (mt Text.occursIn_iff.mp hdots)]
  cases hfind : sensitiveStarts.find? fun start => Text.startsWith start.toList (withoutNull p) with
  | some start =>
    have hstart := List.find?_some hfind
    exact iff_of_false nofun fun h =>
      h.2.1 start (List.mem_of_find?_eq_some hfind) (Text.startsWith_iff.mp hstart)
  | none =>
    have hnone : ∀ start ∈ sensitiveStarts, ¬ start.toList <+: withoutNull p := fun start hs hp =>
      List.find?_eq_none.mp hfind start hs (Text.startsWith_iff.mpr hp)
    dsimp only
    split
    · next hlength =>
      rw [Except.ok.injEq]
      exact ⟨fun h => ⟨hdots, hnone, h.symm, h ▸ hlength⟩, fun h => h.2.2.1.symm⟩
    · next hlength =>
      exact iff_of_false nofun fun h => hlength (h.2.2.1 ▸ h.2.2.2)

/-- A path in a sensitive directory is refused, and the error names the directory. -/
theorem filePath_of_sensitive {p : List Char} (hnull : Char.ofNat 0 ∉ p)
    (hdots : ¬ ['.', '.'] <:+: p) {start : String} (hs : start ∈ sensitiveStarts)
    (hp : start.toList <+: p) : filePath p = .error (.sensitiveDirectory start) := by
  unfold filePath
  rw [withoutNull_of_not_mem hnull]
  dsimp only
  rw [if_neg (mt Text.occursIn_iff.mp hdots)]
  cases hfind : sensitiveStarts.find? fun start => Text.startsWith start.toList p with
  | none => exact absurd (Text.startsWith_iff.mpr hp) (List.find?_eq_none.mp hfind start hs)
  | some other =>
    have hother := List.mem_of_find?_eq_some hfind
    have hpo := List.find?_some hfind
    -- of two directories that a path starts with, the one starts with the other
    obtain rfl : start = other :=
      (List.prefix_or_prefix_of_prefix hp (Text.startsWith_iff.mp hpo)).elim
        (sensitiveStarts_apart _ hs _ hother) fun h => (sensitiveStarts_apart _ hother _ hs h).symm
    rfl

/-- **What is said of an accepted path** `q`, given as `p`: it has no null character, no two dots and no
two slashes in a row, and at most 256 characters. It lies in a sensitive directory exactly if `p` does
behind more than one slash, as the directories are looked for before slashes are collapsed. If it lies in
none, accepting it again changes nothing; if it lies in one, it is refused the second time. -/
structure AcceptedPath (p q : List Char) : Prop where
  noNull : Char.ofNat 0 ∉ q
  noTraversal : ¬ ['.', '.'] <:+: q
  noDoubled : ¬ ['/', '/'] <:+: q
  short : q.length ≤ 256
  sensitive : ∀ start ∈ sensitiveStarts, start.toList <+: q ↔
    ∃ n, List.replicate (n + 1) '/' ++ start.toList <+: withoutNull p
  again : (∀ start ∈ sensitiveStarts, ¬ start.toList <+: q) → filePath q = .ok q
  refused : ∀ start ∈ sensitiveStarts, start.toList <+: q →
    filePath q = .error (.sensitiveDirectory start)

/-- **Accepted paths are safe in the form they are returned, but for sensitive directories behind more than
one slash.** -/
theorem filePath_accepted {p q : List Char} (h : filePath p = .ok q) : AcceptedPath p q := by
  obtain ⟨hdots, hstarts, rfl, hshort⟩ := filePath_eq_ok_iff.mp h
  have hnull : Char.ofNat 0 ∉ singleSlashes (withoutNull p) := fun hm =>
    not_mem_withoutNull p ((List.destutter_sublist _ _).subset hm)
  have hdots' : ¬ ['.', '.'] <:+: singleSlashes (withoutNull p) :=
    isChain_iff_not_doubled.mp (isChain_singleSlashes (isChain_iff_not_doubled.mpr hdots))
  refine ⟨hnull, hdots', not_doubled_singleSlashes _, hshort, ?_, ?_, ?_⟩
  · intro start hs
    obtain ⟨hname, hslash, hne⟩ := sensitiveStarts_named start hs
    have hp := hstarts start hs
    rw [hname] at hp ⊢
    rw [prefix_singleSlashes_iff hslash hne]
    constructor
    · rintro ⟨n, hn⟩
      cases n with
      | zero => exact absurd hn hp
      | succ n => exact ⟨n, hn⟩
    · rintro ⟨n, hn⟩
      exact ⟨n + 1, hn⟩
  · intro hnone
    refine filePath_eq_ok_iff.mpr ?_
    rw [withoutNull_of_not_mem hnull]
    exact ⟨hdots', hnone, (singleSlashes_of_single (not_doubled_singleSlashes _)).symm, hshort⟩
  · exact fun start hs => filePath_of_sensitive hnull hdots' hs

/-- A path with runs of slashes and a null character. -/
theorem worked_path_accepted : filePath "/home/me//wo\x00rk///x".toList = .ok "/home/me/work/x".toList ∧
    AcceptedPath "/home/me//wo\x00rk///x".toList "/home/me/work/x".toList := by
  have h : filePath "/home/me//wo\x00rk///x".toList = .ok "/home/me/work/x".toList := by
    decide +kernel
  exact ⟨h, filePath_accepted h⟩

/-- Behind two slashes a sensitive directory is not found, and the path that is returned lies in it. -/
theorem doubled_start_passes : ¬ ∀ p q, filePath p = .ok q →
    (∀ start ∈ sensitiveStarts, ¬ start.toList <+: q) ∧ filePath q = .ok q := by
  intro h
  have hpasses : filePath "//etc/passwd".toList = .ok "/etc/passwd".toList := by decide +kernel
  exact (h _ _ hpasses).1 "/etc/" (by decide) (by decide)

end Runbook.Sanitize
