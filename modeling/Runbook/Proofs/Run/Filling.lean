import Mathlib.Data.List.Forall2
import Runbook.Proofs.Fallible
import Runbook.Proofs.Run.Action
import Runbook.Proofs.Template
import Runbook.Run.Prompting

/-!
# What filling in missing variables does

The names of a workflow that have no value are treated one after the other: a line is read for a name
if lines are read at all, and the name gets a value by the line and by its declaration, or the filling
in ends.

* `Run.ask`, `Run.settled`: the line for a name, and what the name gets for it;
* `Run.fillName_apply`: one name; `Run.Treats`: names treated one after the other;
* `Run.fillNames_cases`: either all names are treated, or those in front of one that fails;
* `Run.FilledIn`, **`Run.fillMissing_filledIn`**: what filling in leaves, and that doing it again does
  nothing.
-/

namespace Runbook.Run

variable {σ : Type} {world : World σ} {w : Workflow} {interactive : Bool}

/-! ## 1. One name -/

/-- The line for a name; none is read where nothing is asked. -/
def ask (world : World σ) (w : Workflow) (interactive : Bool) (name : String) (v : σ) :
    Except Fault (Option String) × σ :=
  if interactive then
    ((world.readLine (promptText w name) v).1.map some, (world.readLine (promptText w name) v).2)
  else (.ok none, v)

/-- The events of asking for names. -/
def prompts (w : Workflow) (interactive : Bool) (names : List String) : List Event :=
  if interactive then names.map fun name => .asked (promptText w name) else []

/-- What stands on a line, without the blanks around it; nothing if there is no line. -/
def entry (line : Option String) : String :=
  line.elim "" fun l => String.ofList (Text.trim l.toList)

/-- What a name gets for a line: what stands on it, or else the default of its first declaration. If
there is neither, a required name ends the filling in, and another one is empty if a line was read and
gets nothing if not. -/
def settled (w : Workflow) (name : String) (line : Option String) :
    Except Signal (Option String) :=
  if entry line ≠ "" then .ok (some (entry line))
  else
    match (w.getVariable? name).bind (·.defaultValue) with
    | some standard => .ok (some standard)
    | none =>
      if (w.getVariable? name).any (·.required) then .error (.missingVariable name)
      else .ok (line.map fun _ => "")

/-- The state with a value for a name, if there is one. -/
def withValue (s : RunState σ) (name : String) : Option String → RunState σ
  | some value => { s with context := s.context.put name value }
  | none => s

theorem entered_apply (world : World σ) (w : Workflow) (interactive : Bool) (name : String)
    (s : RunState σ) :
    entered world w name interactive s = match ask world w interactive name s.world with
      | (.ok line, v) => (.ok (entry line), s.told (prompts w interactive [name]) v)
      | (.error fault, v) => (.error (.raised fault), s.told (prompts w interactive [name]) v) := by
  unfold entered ask prompts
  cases interactive with
  | false => exact congrArg _ (RunState.told_nil s).symm
  | true =>
    simp only [if_true, bind_apply, readLine_apply]
    cases (world.readLine (promptText w name) s.world).1 <;> rfl

/-- What a name gets where nothing was entered. -/
theorem standardValue_apply {line : Option String} (h : entry line = "") (w : Workflow)
    (name : String) (s : RunState σ) :
    standardValue w name line.isSome s = (settled w name line, s) := by
  unfold standardValue settled
  rw [if_neg (not_not_intro h)]
  have hempty : (if line.isSome = true then some "" else none) = line.map fun _ => "" := by
    cases line <;> rfl
  cases w.getVariable? name with
  | none => exact congrArg (fun value => (Except.ok value, s)) hempty
  | some v =>
    dsimp only [Option.bind_some, Option.any_some]
    cases v.defaultValue with
    | some standard => rfl
    | none =>
      dsimp only
      by_cases hr : v.required = true
      · rw [if_pos hr, if_pos hr]
        rfl
      · rw [if_neg hr, if_neg hr]
        exact congrArg (fun value => (Except.ok value, s)) hempty

theorem isSome_of_ask {name : String} {v v' : σ} {line : Option String}
    (h : ask world w interactive name v = (.ok line, v')) : line.isSome = interactive := by
  unfold ask at h
  cases interactive with
  | false =>
    cases h
    rfl
  | true =>
    simp only [if_true, Prod.mk.injEq] at h
    obtain ⟨l, -, rfl⟩ := map_eq_ok.mp h.1
    rfl

/-- **One name: its line is read, and it gets what the line and its declaration give it.** -/
theorem fillName_apply (world : World σ) (w : Workflow) (interactive : Bool) (name : String)
    (s : RunState σ) :
    fillName world w interactive name s = match ask world w interactive name s.world with
      | (.error fault, v) => (.error (.raised fault), s.told (prompts w interactive [name]) v)
      | (.ok line, v) =>
        match settled w name line with
        | .ok value => (.ok (), withValue (s.told (prompts w interactive [name]) v) name value)
        | .error signal => (.error signal, s.told (prompts w interactive [name]) v) := by
  unfold fillName
  rw [bind_apply, entered_apply]
  rcases ha : ask world w interactive name s.world with ⟨fault | line, v⟩
  · rfl
  · dsimp only
    by_cases he : entry line = ""
    · rw [if_neg (not_not_intro he), bind_apply, ← isSome_of_ask ha, standardValue_apply he]
      rcases settled w name line with signal | _ | value <;> rfl
    · rw [if_pos he, settled, if_pos he]
      rfl

/-- Nothing but a required name without default ends the filling in at a name. -/
theorem signal_of_settled {name : String} {line : Option String} {signal : Signal}
    (h : settled w name line = .error signal) : signal = .missingVariable name := by
  unfold settled at h
  split at h
  · cases h
  · split at h
    · cases h
    · split at h
      · cases h
        rfl
      · cases h

/-- A name for which a line was read gets a value. -/
theorem line_of_settled_none {name : String} {line : Option String}
    (h : settled w name line = .ok none) : line = none := by
  unfold settled at h
  split at h
  · cases h
  · split at h
    · cases h
    · split at h
      · cases h
      · exact Option.map_eq_none_iff.mp (Except.ok.inj h)

/-! ## 2. Names one after the other -/

/-- **Names are treated one after the other**: for each of them there is a line, and it gets what that
gives it. -/
inductive Treats (world : World σ) (w : Workflow) (interactive : Bool) :
    RunState σ → List String → List (Option String) → RunState σ → Prop
  | nil (s : RunState σ) : Treats world w interactive s [] [] s
  | cons {s s' : RunState σ} {name : String} {names : List String} {line value : Option String}
      {lines : List (Option String)} {v : σ}
      (read : ask world w interactive name s.world = (.ok line, v))
      (given : settled w name line = .ok value)
      (rest : Treats world w interactive
        (withValue (s.told (prompts w interactive [name]) v) name value) names lines s') :
      Treats world w interactive s (name :: names) (line :: lines) s'

/-- **A name fails**: its line cannot be read, or it is required and there is nothing to give it. -/
inductive Fails (world : World σ) (w : Workflow) (interactive : Bool) (v : σ) (name : String) :
    Signal → σ → Prop
  | unread {fault : Fault} {v' : σ} (h : ask world w interactive name v = (.error fault, v')) :
      Fails world w interactive v name (.raised fault) v'
  | required {line : Option String} {v' : σ} (h : ask world w interactive name v = (.ok line, v'))
      (hs : settled w name line = .error (.missingVariable name)) :
      Fails world w interactive v name (.missingVariable name) v'

/-- **Either all names are treated, or those in front of one that fails.** -/
theorem fillNames_cases (world : World σ) (w : Workflow) (interactive : Bool) (names : List String)
    (s : RunState σ) :
    (∃ lines s', fillNames world w interactive names s = (.ok (), s') ∧
      Treats world w interactive s names lines s') ∨
    ∃ done name rest lines s₁ signal v, names = done ++ name :: rest ∧
      Treats world w interactive s done lines s₁ ∧
      Fails world w interactive s₁.world name signal v ∧
      fillNames world w interactive names s =
        (.error signal, s₁.told (prompts w interactive [name]) v) := by
  induction names generalizing s with
  | nil => exact Or.inl ⟨[], s, rfl, .nil s⟩
  | cons name names ih =>
    unfold fillNames
    rw [bind_apply, fillName_apply]
    rcases ha : ask world w interactive name s.world with ⟨fault | line, v⟩
    · exact Or.inr ⟨[], name, names, [], s, _, v, rfl, .nil s, .unread ha, rfl⟩
    dsimp only
    cases hs : settled w name line with
    | error signal =>
      obtain rfl := signal_of_settled hs
      exact Or.inr ⟨[], name, names, [], s, _, v, rfl, .nil s, .required ha hs, rfl⟩
    | ok value =>
      rcases ih (withValue (s.told (prompts w interactive [name]) v) name value) with
        ⟨lines, s', hf, ht⟩ | ⟨done, other, rest, lines, s₁, signal, v', rfl, ht, hfail, hf⟩
      · exact Or.inl ⟨line :: lines, s', hf, .cons ha hs ht⟩
      · exact Or.inr ⟨name :: done, other, rest, line :: lines, s₁, signal, v', rfl,
          .cons ha hs ht, hfail, hf⟩

/-- The lines that are read for names, from a state of the world to a later one. -/
inductive Lines (world : World σ) (w : Workflow) (interactive : Bool) :
    σ → List String → List (Option String) → σ → Prop
  | nil (v : σ) : Lines world w interactive v [] [] v
  | cons {v v₁ v₂ : σ} {name : String} {names : List String} {line : Option String}
      {lines : List (Option String)} (read : ask world w interactive name v = (.ok line, v₁))
      (rest : Lines world w interactive v₁ names lines v₂) :
      Lines world w interactive v (name :: names) (line :: lines) v₂

theorem Lines.isSome {v v' : σ} {names : List String} {lines : List (Option String)}
    (h : Lines world w interactive v names lines v') :
    ∀ line ∈ lines, line.isSome = interactive := by
  induction h with
  | nil v => exact List.forall_mem_nil _
  | cons read _ ih => exact List.forall_mem_cons.mpr ⟨isSome_of_ask read, ih⟩

theorem prompts_append (w : Workflow) (interactive : Bool) (a b : List String) :
    prompts w interactive (a ++ b) = prompts w interactive a ++ prompts w interactive b := by
  unfold prompts
  cases interactive <;> simp

section Treated

variable {s s' : RunState σ} {names : List String} {lines : List (Option String)}

@[simp] theorem withValue_events (s : RunState σ) (name : String) (value : Option String) :
    (withValue s name value).events = s.events := by
  cases value <;> rfl

@[simp] theorem withValue_world (s : RunState σ) (name : String) (value : Option String) :
    (withValue s name value).world = s.world := by
  cases value <;> rfl

theorem Treats.reads (h : Treats world w interactive s names lines s') :
    Lines world w interactive s.world names lines s'.world := by
  induction h with
  | nil s => exact .nil s.world
  | cons read _ _ ih =>
    rw [withValue_world, RunState.told_world] at ih
    exact .cons read ih

theorem Treats.events (h : Treats world w interactive s names lines s') :
    s'.events = s.events ++ prompts w interactive names := by
  induction h with
  | nil s => unfold prompts; cases interactive <;> simp
  | cons _ _ _ ih =>
    rw [ih, withValue_events, RunState.told_events, List.append_assoc, ← prompts_append]
    rfl

/-- Treating names changes values and talks to the world. -/
theorem Treats.rest_eq (h : Treats world w interactive s names lines s') :
    s' = { s with context := s'.context, events := s'.events, world := s'.world } := by
  induction h with
  | nil s => rfl
  | @cons s s' name names line value lines v read given rest ih =>
    rw [ih]
    cases value <;> rfl

theorem keys_withValue (s : RunState σ) (value : Option String) {name : String}
    (h : name ∉ Assoc.keys s.context) :
    ∃ added : Context, (withValue s name value).context = s.context ++ added ∧
      (Assoc.keys added).Sublist [name] ∧ added.get? name = value := by
  cases value with
  | none => exact ⟨[], (List.append_nil _).symm, List.nil_sublist _, rfl⟩
  | some value =>
    exact ⟨[(name, value)], Assoc.put_of_not_mem value h, List.Sublist.refl _, by simp [Assoc.get?]⟩

/-- **New names are bound behind those that were bound, in the order of the names, and each of them to
what it got.** -/
theorem Treats.context (h : Treats world w interactive s names lines s') (hn : names.Nodup)
    (hfree : ∀ name ∈ names, name ∉ Assoc.keys s.context) :
    (∃ added : Context, s'.context = s.context ++ added ∧ (Assoc.keys added).Sublist names) ∧
      List.Forall₂ (fun name line => settled w name line = .ok (s'.context.get? name)) names
        lines := by
  induction h with
  | nil s => exact ⟨⟨[], (List.append_nil _).symm, List.Sublist.refl _⟩, .nil⟩
  | @cons s s' name names line value lines v read given rest ih =>
    obtain ⟨hname, hn⟩ := List.nodup_cons.mp hn
    obtain ⟨hfirst, hfree⟩ := List.forall_mem_cons.mp hfree
    obtain ⟨here, hhere, hkeys, hget⟩ :=
      keys_withValue (s.told (prompts w interactive [name]) v) value hfirst
    rw [RunState.told_context] at hhere
    obtain ⟨⟨added, hadded, hsub⟩, hall⟩ := ih hn (by
      intro other hother hmem
      rw [hhere, Assoc.keys, List.map_append, List.mem_append] at hmem
      rcases hmem with hmem | hmem
      · exact hfree other hother hmem
      · exact hname (List.mem_singleton.mp (hkeys.subset hmem) ▸ hother))
    refine ⟨⟨here ++ added, ?_, ?_⟩, .cons ?_ hall⟩
    · rw [hadded, hhere, List.append_assoc]
    · rw [Assoc.keys, List.map_append]
      exact hkeys.append hsub
    · -- no later name is this one, so the value is found behind the old context
      have hold : Assoc.get? s.context name = none := by
        rw [← Option.not_isSome_iff_eq_none, ← Assoc.mem_keys_iff]
        exact hfirst
      have hlater : Assoc.get? added name = none := by
        rw [← Option.not_isSome_iff_eq_none, ← Assoc.mem_keys_iff]
        exact fun hmem => hname (hsub.subset hmem)
      rw [given, hadded, hhere, Assoc.get?_append, Assoc.get?_append, hold, hget, hlater]
      simp

end Treated

/-! ## 3. Missing names -/

theorem mem_missingNames {context : Context} {name : String} :
    name ∈ missingNames w context ↔ name ∈ w.placeholderNames ∧ context.get? name = none ∧
      name ∉ capturedNames w.steps := by
  unfold missingNames Assoc.contains
  simp [List.mem_filter]

theorem nodup_missingNames (w : Workflow) (context : Context) : (missingNames w context).Nodup :=
  (nodup_distinct _).filter _

theorem not_mem_keys_of_missing {context : Context} {name : String}
    (h : name ∈ missingNames w context) : name ∉ Assoc.keys context := by
  rw [Assoc.mem_keys_iff, (mem_missingNames.mp h).2.1]
  simp

/-- **What comes of filling in the missing variables of a workflow from a state.** -/
structure FilledIn (world : World σ) (w : Workflow) (interactive : Bool) (s : RunState σ)
    (r : Except Signal Unit) (s' : RunState σ) : Prop where
  /-- The names to be treated are those of the workflow that have no value and are captured by no
  condition, -/
  missing : ∀ name, name ∈ missingNames w s.context ↔ name ∈ w.placeholderNames ∧
    s.context.get? name = none ∧ name ∉ capturedNames w.steps
  /-- in the order of its templates, -/
  ordered : (missingNames w s.context).Sublist w.placeholderNames
  /-- each of them once. -/
  once : (missingNames w s.context).Nodup
  /-- Bindings that were there stay as they were and where they were; new ones come behind them, in
  the order of the names, and are for names to be treated. -/
  grown : ∃ added : Context, s'.context = s.context ++ added ∧
    (Assoc.keys added).Sublist (missingNames w s.context)
  kept : ∀ name value, s.context.get? name = some value → s'.context.get? name = some value
  /-- Nothing changes but values, events and the world. -/
  unchanged : s' = { s with context := s'.context, events := s'.events, world := s'.world }
  /-- If it succeeds, every name has had its line and got what that gives it. -/
  success : r = .ok () → ∃ lines,
    Lines world w interactive s.world (missingNames w s.context) lines s'.world ∧
    s'.events = s.events ++ prompts w interactive (missingNames w s.context) ∧
    List.Forall₂ (fun name line => settled w name line = .ok (s'.context.get? name))
      (missingNames w s.context) lines
  /-- If it fails, so it does at a name: those in front of it have got their values, and it and those
  behind it have none. -/
  failure : ∀ signal, r = .error signal → ∃ done name rest lines v,
    missingNames w s.context = done ++ name :: rest ∧
    Lines world w interactive s.world done lines v ∧
    s'.events = s.events ++ prompts w interactive (done ++ [name]) ∧
    List.Forall₂ (fun name line => settled w name line = .ok (s'.context.get? name)) done lines ∧
    (∀ other ∈ name :: rest, s'.context.get? other = none) ∧
    Fails world w interactive v name signal s'.world
  /-- Where lines are read, success binds every name. -/
  bound : r = .ok () → interactive = true →
    ∀ name ∈ missingNames w s.context, (s'.context.get? name).isSome = true
  /-- After success, filling in again in the same way does nothing, whatever the world is. -/
  again : r = .ok () → ∀ world' : World σ, fillMissing world' w interactive s' = (.ok (), s')

/-- A name that gets nothing without a line is passed over. -/
theorem fillName_of_settled_none {name : String} (h : settled w name none = .ok none)
    (world : World σ) (s : RunState σ) : fillName world w false name s = (.ok (), s) := by
  rw [fillName_apply]
  unfold ask prompts
  simp only [Bool.false_eq_true, if_false, h]
  exact congrArg _ (RunState.told_nil s)

theorem fillNames_of_settled_none {names : List String}
    (h : ∀ name ∈ names, settled w name none = .ok none) (world : World σ) (s : RunState σ) :
    fillNames world w false names s = (.ok (), s) := by
  induction names with
  | nil => rfl
  | cons name names ih =>
    obtain ⟨hname, hrest⟩ := List.forall_mem_cons.mp h
    unfold fillNames
    rw [bind_apply, fillName_of_settled_none hname]
    exact ih hrest

/-- Every name that was treated had a line, or none as all others, and got what that gives it. -/
theorem Treats.exists_line {s s' : RunState σ} {lines : List (Option String)}
    (ht : Treats world w interactive s (missingNames w s.context) lines s') {name : String}
    (h : name ∈ missingNames w s.context) :
    ∃ line, line.isSome = interactive ∧ settled w name line = .ok (s'.context.get? name) := by
  have hall := (ht.context (nodup_missingNames w s.context) fun _ => not_mem_keys_of_missing).2
  obtain ⟨i, hi, rfl⟩ := List.getElem_of_mem h
  have hi' : i < lines.length := hall.length_eq ▸ hi
  exact ⟨lines[i], ht.reads.isSome _ (List.getElem_mem hi'), hall.get hi hi'⟩

/-- A name that is still missing after all were treated got nothing, and no line was read for it. -/
theorem Treats.of_still_missing {s s' : RunState σ} {lines : List (Option String)}
    (ht : Treats world w interactive s (missingNames w s.context) lines s') {name : String}
    (h : name ∈ missingNames w s'.context) :
    interactive = false ∧ settled w name none = .ok none := by
  obtain ⟨⟨added, hadded, -⟩, -⟩ := ht.context (nodup_missingNames w s.context)
    fun _ => not_mem_keys_of_missing
  obtain ⟨hused, hnone, hfree⟩ := mem_missingNames.mp h
  have hold : s.context.get? name = none := by
    rw [hadded, Assoc.get?_append, Option.or_eq_none_iff] at hnone
    exact hnone.1
  obtain ⟨line, hline, hgiven⟩ := ht.exists_line (mem_missingNames.mpr ⟨hused, hold, hfree⟩)
  rw [hnone] at hgiven
  obtain rfl := line_of_settled_none hgiven
  exact ⟨hline.symm, hgiven⟩

/-- **Filling in again after success does nothing.** -/
theorem Treats.again {s s' : RunState σ} {lines : List (Option String)}
    (ht : Treats world w interactive s (missingNames w s.context) lines s') (world' : World σ) :
    fillMissing world' w interactive s' = (.ok (), s') := by
  show fillNames world' w interactive (missingNames w s'.context) s' = _
  cases interactive with
  | false => exact fillNames_of_settled_none (fun name h => (ht.of_still_missing h).2) world' s'
  | true =>
    have hnone : missingNames w s'.context = [] :=
      List.eq_nil_iff_forall_not_mem.mpr fun name h => Bool.noConfusion (ht.of_still_missing h).1
    rw [hnone]
    rfl

/-- What was bound in front of new bindings is bound as before. -/
theorem get?_of_grown {context context' added : Context} (h : context' = context ++ added)
    {name value : String} (hv : context.get? name = some value) :
    context'.get? name = some value := by
  rw [h, Assoc.get?_append, hv]
  rfl

/-- Where lines are read, every name that was treated is bound. -/
theorem Treats.bound {s s' : RunState σ} {lines : List (Option String)}
    (ht : Treats world w interactive s (missingNames w s.context) lines s')
    (hi : interactive = true) {name : String} (h : name ∈ missingNames w s.context) :
    (s'.context.get? name).isSome = true := by
  subst hi
  obtain ⟨line, hline, hgiven⟩ := ht.exists_line h
  by_contra hnone
  rw [Option.not_isSome_iff_eq_none.mp hnone] at hgiven
  rw [line_of_settled_none hgiven] at hline
  cases hline

/-- Where all missing names were treated, they have been filled in. -/
theorem Treats.filledIn {s s' : RunState σ} {lines : List (Option String)}
    (ht : Treats world w interactive s (missingNames w s.context) lines s') :
    FilledIn world w interactive s (.ok ()) s' := by
  have hnodup := nodup_missingNames w s.context
  obtain ⟨⟨added, hadded, hsub⟩, hall⟩ := ht.context hnodup fun _ => not_mem_keys_of_missing
  exact {
    missing := fun _ => mem_missingNames
    ordered := List.filter_sublist
    once := hnodup
    grown := ⟨added, hadded, hsub⟩
    kept := fun _ _ h => get?_of_grown hadded h
    unchanged := ht.rest_eq
    success := fun _ => ⟨lines, ht.reads, ht.events, hall⟩
    failure := fun _ h => by cases h
    bound := fun _ hi _ hname => ht.bound hi hname
    again := fun _ => ht.again }

/-- Where a missing name fails, those in front of it have been filled in. -/
theorem Treats.filledIn_upTo {s s' : RunState σ} {done rest : List String} {name : String}
    {lines : List (Option String)} {signal : Signal} {v : σ}
    (hcut : missingNames w s.context = done ++ name :: rest)
    (ht : Treats world w interactive s done lines s')
    (hfail : Fails world w interactive s'.world name signal v) :
    FilledIn world w interactive s (.error signal) (s'.told (prompts w interactive [name]) v) := by
  have hnodup := nodup_missingNames w s.context
  have hfree : ∀ other ∈ done ++ name :: rest, other ∉ Assoc.keys s.context :=
    fun _ ho => not_mem_keys_of_missing (hcut ▸ ho)
  rw [hcut] at hnodup
  obtain ⟨hdone, -, hapart⟩ := List.nodup_append.mp hnodup
  obtain ⟨⟨added, hadded, hsub⟩, hall⟩ := ht.context hdone
    fun other ho => hfree other (List.mem_append_left _ ho)
  -- a name from the failing one on is neither among the old names nor among those before it
  have hunbound : ∀ other ∈ name :: rest,
      (s'.told (prompts w interactive [name]) v).context.get? other = none := by
    intro other hother
    rw [RunState.told_context, ← Option.not_isSome_iff_eq_none, ← Assoc.mem_keys_iff, hadded,
      Assoc.keys, List.map_append, List.mem_append]
    rintro (hold | hnew)
    · exact hfree other (List.mem_append_right _ hother) hold
    · exact hapart other (hsub.subset hnew) other hother rfl
  exact {
    missing := fun _ => mem_missingNames
    ordered := List.filter_sublist
    once := nodup_missingNames w s.context
    grown := ⟨added, hadded, hcut ▸ hsub.trans (List.sublist_append_left _ _)⟩
    kept := fun _ _ h => get?_of_grown hadded h
    unchanged := by
      rw [ht.rest_eq]
      rfl
    success := fun h => by cases h
    failure := fun _ h => by
      cases h
      refine ⟨done, name, rest, lines, s'.world, hcut, ht.reads, ?_, hall, hunbound, hfail⟩
      rw [RunState.told_events, ht.events, List.append_assoc, ← prompts_append]
    bound := fun h => by cases h
    again := fun h => by cases h }

/-- **Filling in treats the missing names one after the other, up to one that fails, and binds each to
what its line and its declaration give it.** -/
theorem fillMissing_filledIn (world : World σ) (w : Workflow) (interactive : Bool) (s : RunState σ) :
    FilledIn world w interactive s (fillMissing world w interactive s).1
      (fillMissing world w interactive s).2 := by
  show FilledIn world w interactive s (fillNames world w interactive _ s).1
    (fillNames world w interactive _ s).2
  rcases fillNames_cases world w interactive (missingNames w s.context) s with
    ⟨lines, s', hf, ht⟩ | ⟨done, name, rest, lines, s₁, signal, v, hcut, ht, hfail, hf⟩
  · rw [hf]
    exact ht.filledIn
  · rw [hf]
    exact ht.filledIn_upTo hcut hfail

end Runbook.Run
