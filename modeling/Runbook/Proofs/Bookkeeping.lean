import Mathlib.Data.List.Induction
import Runbook.Workflow

/-!
# Bookkeeping of workflows

The declarations of a workflow are a list and its profiles a map, and a definition may give the same name to
several declarations and any key to a profile. Whatever is edited afterwards goes by names:

* `lastNamed?`, `lastOfEach`: the last one under a name, and the last ones under all names;
* `Workflow.Edit`, `Workflow.edited`: a variable is declared, a profile added or a use counted, any number of
  times and in any order;
* `declarations_edited`: the list of declarations behind any edits;
* `Workflow.Bookkept`, **`edited_bookkept`**: what is found under a name behind any edits, how the declarations
  stand, and what the counters say.
-/

namespace Runbook

/-! ## 1. The last one under a name -/

section Named

variable {α : Type} (name : α → String)

/-- The last one under a name. -/
def lastNamed? (key : String) (xs : List α) : Option α :=
  (xs.filter fun x => name x = key).getLast?

/-- Those behind which no other one of their name comes. -/
def lastOfEach : List α → List α
  | [] => []
  | x :: rest => if name x ∈ rest.map name then lastOfEach rest else x :: lastOfEach rest

@[simp] theorem lastNamed?_nil (key : String) : lastNamed? name key [] = none := rfl

theorem lastNamed?_concat (key : String) (xs : List α) (x : α) :
    lastNamed? name key (xs ++ [x]) = if name x = key then some x else lastNamed? name key xs := by
  unfold lastNamed?
  by_cases h : name x = key <;> simp [List.filter_append, h]

theorem lastNamed?_eq_none_iff {key : String} {xs : List α} :
    lastNamed? name key xs = none ↔ key ∉ xs.map name := by
  rw [lastNamed?, List.getLast?_eq_none_iff, List.filter_eq_nil_iff]
  simp

/-- One more takes the place of the one under its name, at the end. -/
theorem lastOfEach_concat (xs : List α) (x : α) :
    lastOfEach name (xs ++ [x]) =
      (lastOfEach name xs).filter (fun y => name y ≠ name x) ++ [x] := by
  induction xs with
  | nil => rfl
  | cons y rest ih =>
    by_cases hrest : name y ∈ rest.map name
    · have hmore : name y ∈ (rest ++ [x]).map name := by simp [List.map_append, hrest]
      rw [List.cons_append, lastOfEach, lastOfEach, if_pos hmore, if_pos hrest, ih]
    · rw [List.cons_append, lastOfEach, lastOfEach, if_neg hrest]
      by_cases hyx : name y = name x
      · have hmore : name y ∈ (rest ++ [x]).map name := by simp [hyx]
        rw [if_pos hmore, ih, List.filter_cons_of_neg (by simpa using hyx)]
      · have hmore : name y ∉ (rest ++ [x]).map name := by
          rw [List.map_append, List.mem_append, not_or]
          exact ⟨hrest, by simpa using hyx⟩
        rw [if_neg hmore, ih, List.filter_cons_of_pos (by simpa using hyx), List.cons_append]

/-- **Under each name stands the last one of the name, and no other.** -/
theorem filter_lastOfEach (key : String) (xs : List α) :
    (lastOfEach name xs).filter (fun x => name x = key) = (lastNamed? name key xs).toList := by
  induction xs using List.reverseRecOn with
  | nil => rfl
  | append_singleton xs x ih =>
    rw [lastOfEach_concat, lastNamed?_concat, List.filter_append, List.filter_filter]
    by_cases hx : name x = key
    · have hnone : (lastOfEach name xs).filter
          (fun y => decide (name y = key) && decide (name y ≠ name x)) = [] := by
        rw [List.filter_eq_nil_iff]
        intro y _
        simp [hx]
      rw [hnone, if_pos hx]
      simp [hx]
    · have hsame : (lastOfEach name xs).filter
          (fun y => decide (name y = key) && decide (name y ≠ name x)) =
            (lastOfEach name xs).filter fun y => name y = key := by
        refine List.filter_congr fun y _ => ?_
        by_cases hy : name y = key
        · simp [hy, Ne.symm hx]
        · simp [hy]
      rw [hsame, ih, if_neg hx]
      simp [hx]

end Named

namespace Workflow

/-! ## 2. Edits -/

/-- A change to what is kept beside the steps of a workflow. -/
inductive Edit where
  | declare (v : Variable)
  | addProfile (p : Profile)
  | use (now : Int)
deriving DecidableEq, Repr

namespace Edit

/-- The workflow behind an edit. -/
def apply (w : Workflow) : Edit → Workflow
  | .declare v => w.addVariable v
  | .addProfile p => w.addProfile p
  | .use now => w.markUsed now

/-- The variable that an edit declares. -/
def declaration? : Edit → Option Variable
  | .declare v => some v
  | .addProfile _ => none
  | .use _ => none

/-- The profile that an edit adds. -/
def profile? : Edit → Option Profile
  | .declare _ => none
  | .addProfile p => some p
  | .use _ => none

/-- The time of the use that an edit counts. -/
def time? : Edit → Option Int
  | .declare _ => none
  | .addProfile _ => none
  | .use now => some now

end Edit

/-- The workflow behind edits, made one after the other. -/
def edited (w : Workflow) (edits : List Edit) : Workflow :=
  edits.foldl Edit.apply w

/-- The variables that edits declare, in their order. -/
def declaredBy (edits : List Edit) : List Variable := edits.filterMap Edit.declaration?

/-- The profiles that edits add, in their order. -/
def profilesBy (edits : List Edit) : List Profile := edits.filterMap Edit.profile?

/-- The times of the uses that edits count, in their order. -/
def timesBy (edits : List Edit) : List Int := edits.filterMap Edit.time?

theorem declaredBy_concat (edits : List Edit) (e : Edit) :
    declaredBy (edits ++ [e]) = declaredBy edits ++ e.declaration?.toList := by
  cases h : e.declaration? <;> simp [declaredBy, h]

theorem profilesBy_concat (edits : List Edit) (e : Edit) :
    profilesBy (edits ++ [e]) = profilesBy edits ++ e.profile?.toList := by
  cases h : e.profile? <;> simp [profilesBy, h]

theorem timesBy_concat (edits : List Edit) (e : Edit) :
    timesBy (edits ++ [e]) = timesBy edits ++ e.time?.toList := by
  cases h : e.time? <;> simp [timesBy, h]

theorem edited_concat (w : Workflow) (edits : List Edit) (e : Edit) :
    w.edited (edits ++ [e]) = e.apply (w.edited edits) := by
  simp [edited]

/-- The declarations that no edit replaces. -/
def untouched (w : Workflow) (edits : List Edit) : List Variable :=
  w.declarations.filter fun v => v.name ∉ (declaredBy edits).map (·.name)

/-- **The declarations behind edits**: those that were left alone, in their order, and behind them the last one
of each name, in the order of the edits. -/
theorem declarations_edited (w : Workflow) (edits : List Edit) :
    (w.edited edits).declarations =
      w.untouched edits ++ lastOfEach Variable.name (declaredBy edits) := by
  induction edits using List.reverseRecOn with
  | nil =>
    have hall : w.untouched [] = w.declarations :=
      List.filter_eq_self.mpr fun v _ => by simp [declaredBy]
    rw [hall]
    exact (List.append_nil _).symm
  | append_singleton edits e ih =>
    rw [edited_concat]
    unfold untouched at ih ⊢
    rw [declaredBy_concat]
    cases e with
    | addProfile p => simpa [Edit.apply, addProfile, Edit.declaration?] using ih
    | use now => simpa [Edit.apply, markUsed, Edit.declaration?] using ih
    | declare v =>
      have hleft : w.declarations.filter (fun u => u.name ∉ (declaredBy edits ++ [v]).map (·.name)) =
          (w.declarations.filter fun u => u.name ∉ (declaredBy edits).map (·.name)).filter
            fun u => u.name ≠ v.name := by
        rw [List.filter_filter]
        refine List.filter_congr fun u _ => ?_
        rw [List.map_append, List.map_singleton, ← Bool.decide_and, decide_eq_decide]
        simp only [List.mem_append, List.mem_singleton, not_or]
        exact and_comm
      rw [Edit.apply, addVariable, ih, List.filter_append, Edit.declaration?, Option.toList_some,
        hleft, lastOfEach_concat, List.append_assoc]

/-- The declarations of one name behind edits: the last one that was added, or else those that were there. -/
theorem filter_declarations_edited (w : Workflow) (edits : List Edit) (name : String) :
    (w.edited edits).declarations.filter (fun v => v.name = name) =
      match lastNamed? Variable.name name (declaredBy edits) with
      | some v => [v]
      | none => w.declarations.filter fun v => v.name = name := by
  have hkept : (w.untouched edits).filter (fun v => v.name = name) =
      if name ∈ (declaredBy edits).map (·.name) then []
      else w.declarations.filter fun v => v.name = name := by
    unfold untouched
    rw [List.filter_filter]
    split
    · rename_i hname
      rw [List.filter_eq_nil_iff]
      rintro v -
      simp only [Bool.and_eq_true, decide_eq_true_eq, not_and]
      rintro rfl
      exact not_not_intro hname
    · rename_i hname
      refine List.filter_congr fun v _ => ?_
      by_cases hv : v.name = name
      · rw [hv]
        simp [hname]
      · simp [hv]
  rw [declarations_edited, List.filter_append, filter_lastOfEach, hkept]
  cases hlast : lastNamed? Variable.name name (declaredBy edits) with
  | none => rw [if_neg ((lastNamed?_eq_none_iff _).mp hlast), Option.toList_none, List.append_nil]
  | some v =>
    have hname : name ∈ (declaredBy edits).map (·.name) := by
      by_contra hno
      rw [(lastNamed?_eq_none_iff _).mpr hno] at hlast
      cases hlast
    rw [if_pos hname]
    rfl

theorem getVariable?_eq_head? (w : Workflow) (name : String) :
    w.getVariable? name = (w.declarations.filter fun v => v.name = name).head? :=
  List.head?_filter.symm

theorem getProfile?_edited (w : Workflow) (edits : List Edit) (name : String) :
    (w.edited edits).getProfile? name =
      (lastNamed? Profile.name name (profilesBy edits)).or (w.getProfile? name) := by
  induction edits using List.reverseRecOn with
  | nil => rfl
  | append_singleton edits e ih =>
    rw [edited_concat, profilesBy_concat]
    cases e with
    | declare v => simpa [Edit.apply, addVariable, getProfile?, Edit.profile?] using ih
    | use now => simpa [Edit.apply, markUsed, getProfile?, Edit.profile?] using ih
    | addProfile p =>
      have hput : (Edit.apply (w.edited edits) (.addProfile p)).getProfile? name =
          if p.name = name then some p else (w.edited edits).getProfile? name :=
        Assoc.get?_put _ _ _ _
      rw [hput, Edit.profile?, Option.toList_some, lastNamed?_concat, ih]
      split <;> rfl

theorem counters_edited (w : Workflow) (edits : List Edit) :
    (w.edited edits).useCount = w.useCount + (timesBy edits).length ∧
      (w.edited edits).lastUsed = (timesBy edits).getLast?.or w.lastUsed := by
  induction edits using List.reverseRecOn with
  | nil => simp [edited, timesBy]
  | append_singleton edits e ih =>
    rw [edited_concat, timesBy_concat]
    cases e with
    | declare v => simpa [Edit.apply, addVariable, Edit.time?] using ih
    | addProfile p => simpa [Edit.apply, addProfile, Edit.time?] using ih
    | use now =>
      rw [Edit.time?, Option.toList_some, List.length_append, List.getLast?_concat]
      refine ⟨?_, rfl⟩
      show (w.edited edits).useCount + 1 = _
      rw [ih.1, List.length_singleton]
      omega

/-- Two workflows with the same name, description, steps and tags, made at the same time. -/
structure SameOtherwise (w w' : Workflow) : Prop where
  name : w'.name = w.name
  description : w'.description = w.description
  steps : w'.steps = w.steps
  tags : w'.tags = w.tags
  createdAt : w'.createdAt = w.createdAt

theorem sameOtherwise_edited (w : Workflow) (edits : List Edit) :
    SameOtherwise w (w.edited edits) := by
  induction edits using List.reverseRecOn with
  | nil => exact ⟨rfl, rfl, rfl, rfl, rfl⟩
  | append_singleton edits e ih =>
    rw [edited_concat]
    cases e with
    | declare v => exact ⟨ih.name, ih.description, ih.steps, ih.tags, ih.createdAt⟩
    | addProfile p => exact ⟨ih.name, ih.description, ih.steps, ih.tags, ih.createdAt⟩
    | use now => exact ⟨ih.name, ih.description, ih.steps, ih.tags, ih.createdAt⟩

/-! ## 3. Maps and a counter -/

/-- **What the books of a workflow say behind edits.**

* `declaration`: under a name the last variable that was added is found, or else the first one that was there;
* `once`: a name that was added is declared exactly once;
* `order`: the declarations that were left alone keep their order, and behind them stand the added ones in the
  order in which they were last added;
* `profile`: under a name the last profile that was added is found, or else the one that was under that key;
* `useCount`, `lastUsed`: the uses are counted, and the time is that of the last one;
* `otherwise`: nothing else changes. -/
structure Bookkept (w : Workflow) (edits : List Edit) : Prop where
  declaration : ∀ name, (w.edited edits).getVariable? name =
    (lastNamed? Variable.name name (declaredBy edits)).or (w.getVariable? name)
  once : ∀ v ∈ declaredBy edits,
    ((w.edited edits).declarations.filter fun u => u.name = v.name).length = 1
  order : (w.edited edits).declarations =
    w.untouched edits ++ lastOfEach Variable.name (declaredBy edits)
  profile : ∀ name, (w.edited edits).getProfile? name =
    (lastNamed? Profile.name name (profilesBy edits)).or (w.getProfile? name)
  useCount : (w.edited edits).useCount = w.useCount + (timesBy edits).length
  lastUsed : (w.edited edits).lastUsed = (timesBy edits).getLast?.or w.lastUsed
  otherwise : SameOtherwise w (w.edited edits)

/-- **Behind any edits, declarations and profiles are maps by name and the uses are counted**, whatever the
workflow was before. -/
theorem edited_bookkept (w : Workflow) (edits : List Edit) : w.Bookkept edits where
  declaration name := by
    rw [getVariable?_eq_head?, filter_declarations_edited, getVariable?_eq_head?]
    cases lastNamed? Variable.name name (declaredBy edits) <;> rfl
  once v hv := by
    have hname : v.name ∈ (declaredBy edits).map (·.name) := List.mem_map_of_mem hv
    obtain ⟨u, hu⟩ := Option.ne_none_iff_exists'.mp
      (mt (lastNamed?_eq_none_iff Variable.name).mp (not_not_intro hname))
    rw [filter_declarations_edited, hu]
    rfl
  order := declarations_edited w edits
  profile name := getProfile?_edited w edits name
  useCount := (counters_edited w edits).1
  lastUsed := (counters_edited w edits).2
  otherwise := sameOtherwise_edited w edits

end Workflow

end Runbook
