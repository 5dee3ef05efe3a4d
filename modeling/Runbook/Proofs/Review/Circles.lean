import Mathlib.Data.List.Chain
import Mathlib.Logic.Relation
import Runbook.Proofs.Review.Messages
import Runbook.Proofs.Template

/-!
# The search for a circle of calls

A known workflow calls those that are named in its steps, and the search for a chain of calls goes
through known workflows, none of them twice on one chain:

* `KnownCall`, `LeadsTo`: a call of a known workflow, and a chain of such calls;
* `Opens`, **`wellFounded_opens`**: what the search goes on to, which comes to an end;
* `IsChainTo`, **`isChainTo_of_findChain`**: what is found is a chain to the target;
* `LeadsPast`, **`exists_findChain_of_leadsPast`**: what leads to the target is found;
* **`exists_findChain_iff`**: a chain is found if and only if there is one;
* `turning`, `cycleIssues_eq`: the called names that lead back, and the findings for them;
* `Reviewer.CirclesReported`, **`Reviewer.circles_reported`**: what a review says about circles.
-/

namespace Runbook

namespace Review

variable {calls : Workflow → List String} {known : Assoc String Workflow}

/-! ## 1. Calls -/

/-- A known workflow calls a name. -/
def KnownCall (calls : Workflow → List String) (known : Assoc String Workflow) (a b : String) : Prop :=
  ∃ w, known.get? a = some w ∧ b ∈ calls w

/-- A known workflow leads to a name through calls of known workflows. -/
def LeadsTo (calls : Workflow → List String) (known : Assoc String Workflow) : String → String → Prop :=
  Relation.TransGen (KnownCall calls known)

/-- Every known workflow is kept under its own name. -/
def NamedByKey (known : Assoc String Workflow) : Prop :=
  ∀ key w, known.get? key = some w → w.name = key

theorem namedByKey_of_forall (h : ∀ entry ∈ known, entry.2.name = entry.1) : NamedByKey known :=
  fun _ _ found => h _ (Assoc.mem_of_get? found)

/-! ## 2. The end of the search -/

/-- **What the search goes on to**: with the names on the chain so far, from the workflow of a name
it opens each workflow that it calls. -/
inductive Opens (calls : Workflow → List String) (known : Assoc String Workflow) (target : String) :
    List String × String → List String × String → Prop where
  | call {visited : List String} {name next : String} {w : Workflow}
      (found : known.get? name = some w) (fresh : w.name ∉ visited) (onward : target ∉ calls w)
      (called : next ∈ calls w) :
      Opens calls known target (visited, name) (w.name :: visited, next)

/-- **The search comes to an end**, whatever the workflows call: each step enters one more of
them. -/
theorem wellFounded_opens (target : String) :
    WellFounded fun after before => Opens calls known target before after := by
  refine Subrelation.wf (r := InvImage (· < ·) fun state : List String × String =>
    (unentered known state.1).length) ?_ (InvImage.wf _ Nat.lt_wfRel.wf)
  rintro after before ⟨found, fresh, -, -⟩
  exact unentered_cons_lt found fresh

/-! ## 3. What is found -/

/-- **A chain of calls from a name to the target**: the name, the names between and the target; each
is called by the one before it, and all but the target are known, different and not visited. -/
structure IsChainTo (calls : Workflow → List String) (known : Assoc String Workflow)
    (target : String) (visited : List String) (name : String) (between : List String) : Prop where
  linked : (name :: between ++ [target]).IsChain (KnownCall calls known)
  nodup : (name :: between).Nodup
  known : ∀ n ∈ name :: between, ∃ w, known.get? n = some w
  fresh : ∀ n ∈ name :: between, n ∉ visited

/-- A known workflow that has not been visited and calls the target is a chain of its own. -/
theorem isChainTo_nil {target name : String} {visited : List String} {w : Workflow}
    (found : known.get? name = some w) (fresh : name ∉ visited) (hc : target ∈ calls w) :
    IsChainTo calls known target visited name [] where
  linked := List.isChain_pair.mpr ⟨w, found, hc⟩
  nodup := List.nodup_cons.mpr ⟨List.not_mem_nil, List.nodup_nil⟩
  known _ hn := ⟨w, List.mem_singleton.mp hn ▸ found⟩
  fresh _ hn := List.mem_singleton.mp hn ▸ fresh

/-- A call in front of a chain that does not come back to the caller makes a longer chain. -/
theorem IsChainTo.cons {target name next : String} {visited between : List String} {w : Workflow}
    (found : known.get? name = some w) (fresh : name ∉ visited) (hc : next ∈ calls w)
    (h : IsChainTo calls known target (name :: visited) next between) :
    IsChainTo calls known target visited name (next :: between) where
  linked := List.IsChain.cons_cons ⟨w, found, hc⟩ h.linked
  nodup := List.nodup_cons.mpr
    ⟨fun hn => h.fresh name hn List.mem_cons_self, h.nodup⟩
  known n hn := by
    rcases List.mem_cons.mp hn with rfl | hn
    · exact ⟨w, found⟩
    · exact h.known n hn
  fresh n hn := by
    rcases List.mem_cons.mp hn with rfl | hn
    · exact fresh
    · exact fun hv => h.fresh n hn (List.mem_cons_of_mem _ hv)

/-- **What the search finds is a chain to the target.** -/
theorem isChainTo_of_findChain (hown : NamedByKey known) {target name : String}
    {visited chain : List String} (h : findChain calls known target visited name = some chain) :
    ∃ between, chain = name :: between ++ [target] ∧
      IsChainTo calls known target visited name between := by
  fun_induction findChain calls known target visited name generalizing chain with
  | case1 visited name unknown => cases h
  | case2 visited name w found entered => cases h
  | case3 visited name w found fresh hc =>
    cases h
    obtain rfl := hown name w found
    exact ⟨[], rfl, isChainTo_nil found fresh hc⟩
  | case4 visited name w found fresh onward ih =>
    obtain ⟨rest, hrest, rfl⟩ := Option.map_eq_some_iff.mp h
    obtain ⟨next, hc, hnext⟩ := List.exists_of_findSome?_eq_some hrest
    obtain ⟨between, rfl, hchain⟩ := ih next hnext
    obtain rfl := hown name w found
    exact ⟨next :: between, rfl, hchain.cons found fresh hc⟩

/-! ## 4. What leads to the target is found -/

/-- A name leads to the target through known workflows that have not been visited. -/
inductive LeadsPast (calls : Workflow → List String) (known : Assoc String Workflow)
    (target : String) (visited : List String) : String → Prop where
  | last {name : String} {w : Workflow} (found : known.get? name = some w)
      (fresh : name ∉ visited) (called : target ∈ calls w) :
      LeadsPast calls known target visited name
  | call {name next : String} {w : Workflow} (found : known.get? name = some w)
      (fresh : name ∉ visited) (called : next ∈ calls w)
      (onward : LeadsPast calls known target visited next) :
      LeadsPast calls known target visited name

/-- **A workflow on the way can be left for good**: where it does not call the target itself, the way
from any name avoids it, or one of the names that it calls leads on without coming back. -/
theorem LeadsPast.avoid {target name a : String} {visited : List String} {w : Workflow}
    (found : known.get? name = some w) (onward : target ∉ calls w)
    (h : LeadsPast calls known target visited a) :
    LeadsPast calls known target (name :: visited) a ∨
      ∃ next ∈ calls w, LeadsPast calls known target (name :: visited) next := by
  -- along the way, from its end: the last time that it comes to the workflow is the one that counts
  induction h with
  | @last a u hu fresh called =>
    by_cases ha : a = name
    · subst ha
      cases found.symm.trans hu
      exact absurd called onward
    · exact Or.inl (.last hu (by simp [ha, fresh]) called)
  | @call a next u hu fresh called _ ih =>
    rcases ih with ih | ih
    · by_cases ha : a = name
      · subst ha
        cases found.symm.trans hu
        exact Or.inr ⟨next, called, ih⟩
      · exact Or.inl (.call hu (by simp [ha, fresh]) called ih)
    · exact Or.inr ih

theorem LeadsPast.exists_found {target name : String} {visited : List String}
    (h : LeadsPast calls known target visited name) :
    name ∉ visited ∧ ∃ w, known.get? name = some w := by
  cases h with
  | last found fresh => exact ⟨fresh, _, found⟩
  | call found fresh => exact ⟨fresh, _, found⟩

/-- **Where there is a way to the target, the search finds one.** -/
theorem exists_findChain_of_leadsPast (hown : NamedByKey known) {target name : String}
    {visited : List String} (h : LeadsPast calls known target visited name) :
    (findChain calls known target visited name).isSome = true := by
  fun_induction findChain calls known target visited name with
  | case1 visited name unknown =>
    obtain ⟨-, w, found⟩ := h.exists_found
    rw [unknown] at found
    cases found
  | case2 visited name w found entered =>
    exact absurd (hown name w found ▸ entered) h.exists_found.1
  | case3 visited name w found fresh hc => rfl
  | case4 visited name w found fresh onward ih =>
    obtain rfl := hown name w found
    obtain hself | ⟨next, hc, hnext⟩ := h.avoid found onward
    · exact absurd List.mem_cons_self hself.exists_found.1
    · rw [Option.isSome_map, List.findSome?_isSome_iff]
      exact ⟨next, hc, ih next hnext⟩

theorem leadsPast_nil_iff {target name : String} :
    LeadsPast calls known target [] name ↔ LeadsTo calls known name target := by
  constructor
  · intro h
    induction h with
    | last found _ called => exact .single ⟨_, found, called⟩
    | call found _ called _ ih => exact .head ⟨_, found, called⟩ ih
  · intro h
    induction h using Relation.TransGen.head_induction_on with
    | single h =>
      obtain ⟨w, found, called⟩ := h
      exact .last found List.not_mem_nil called
    | head h _ ih =>
      obtain ⟨w, found, called⟩ := h
      exact .call found List.not_mem_nil called ih

/-- A chain of calls leads from its first name to its last. -/
theorem leadsTo_of_isChain {target name : String} {between : List String}
    (h : (name :: between ++ [target]).IsChain (KnownCall calls known)) :
    LeadsTo calls known name target := by
  induction between generalizing name with
  | nil => exact .single (List.isChain_pair.mp h)
  | cons next rest ih =>
    obtain ⟨hcall, hrest⟩ := List.isChain_cons_cons.mp h
    exact .head hcall (ih hrest)

/-- **A chain is found if and only if there is one.** -/
theorem exists_findChain_iff (hown : NamedByKey known) {target name : String} :
    (∃ chain, findChain calls known target [] name = some chain) ↔
      LeadsTo calls known name target := by
  constructor
  · rintro ⟨chain, h⟩
    obtain ⟨between, -, hchain⟩ := isChainTo_of_findChain hown h
    exact leadsTo_of_isChain hchain.linked
  · intro h
    exact Option.isSome_iff_exists.mp
      (exists_findChain_of_leadsPast hown (leadsPast_nil_iff.mpr h))

/-! ## 5. Findings -/

/-- The called names that lead back to the workflow. -/
def turning (calls : Workflow → List String) (known : Assoc String Workflow) (w : Workflow) :
    List String :=
  (calls w).filter fun c => c ≠ w.name ∧ (findChain calls known w.name [] c).isSome

/-- The names from the workflow over a called name back to it. -/
def chainOver (calls : Workflow → List String) (known : Assoc String Workflow) (w : Workflow)
    (c : String) : List String :=
  w.name :: (findChain calls known w.name [] c).getD []

theorem cycleIssues_eq (calls : Workflow → List String) (known : Assoc String Workflow)
    (w : Workflow) : cycleIssues calls known w =
      issueIf ((calls w).contains w.name) (selfCall w.name) ++
        (turning calls known w).map fun c => circle (chainOver calls known w c) := by
  rw [cycleIssues, turning]
  congr 1
  induction calls w with
  | nil => rfl
  | cons c rest ih =>
    rw [List.flatMap_cons, ih, List.filter_cons]
    by_cases hc : c = w.name
    · simp [hc]
    · cases hf : findChain calls known w.name [] c <;> simp [hc, hf, chainOver]

theorem mem_turning_iff (hown : NamedByKey known) {w : Workflow} {c : String} :
    c ∈ turning calls known w ↔ c ∈ calls w ∧ c ≠ w.name ∧ LeadsTo calls known c w.name := by
  rw [turning, List.mem_filter, decide_eq_true_eq, Option.isSome_iff_exists,
    exists_findChain_iff hown]

theorem chainOver_of_mem (hown : NamedByKey known) {w : Workflow} {c : String}
    (h : c ∈ turning calls known w) : ∃ between,
      chainOver calls known w c = w.name :: c :: between ++ [w.name] ∧
        IsChainTo calls known w.name [] c between := by
  obtain ⟨chain, hf⟩ := (exists_findChain_iff hown).mpr ((mem_turning_iff hown).mp h).2.2
  obtain ⟨between, rfl, hchain⟩ := isChainTo_of_findChain hown hf
  exact ⟨between, by rw [chainOver, hf]; rfl, hchain⟩

theorem initial_of_mem_circles {w : Workflow} {i : Issue}
    (h : i ∈ (turning calls known w).map fun c => circle (chainOver calls known w c)) :
    i.initial? = some 'C' := by
  obtain ⟨c, -, rfl⟩ := List.mem_map.mp h
  simp [Issue.initial?, circle]

theorem initial_of_mem_selfCall {condition : Bool} {name : String} {i : Issue}
    (h : i ∈ issueIf condition (selfCall name)) : i.initial? = some 'W' := by
  obtain ⟨-, rfl⟩ := mem_issueIf.mp h
  simp [Issue.initial?, selfCall]

theorem initial_of_mem_cycleIssues {w : Workflow} {i : Issue} (h : i ∈ cycleIssues calls known w) :
    i.initial? = some 'W' ∨ i.initial? = some 'C' := by
  rw [cycleIssues_eq, List.mem_append] at h
  exact h.imp initial_of_mem_selfCall initial_of_mem_circles

theorem beginsWith_circle (chain : List String) :
    (circle chain).beginsWith "Circular dependency detected" = true := by
  have hmessage : (circle chain).message =
      "Circular dependency detected" ++ (": " ++ " -> ".intercalate chain) := by
    rw [← String.append_assoc]
    rfl
  exact Issue.beginsWith_of_append hmessage

theorem beginsWith_selfCall (name : String) : (selfCall name).beginsWith "Workflow '" = true :=
  Issue.beginsWith_of_append String.append_assoc

end Review

open Review

namespace Reviewer

/-! ## 6. Reports -/

/-- The called names are those in the command texts of the tree. -/
theorem mem_callsOf {r : Reviewer} {w : Workflow} {name : String} : name ∈ r.callsOf w ↔
    ∃ s ∈ w.allSteps, name ∈ Calls.inText r.callWords s.commandText := by
  rw [callsOf, Calls.ofSteps, Calls.sortedNames, List.mem_mergeSort, mem_distinct,
    List.mem_flatMap]
  rfl

/-- Every called name is named once. -/
theorem nodup_callsOf (r : Reviewer) (w : Workflow) : (r.callsOf w).Nodup :=
  (List.mergeSort_perm _ _).nodup_iff.mpr (nodup_distinct _)

/-- **A call of its own is reported if and only if there is one.** -/
theorem filter_selfCall (r : Reviewer) (w : Workflow) :
    (r.review w).issues.filter (Issue.beginsWith "Workflow '") =
      if w.name ∈ r.callsOf w then [selfCall w.name] else [] := by
  have hduplicates : (duplicateIssues w).filter (Issue.beginsWith "Workflow '") = [] :=
    filter_beginsWith_of_initial rfl (fun _ => initial_of_mem_duplicateIssues) (by decide)
  have hcircles : ((turning r.callsOf r.known w).map fun c =>
      circle (chainOver r.callsOf r.known w c)).filter (Issue.beginsWith "Workflow '") = [] :=
    filter_beginsWith_of_initial rfl (fun _ => initial_of_mem_circles) (by decide)
  rw [filter_review rfl (by decide), hduplicates, cycleIssues_eq, List.filter_append, hcircles,
    List.append_nil, List.append_nil]
  by_cases hc : w.name ∈ r.callsOf w
  · simp [issueIf, hc, beginsWith_selfCall]
  · simp [issueIf, hc]

/-- **There is one finding about a circle for each name that leads back.** -/
theorem filter_circle (r : Reviewer) (w : Workflow) :
    (r.review w).issues.filter (Issue.beginsWith "Circular dependency detected") =
      (turning r.callsOf r.known w).map fun c => circle (chainOver r.callsOf r.known w c) := by
  have hduplicates : (duplicateIssues w).filter
      (Issue.beginsWith "Circular dependency detected") = [] :=
    filter_beginsWith_of_initial rfl (fun _ => initial_of_mem_duplicateIssues) (by decide)
  have hself : (issueIf ((r.callsOf w).contains w.name) (selfCall w.name)).filter
      (Issue.beginsWith "Circular dependency detected") = [] :=
    filter_beginsWith_of_initial rfl (fun _ => initial_of_mem_selfCall) (by decide)
  rw [filter_review rfl (by decide), hduplicates, cycleIssues_eq, List.filter_append, hself,
    List.nil_append, List.append_nil, List.filter_eq_self]
  intro i hi
  obtain ⟨c, -, rfl⟩ := List.mem_map.mp hi
  exact beginsWith_circle _

/-- **The circles of a workflow as a review reports them**: `turning` are the called names that lead
back to it, and `chain` gives the names that are printed for each. -/
structure CirclesReported (r : Reviewer) (w : Workflow) (turning : List String)
    (chain : String → List String) : Prop where
  /-- A call of its own is reported if and only if there is one. -/
  direct : (r.review w).issues.filter (Issue.beginsWith "Workflow '") =
    if w.name ∈ r.callsOf w then [selfCall w.name] else []
  /-- There is one finding for each called name that leads back, and no other. -/
  circles : (r.review w).issues.filter (Issue.beginsWith "Circular dependency detected") =
    turning.map fun c => circle (chain c)
  nodup : turning.Nodup
  mem_iff : ∀ c, c ∈ turning ↔
    c ∈ r.callsOf w ∧ c ≠ w.name ∧ LeadsTo r.callsOf r.known c w.name
  /-- What is printed is a chain of calls through known workflows, all different. -/
  chained : ∀ c ∈ turning, ∃ between, chain c = w.name :: c :: between ++ [w.name] ∧
    IsChainTo r.callsOf r.known w.name [] c between

/-- **The search for circles ends, and it reports every circle and nothing else.** -/
theorem circles_reported (r : Reviewer) (hown : NamedByKey r.known) (w : Workflow) :
    (WellFounded fun after before => Opens r.callsOf r.known w.name before after) ∧
      ∃ turning chain, r.CirclesReported w turning chain := by
  refine ⟨wellFounded_opens w.name, turning r.callsOf r.known w, chainOver r.callsOf r.known w, ?_⟩
  constructor
  · exact filter_selfCall r w
  · exact filter_circle r w
  · exact (nodup_callsOf r w).filter _
  · exact fun c => mem_turning_iff hown
  · exact fun c => chainOver_of_mem hown

/-- A workflow of commands. -/
def commanding (name : String) (commands : List String) : Workflow :=
  ⟨name, "", commands.map fun c => .command ⟨c, "", c, false, false⟩, [], [], [], 0, none, 0⟩

/-- Of three known workflows two call each other, and one of them calls another `w`. -/
def ring : Reviewer where
  known := [("a", commanding "a" ["clix flow run b", "clix flow run ghost"]),
    ("b", commanding "b" ["clix flow run c", "clix flow run w"]),
    ("c", commanding "c" ["clix flow run b"])]
  callWords := Calls.wordsOfPrefix "clix flow run"
  builtins := []

/-- The name `a`, which `w` calls, is reported, and an unknown one is not. -/
theorem ring_circles_reported : NamedByKey ring.known ∧ ∃ turning chain,
    ring.CirclesReported (commanding "w" ["clix flow run a", "clix flow run ghost"]) turning chain ∧
      "a" ∈ turning ∧ "ghost" ∉ turning := by
  have hown : NamedByKey ring.known := namedByKey_of_forall (by decide)
  obtain ⟨-, turning, chain, h⟩ :=
    circles_reported ring hown (commanding "w" ["clix flow run a", "clix flow run ghost"])
  refine ⟨hown, turning, chain, h, (h.mem_iff "a").mpr ⟨?_, by decide, ?_⟩, fun hg => ?_⟩
  · exact mem_callsOf.mpr (by decide +kernel)
  · have first : KnownCall ring.callsOf ring.known "a" "b" :=
      ⟨_, rfl, mem_callsOf.mpr (by decide +kernel)⟩
    have second : KnownCall ring.callsOf ring.known "b" "w" :=
      ⟨_, rfl, mem_callsOf.mpr (by decide +kernel)⟩
    exact .head first (.single second)
  · obtain ⟨between, -, hchain⟩ := h.chained "ghost" hg
    obtain ⟨w, found⟩ := hchain.known "ghost" List.mem_cons_self
    have unknown : ring.known.get? "ghost" = none := rfl
    rw [unknown] at found
    cases found

end Reviewer

end Runbook
