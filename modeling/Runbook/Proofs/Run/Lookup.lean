import Mathlib.Data.List.Find
import Mathlib.Data.List.TakeWhile
import Runbook.Proofs.Run.Coverage
import Runbook.Proofs.Run.Ending
import Runbook.Run.Script

/-!
# Looking up the entries of a trace

A report is asked for an entry by the path that the entry stands under, or by the name of the step that it
was recorded for; the last part of the path is taken for that name. What such a lookup finds:

* `lastPart_stepPath`: the last part of a path is that of the step's name, which it is if there is no slash
  in it;
* `RunReport.underPath?`, `Executor.recordedFor?`: the earliest entry under a path, the earliest one that
  was recorded for a step of a name;
* `Hidden`, **`find?_eq_underPath?_iff`**: which entries are not found under their path;
* `Executor.LooksUp`, **`runWorkflow_looksUp`**: what lookups find in the report of every run.
-/

namespace Runbook

variable {σ : Type}

/-! ## 1. The last part of a path -/

/-- A path ends in a text without slashes that stands behind nothing or behind a slash. -/
theorem lastPart_of_split {path name : String} {front : List Char}
    (hpath : path.toList = front ++ name.toList) (hname : '/' ∉ name.toList)
    (hfront : front = [] ∨ front.getLast? = some '/') : lastPart path = name := by
  have hpart : ∀ c ∈ name.toList.reverse, (c != '/') = true := by
    intro c hc
    refine bne_iff_ne.mpr fun h => hname ?_
    rw [← h]
    exact List.mem_reverse.mp hc
  have hstop : front.reverse.takeWhile (· != '/') = [] := by
    rcases hfront with rfl | hlast
    · rfl
    · obtain ⟨more, rfl⟩ := List.getLast?_eq_some_iff.mp hlast
      rw [List.reverse_append]
      rfl
  unfold lastPart
  rw [hpath, List.reverse_append, List.takeWhile_append_of_pos hpart, hstop, List.append_nil,
    List.reverse_reverse, String.ofList_toList]

/-- A path has a last part, and in front of that nothing or a slash. -/
theorem exists_lastPart (path : String) : '/' ∉ (lastPart path).toList ∧
    ∃ front, path.toList = front ++ (lastPart path).toList ∧
      (front = [] ∨ front.getLast? = some '/') := by
  have hsplit := congrArg List.reverse
    (List.takeWhile_append_dropWhile (p := (· != '/')) (l := path.toList.reverse))
  rw [List.reverse_append, List.reverse_reverse] at hsplit
  have hlast : (lastPart path).toList = (path.toList.reverse.takeWhile (· != '/')).reverse :=
    String.toList_ofList
  rw [hlast]
  refine ⟨fun h => ?_, _, hsplit.symm, ?_⟩
  · have hc := List.mem_takeWhile_imp (List.mem_reverse.mp h)
    exact absurd rfl (bne_iff_ne.mp hc)
  · have hhead := List.head?_dropWhile_not (· != '/') path.toList.reverse
    rcases hdrop : path.toList.reverse.dropWhile (· != '/') with _ | ⟨c, more⟩
    · exact Or.inl rfl
    · rw [hdrop] at hhead
      obtain rfl : c = '/' := by simpa using hhead
      exact Or.inr (by rw [List.reverse_cons, List.getLast?_concat])

theorem lastPart_eq_self_iff {name : String} : lastPart name = name ↔ '/' ∉ name.toList := by
  constructor
  · intro h
    have hlast := (exists_lastPart name).1
    rwa [h] at hlast
  · intro h
    have hself : name.toList = [] ++ name.toList := rfl
    exact lastPart_of_split hself h (Or.inl rfl)

/-- **The last part of a path is that of the step's name.** -/
theorem lastPart_stepPath (above name : String) : lastPart (stepPath above name) = lastPart name := by
  obtain ⟨hslash, front, hname, hfront⟩ := exists_lastPart name
  unfold stepPath
  by_cases h : above = ""
  · rw [if_pos h]
  · rw [if_neg h]
    have hpath : (above ++ "/" ++ name).toList =
        (above.toList ++ '/' :: front) ++ (lastPart name).toList := by
      rw [String.toList_append, String.toList_append, hname, List.append_assoc, List.append_assoc]
      rfl
    refine lastPart_of_split hpath hslash (Or.inr ?_)
    rcases hfront with rfl | hlast
    · exact List.getLast?_concat
    · rw [List.getLast?_append, List.getLast?_cons, hlast]
      rfl

/-! ## 2. Lookups in a trace -/

/-- The earliest entry under a path. -/
def RunReport.underPath? (r : RunReport) (path : String) : Option StepResult :=
  r.trace.find? fun entry => entry.name = path

/-- **The entry under a path is hidden**: in front of all entries under the path stands one whose path only
ends in it. -/
def Hidden (trace : List StepResult) (path : String) : Prop :=
  ∃ entry ∈ trace.takeWhile (fun entry => entry.name ≠ path), lastPart entry.name = path

section Trace

variable {report : RunReport} {path : String}

/-- What is found stands under the path, or under a path that ends in it. -/
theorem isMeant_of_find? {entry : StepResult} (h : report.find? path = some entry) :
    entry.name = path ∨ lastPart entry.name = path := by
  simpa using List.find?_some h

theorem isSome_find? {entry : StepResult} (h : entry ∈ report.trace)
    (hmeant : entry.name = path ∨ lastPart entry.name = path) : (report.find? path).isSome = true := by
  unfold RunReport.find?
  rw [List.find?_isSome]
  exact ⟨entry, h, by simpa using hmeant⟩

/-- **An entry is found under its path exactly if it is not hidden.** -/
theorem find?_eq_underPath?_iff (h : ∃ entry ∈ report.trace, entry.name = path) :
    report.find? path = report.underPath? path ↔ ¬ Hidden report.trace path := by
  unfold RunReport.find? RunReport.underPath? Hidden
  generalize report.trace = trace at h
  induction trace with
  | nil =>
    obtain ⟨entry, hentry, -⟩ := h
    exact absurd hentry List.not_mem_nil
  | cons first rest ih =>
    by_cases hpath : first.name = path
    · -- the entry in front is the one under the path
      simp [hpath]
    obtain ⟨entry, hentry, hunder⟩ := h
    have hrest : ∃ entry ∈ rest, entry.name = path := by
      rcases List.mem_cons.mp hentry with rfl | hin
      · exact absurd hunder hpath
      · exact ⟨entry, hin, hunder⟩
    have hskip : (first :: rest).find? (fun entry => entry.name = path) =
        rest.find? fun entry => entry.name = path := by simp [hpath]
    rw [hskip, List.takeWhile_cons_of_pos (by simpa using hpath)]
    by_cases hlast : lastPart first.name = path
    · -- the entry in front hides it
      have hfound : (first :: rest).find?
          (fun entry => entry.name = path || lastPart entry.name = path) = some first := by
        simp [hlast]
      refine iff_of_false ?_ fun hno => hno ⟨first, List.mem_cons_self, hlast⟩
      rw [hfound]
      intro heq
      have hfirst := List.find?_some heq.symm
      exact hpath (by simpa using hfirst)
    · have hfound : (first :: rest).find?
          (fun entry => entry.name = path || lastPart entry.name = path) =
          rest.find? fun entry => entry.name = path || lastPart entry.name = path := by
        simp [hpath, hlast]
      rw [hfound, ih hrest]
      refine not_congr ⟨?_, ?_⟩
      · exact fun ⟨entry, hin, heq⟩ => ⟨entry, List.mem_cons_of_mem _ hin, heq⟩
      · intro ⟨entry, hin, heq⟩
        rcases List.mem_cons.mp hin with rfl | hin
        · exact absurd heq hlast
        · exact ⟨entry, hin, heq⟩

/-- **A text with a slash is looked up as a path only.** -/
theorem find?_eq_underPath?_of_slash (h : '/' ∈ path.toList) :
    report.find? path = report.underPath? path := by
  have hnever : ∀ entry : StepResult, lastPart entry.name ≠ path := by
    intro entry heq
    have hslash := (exists_lastPart entry.name).1
    rw [heq] at hslash
    exact hslash h
  unfold RunReport.find? RunReport.underPath?
  simp only [hnever, decide_false, Bool.or_false]

end Trace

/-! ## 3. Entries and their steps -/

/-- The entries that turns leave, each with the step that it is recorded for. -/
def entriesOf (e : Engine σ) (ts : List (Turn σ)) : List (Step × StepResult) :=
  ts.filterMap fun t => (t.entry? e).map fun entry => (t.here.step, entry)

theorem map_entriesOf (e : Engine σ) (ts : List (Turn σ)) :
    (entriesOf e ts).map (·.2) = ts.filterMap (Turn.entry? e) := by
  unfold entriesOf
  rw [List.map_filterMap]
  refine List.filterMap_congr fun t _ => ?_
  rw [Option.map_map]
  exact Option.map_id'

/-- The path of an entry ends as the name of its step does. -/
theorem lastPart_of_mem_entriesOf {e : Engine σ} {ts : List (Turn σ)} {step : Step}
    {entry : StepResult} (h : (step, entry) ∈ entriesOf e ts) :
    lastPart entry.name = lastPart step.name := by
  obtain ⟨t, -, ht⟩ := List.mem_filterMap.mp h
  obtain ⟨entry', he, heq⟩ := Option.map_eq_some_iff.mp ht
  obtain ⟨rfl, rfl⟩ := Prod.mk.inj heq
  rw [Engine.name_of_entry he]
  exact lastPart_stepPath _ _

namespace Executor

variable {x : Executor σ} {w : Workflow} {r : RunRequest} {world : σ}

/-- The entries that the turns of a run leave, each with the step that it is recorded for. -/
def entries (x : Executor σ) (w : Workflow) (r : RunRequest) (world : σ) : List (Step × StepResult) :=
  entriesOf (x.engineOf w r world) (x.turns w r world)

/-- The earliest entry of a run that is recorded for a step of the given name. -/
def recordedFor? (x : Executor σ) (w : Workflow) (r : RunRequest) (world : σ) (name : String) :
    Option StepResult :=
  ((x.entries w r world).find? fun p => p.1.name = name).map (·.2)

/-- The earliest entry of a run that is recorded for a step whose name has the given last part. -/
def recordedEnding? (x : Executor σ) (w : Workflow) (r : RunRequest) (world : σ) (part : String) :
    Option StepResult :=
  ((x.entries w r world).find? fun p => lastPart p.1.name = part).map (·.2)

/-- **What lookups find in the report of a run.**

* `traced`: the trace has the entries of the turns, unless the workflow was turned down as a whole;
* `executed`: each command that was started has an entry;
* `path`: under the path of an entry something is found, and that is the earliest entry under the path,
  unless it is hidden;
* `slashed`: a text with a slash finds the earliest entry under that path, and nothing else;
* `name`: under the name of a command that was started something is found, if there is no slash in the
  name; where no entry stands under that path, it is the earliest one that is recorded for a step whose name
  ends in it: the earliest for a step of that name, if no name ends in it behind a slash. -/
structure LooksUp (x : Executor σ) (w : Workflow) (r : RunRequest) (world : σ) : Prop where
  traced : ∀ report ∈ (x.runWorkflow w r world).1.report?,
    report.trace = (x.entries w r world).map (·.2) ∨
      x.turns w r world = [] ∧ report.trace = [⟨w.name, .error (.notApproved .workflow w.name)⟩]
  executed : ∀ report ∈ (x.runWorkflow w r world).1.report?, ∀ t ∈ x.turns w r world,
    t.deed = .start → ∃ entry, (t.here.step, entry) ∈ x.entries w r world
  path : ∀ report ∈ (x.runWorkflow w r world).1.report?, ∀ entry ∈ report.trace,
    (report.find? entry.name).isSome = true ∧
      (report.find? entry.name = report.underPath? entry.name ↔ ¬ Hidden report.trace entry.name)
  slashed : ∀ report ∈ (x.runWorkflow w r world).1.report?, ∀ path, '/' ∈ path.toList →
    report.find? path = report.underPath? path
  name : ∀ report ∈ (x.runWorkflow w r world).1.report?, ∀ t ∈ x.turns w r world,
    t.deed = .start → '/' ∉ t.here.step.name.toList →
      (report.find? t.here.step.name).isSome = true ∧
      ((∀ entry ∈ report.trace, entry.name ≠ t.here.step.name) →
        report.find? t.here.step.name = x.recordedEnding? w r world t.here.step.name ∧
        ((∀ p ∈ x.entries w r world, lastPart p.1.name = t.here.step.name →
            p.1.name = t.here.step.name) →
          report.find? t.here.step.name = x.recordedFor? w r world t.here.step.name))

/-- The trace of a report has the entries of the turns, or that of a workflow that was turned down. -/
theorem trace_of_report {report : RunReport} (h : report ∈ (x.runWorkflow w r world).1.report?) :
    report.trace = (x.entries w r world).map (·.2) ∨
      x.turns w r world = [] ∧ report.trace = [⟨w.name, .error (.notApproved .workflow w.name)⟩] := by
  unfold entries
  rw [(report_eq h).1, map_entriesOf]
  rcases x.trace_cases w r world with htrace | ⟨hno, htrace⟩
  · exact Or.inl htrace
  · obtain ⟨s, hop⟩ := opening_of_refused hno
    exact Or.inr ⟨turns_of_declined hop, htrace⟩

/-- **In a run that is reported, each command that was started has an entry.** -/
theorem exists_entry_of_start {report : RunReport} (h : report ∈ (x.runWorkflow w r world).1.report?)
    {t : Turn σ} (ht : t ∈ x.turns w r world) (hd : t.deed = .start) :
    ∃ entry, (t.here.step, entry) ∈ x.entries w r world := by
  obtain ⟨past, later, hts⟩ := List.append_of_mem ht
  rcases hp : (x.engineOf w r world).perform t.here t.deed t.before with ⟨result, s'⟩
  have hdoes := Engine.does_of_perform hp
  obtain ⟨o, around, d, s⟩ := t
  obtain rfl : d = .start := hd
  cases hdoes with
  | broke fault world' =>
    -- a command that could not be dealt with ends the run without a report
    have hends := (endsIn_of_turn hts hp nofun).2
    rw [hends.run_eq] at h
    cases h
  | started entry _ world' more world'' hn hx hm hr =>
    refine ⟨entry, List.mem_filterMap.mpr ⟨_, ht, ?_⟩⟩
    unfold Turn.entry?
    dsimp only
    rw [hx]
    rfl

/-- Where no entry stands under a name, the lookup goes by the last parts of the names of steps. -/
theorem find?_eq_recordedEnding? {report : RunReport} {name : String}
    (htrace : report.trace = (x.entries w r world).map (·.2))
    (h : ∀ entry ∈ report.trace, entry.name ≠ name) :
    report.find? name = x.recordedEnding? w r world name := by
  unfold RunReport.find? recordedEnding?
  rw [htrace, List.find?_map]
  refine congrArg (Option.map Prod.snd) (List.find?_congr fun p hp => ?_)
  have hpath : p.2.name ≠ name := h p.2 (by rw [htrace]; exact List.mem_map_of_mem hp)
  have hlast : lastPart p.2.name = lastPart p.1.name := lastPart_of_mem_entriesOf hp
  simp [hpath, hlast]

/-- Where no name has a slash in front of its last part, that is the name. -/
theorem recordedEnding?_eq_recordedFor? {name : String} (hname : '/' ∉ name.toList)
    (h : ∀ p ∈ x.entries w r world, lastPart p.1.name = name → p.1.name = name) :
    x.recordedEnding? w r world name = x.recordedFor? w r world name := by
  unfold recordedEnding? recordedFor?
  refine congrArg (Option.map Prod.snd) (List.find?_congr fun p hp => ?_)
  refine decide_eq_decide.mpr ⟨h p hp, fun heq => ?_⟩
  rw [heq]
  exact lastPart_eq_self_iff.mpr hname

/-- **In every report an entry is found under its path, unless it is hidden, and a command that was started
is found under its name, unless there is a slash in that.** -/
theorem runWorkflow_looksUp (x : Executor σ) (w : Workflow) (r : RunRequest) (world : σ) :
    x.LooksUp w r world where
  traced report hr := trace_of_report hr
  executed report hr t ht hd := exists_entry_of_start hr ht hd
  path report hr entry hentry :=
    ⟨isSome_find? hentry (Or.inl rfl), find?_eq_underPath?_iff ⟨entry, hentry, rfl⟩⟩
  slashed report hr path hpath := find?_eq_underPath?_of_slash hpath
  name report hr t ht hd hname := by
    have htrace : report.trace = (x.entries w r world).map (·.2) := by
      rcases trace_of_report hr with htrace | ⟨hnone, -⟩
      · exact htrace
      · rw [hnone] at ht
        exact absurd ht List.not_mem_nil
    obtain ⟨entry, hentry⟩ := exists_entry_of_start hr ht hd
    have hin : entry ∈ report.trace := by
      rw [htrace]
      exact List.mem_map_of_mem hentry
    have hlast : lastPart entry.name = t.here.step.name :=
      (lastPart_of_mem_entriesOf hentry).trans (lastPart_eq_self_iff.mpr hname)
    refine ⟨isSome_find? hin (Or.inr hlast), fun hnone => ?_⟩
    have hending := find?_eq_recordedEnding? htrace hnone
    exact ⟨hending, fun hlone => hending.trans (recordedEnding?_eq_recordedFor? hname hlone)⟩

/-- A conditional with two commands, the name of one of them with a slash in it, and a command behind it
that has the name of the other one. -/
def namesakes : Workflow :=
  ⟨"names", "", [
    .conditional ⟨"Check", "", "", false, false⟩ ⟨"[ -f here ]", none⟩
      [.command ⟨"build", "", "make", false, false⟩, .command ⟨"a/b", "", "run", false, false⟩]
      none none,
    .command ⟨"build", "", "make all", false, false⟩],
    [], [], [], 0, none, 0⟩

/-- A world in which the condition of the conditional holds. -/
def checkedWorld : Script := ⟨[], [("[ -f here ]", [.decided true])], [], []⟩

/-- An executor that lets loops go through five iterations. -/
def fiveRounds : Executor Script := ⟨Script.world true true, ⟨1000, 3, [], [], []⟩, some 5, 0, false⟩

/-- The later of two commands of one name is not found, though its path is that name, and neither is one
with a slash in its name. -/
theorem namesakes_not_found :
    (¬ ∀ (x : Executor Script) (w : Workflow) (r : RunRequest) (world : Script),
      ∀ report ∈ (x.runWorkflow w r world).1.report?, ∀ entry ∈ report.trace,
        report.find? entry.name = report.underPath? entry.name) ∧
    ¬ ∀ (x : Executor Script) (w : Workflow) (r : RunRequest) (world : Script),
      ∀ report ∈ (x.runWorkflow w r world).1.report?, ∀ t ∈ x.turns w r world, t.deed = .start →
        report.find? t.here.step.name ≠ none := by
  let r : RunRequest := ⟨none, [], some [], false⟩
  have hvalues : ((fiveRounds.runWorkflow namesakes r checkedWorld).1.report?.map fun report =>
      (report.trace.map (·.name), (report.find? "build").map (·.name),
        (report.find? "a/b").map (·.name))) =
      some (["Check/then/build", "Check/then/a/b", "build"], some "Check/then/build", none) := by
    decide +kernel
  obtain ⟨report, hr, hvalue⟩ := Option.map_eq_some_iff.mp hvalues
  obtain ⟨htrace, hfound⟩ := Prod.mk.inj hvalue
  obtain ⟨hbuild, hslashed⟩ := Prod.mk.inj hfound
  constructor
  · intro h
    have hnames : "build" ∈ report.trace.map (·.name) := by
      rw [htrace]
      decide
    obtain ⟨entry, hentry, hname⟩ := List.mem_map.mp hnames
    have hlookup := h _ _ _ _ report hr entry hentry
    obtain ⟨found, hf, hfname⟩ := Option.map_eq_some_iff.mp hbuild
    rw [hname, hf] at hlookup
    have hunder := List.find?_some hlookup.symm
    rw [decide_eq_true_eq, hfname] at hunder
    exact absurd hunder (by decide)
  · intro h
    have hstarted : "a/b" ∈ ((fiveRounds.turns namesakes r checkedWorld).filter
        fun t => t.deed = .start).map (·.here.step.name) := by
      decide +kernel
    obtain ⟨t, ht, hname⟩ := List.mem_map.mp hstarted
    obtain ⟨ht, hd⟩ := List.mem_filter.mp ht
    have hlookup := h _ _ _ _ report hr t ht (of_decide_eq_true hd)
    rw [hname] at hlookup
    exact hlookup (Option.map_eq_none_iff.mp hslashed)

end Executor

end Runbook
