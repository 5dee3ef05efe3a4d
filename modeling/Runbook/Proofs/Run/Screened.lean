import Runbook.Proofs.Run.Approval
import Runbook.Run.Script

/-!
# What the screening of a run covers

A screened run has its workflow looked at before the first step, with all texts as they are written.
The text that a step starts is made later, from the values that hold when the run comes to the step:

* `Screen.flags`: a text that the screen finds unsafe or in need of approval;
* `turn_of_spawned`: every command in the log was started by a turn;
* **`spawned_screened`**: a step whose text as written is flagged is started behind a yes;
* `resolved_text_unasked`: a text that is flagged only once its placeholders are replaced is not.
-/

namespace Runbook

variable {σ : Type}

/-- Whether a text is unsafe or calls for approval. -/
def Security.Screen.flags (screen : Security.Screen) (text : String) : Bool :=
  !(screen.command text).isSafe || (screen.command text).requiresApproval

/-! ## 1. Commands in the log -/

/-- Only the start of a command puts it into the log. -/
theorem Turn.start_of_spawned {e : Engine σ} {t : Turn σ} {command : String}
    (h : .spawned command ∈ t.requests e) :
    t.deed = .start ∧ t.requests e = [.spawned command] ∧ command = t.here.head.command := by
  unfold requests at h ⊢
  cases hd : t.deed with
  | reach =>
    rw [hd] at h
    dsimp only at h
    split at h <;> simp at h
  | start =>
    rw [hd] at h
    obtain rfl : command = t.here.head.command := by simpa using h
    exact ⟨rfl, rfl, rfl⟩
  | judge c =>
    rw [hd] at h
    unfold Engine.testsFor at h
    dsimp only at h
    split at h <;> simp at h
  | act | limit | tire => rw [hd] at h; cases h

/-- **Every command in the log of turns was started by one of them**, and what stands before it was
requested by the turns before that one. -/
theorem turn_of_spawned {e : Engine σ} {ts : List (Turn σ)} {before after : List Event}
    {command : String}
    (h : ts.flatMap (Turn.requests e) = before ++ .spawned command :: after) :
    ∃ past t later, ts = past ++ t :: later ∧ t.deed = .start ∧
      command = t.here.head.command ∧ before = past.flatMap (Turn.requests e) := by
  induction ts generalizing before with
  | nil => simp at h
  | cons t ts ih =>
    rw [List.flatMap_cons] at h
    -- the command stands behind the requests of the first turn, or among them
    rcases List.append_eq_append_iff.mp h with ⟨mid, hb, hts⟩ | ⟨mid, ht, hmid⟩
    · obtain ⟨past, u, later, rfl, hd, hc, rfl⟩ := ih hts
      exact ⟨t :: past, u, later, rfl, hd, hc, hb⟩
    · cases mid with
      | nil =>
        have hnil : ts.flatMap (Turn.requests e) = [] ++ .spawned command :: after := hmid.symm
        obtain ⟨past, u, later, rfl, hd, hc, hpast⟩ := ih hnil
        refine ⟨t :: past, u, later, rfl, hd, hc, ?_⟩
        rw [List.flatMap_cons, ← hpast, ht, List.append_nil, List.append_nil]
      | cons ev mid =>
        obtain ⟨rfl, -⟩ := List.cons_eq_cons.mp hmid
        have hmem : .spawned command ∈ t.requests e := by simp [ht]
        obtain ⟨hd, hreq, hc⟩ := Turn.start_of_spawned hmem
        rw [ht] at hreq
        refine ⟨[], t, ts, rfl, hd, hc, ?_⟩
        cases before with
        | nil => rfl
        | cons ev before => simp at hreq

namespace Executor

theorem upFront_cases (x : Executor σ) (w : Workflow) (r : RunRequest) (world : σ) :
    x.upFront w r world = [] ∨ x.upFront w r world = [.approval (question w)] := by
  unfold upFront
  split
  · split
    · exact Or.inr rfl
    · exact Or.inl rfl
  · exact Or.inl rfl

/-- **Every command that a run starts belongs to a turn**, behind what was requested up front and by
the turns before it. -/
theorem start_of_spawned {x : Executor σ} {w : Workflow} {r : RunRequest} {world : σ}
    {before after : List Event} {command : String}
    (h : (x.runWorkflow w r world).2.events = before ++ .spawned command :: after) :
    ∃ past t later, x.turns w r world = past ++ t :: later ∧ t.deed = .start ∧
      command = t.here.head.command ∧ before.filter Event.isRequest =
        x.upFront w r world ++ past.flatMap (Turn.requests (x.engineOf w r world)) := by
  have hlog := x.log_eq w r world
  rw [h, List.filter_append, List.filter_cons_of_pos rfl] at hlog
  obtain ⟨mid, hb, hmid⟩ : ∃ mid, before.filter Event.isRequest = x.upFront w r world ++ mid ∧
      (x.turns w r world).flatMap (Turn.requests (x.engineOf w r world)) =
        mid ++ .spawned command :: after.filter Event.isRequest := by
    rcases x.upFront_cases w r world with hu | hu
    · rw [hu, List.nil_append] at hlog
      exact ⟨_, by rw [hu, List.nil_append], hlog.symm⟩
    · rw [hu] at hlog ⊢
      cases hb : before.filter Event.isRequest with
      | nil => rw [hb] at hlog; cases hlog
      | cons ev mid =>
        rw [hb, List.cons_append, List.cons_append, List.nil_append] at hlog
        obtain ⟨rfl, hrest⟩ := List.cons_eq_cons.mp hlog
        exact ⟨mid, rfl, hrest.symm⟩
  obtain ⟨past, t, later, hts, hd, hc, rfl⟩ := turn_of_spawned hmid
  exact ⟨past, t, later, hts, hd, hc, hb⟩

/-! ## 2. Texts as written -/

/-- A screened run that gets to a step with a flagged text was allowed as a whole. -/
theorem answered_of_flags {x : Executor σ} {w : Workflow} {r : RunRequest} {world : σ}
    (hc : x.securityCheck = true) {t : Turn σ} (ht : t ∈ x.turns w r world)
    (hs : t.here.step ∈ w.allSteps) (hne : t.here.step.commandText ≠ "")
    (hflag : x.screen.flags t.here.step.commandText = true) :
    x.Answered w r world true ∧ x.upFront w r world = [.approval (question w)] := by
  obtain ⟨approved, s', -, h⟩ := x.begins_of_turn w r world ht
  cases h with
  | unscreened _ _ hc' =>
    rw [hc] at hc'
    cases hc'
  | unquestioned _ _ _ _ hu =>
    obtain ⟨hok, hno⟩ := (clears_of_unquestioned hu hs).2 hne
    unfold Security.Screen.flags at hflag
    rw [hok, hno] at hflag
    cases hflag
  | allowed s _ hf _ hu hy =>
    refine ⟨⟨hc, hu, s, s', hf, hy⟩, ?_⟩
    unfold upFront
    rw [hf, hc, hu]
    rfl

/-- **Every command that a screened run starts is the text of a step, resolved for the values that
hold when the run comes to that step. If the text is not empty and flagged as it is written, the
approver has said yes before.** -/
theorem spawned_screened {x : Executor σ} {w : Workflow} {r : RunRequest} {world : σ}
    (hc : x.securityCheck = true) {before after : List Event} {command : String}
    (h : (x.runWorkflow w r world).2.events = before ++ .spawned command :: after) :
    ∃ past t later, x.turns w r world = past ++ t :: later ∧ t.deed = .start ∧
      t.here.step ∈ w.allSteps ∧
      command = Template.resolve t.here.state.context t.here.step.commandText ∧
      (t.here.step.commandText ≠ "" → x.screen.flags t.here.step.commandText = true →
        x.Answered w r world true ∧ .approval (question w) ∈ before) := by
  obtain ⟨past, t, later, hts, hd, hcommand, hbefore⟩ := start_of_spawned h
  have ht : t ∈ x.turns w r world := by simp [hts]
  obtain ⟨approved, s, hop, -⟩ := x.begins_of_turn w r world ht
  have hfits := (turns_of_begun hop).2
  rw [hts] at hfits
  have hs : t.here.step ∈ w.allSteps := hfits.here.step
  refine ⟨past, t, later, hts, hd, hs, hcommand, fun hne hflag => ?_⟩
  obtain ⟨hyes, hup⟩ := answered_of_flags hc ht hs hne hflag
  refine ⟨hyes, ?_⟩
  have hmem : .approval (question w) ∈ before.filter Event.isRequest := by
    rw [hbefore, hup]
    exact List.mem_cons_self
  exact (List.mem_filter.mp hmem).1

/-- A workflow of one command. -/
def single (text : String) : Workflow :=
  ⟨"tidy", "", [.command ⟨"Remove", "", text, false, false⟩], [], [], [], 0, none, 0⟩

/-- An executor that screens workflows, with `rm` for a dangerous word and some approval patterns. -/
def screening (patterns : List Pattern) : Executor Script :=
  ⟨Script.world true true, ⟨1000, 3, ["rm"], patterns, []⟩, none, 0, true⟩

/-- A request with a value for one variable. -/
def binding (value : String) : RunRequest := ⟨none, [], some [("c", value)], false⟩

/-- **A text that is flagged as it is written is started behind a yes.** -/
theorem written_text_asked :
    let before : List Event := [.warning "Workflow 'tidy' has 1 security issue(s)",
      .warning "Security: Potentially dangerous command: rm",
      .approval "Workflow 'tidy' requires approval to run"]
    ((screening []).runWorkflow (single "rm x") (binding "") ⟨[], [], [], [true]⟩).2.events =
        before ++ .spawned "rm x" :: [] ∧
      ∃ past t later,
        (screening []).turns (single "rm x") (binding "") ⟨[], [], [], [true]⟩ = past ++ t :: later ∧
        t.deed = .start ∧ t.here.step ∈ (single "rm x").allSteps ∧
        "rm x" = Template.resolve t.here.state.context t.here.step.commandText ∧
        (t.here.step.commandText ≠ "" →
          (screening []).screen.flags t.here.step.commandText = true →
          (screening []).Answered (single "rm x") (binding "") ⟨[], [], [], [true]⟩ true ∧
            .approval (question (single "rm x")) ∈ before) := by
  intro before
  have h : ((screening []).runWorkflow (single "rm x") (binding "") ⟨[], [], [], [true]⟩).2.events =
      before ++ .spawned "rm x" :: [] := by
    decide +kernel
  exact ⟨h, spawned_screened rfl h⟩

/-- **A text that is flagged only once its placeholders are replaced is started unasked**, and so is an
empty text, whatever the patterns make of it: the screen has seen the placeholder and not the value,
and it passes empty texts over. -/
theorem resolved_text_unasked :
    (¬ ∀ before command after,
      ((screening []).runWorkflow (single "\x7b\x7bc\x7d\x7d") (binding "rm x")
          ⟨[], [], [], [false]⟩).2.events = before ++ .spawned command :: after →
        (screening []).screen.flags command = true → ∃ message, .approval message ∈ before) ∧
    ¬ ∀ before command after,
      ((screening [Pattern.ofKnownText ".*"]).runWorkflow (single "") (binding "")
          ⟨[], [], [], [false]⟩).2.events = before ++ .spawned command :: after →
        (screening [Pattern.ofKnownText ".*"]).screen.flags command = true →
          ∃ message, .approval message ∈ before := by
  constructor
  · intro h
    obtain ⟨message, hm⟩ := h [] "rm x" [] (by decide +kernel) (by decide +kernel)
    cases hm
  · intro h
    obtain ⟨message, hm⟩ := h [] "" [] (by decide +kernel) (by decide +kernel)
    cases hm

end Executor

end Runbook
