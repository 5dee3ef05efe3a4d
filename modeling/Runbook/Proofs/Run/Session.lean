import Runbook.Proofs.Run.Screened
import Runbook.Run.SavedCommand

/-!
# Sessions with a saved command

A saved command is run any number of times, each time by some executor and at some time, and keeps count of its
uses. What passes between a run and the world is said here apart from how the run goes:

* `Exchange`, `Exchanges`: questions with their answers and commands with the replies to them, and that a run
  gets from one state to another with these and no others;
* `Executor.Handles`, `executeCommand_handles`: the ways in which a saved command is run;
* `Kept`: what is run, behind which answer, and when a use is counted; `kept_of_handles`;
* `Made`, `session`, `commandAfter`: the runs of a session, one after the other;
* `SessionKept`, **`session_kept`**: every session keeps to this, and counts the processes that ended.
-/

namespace Runbook

variable {σ : Type}

/-! ## 1. Exchanges with the world -/

/-- What passes between a run and the world: a question with its answer, a question that a signal ended the run
at, or a command with the reply to it. -/
inductive Exchange where
  | answered (message : String) (yes : Bool)
  | unanswered (message : String) (signal : Signal)
  | started (command : String) (reply : SpawnReply)

namespace Exchange

/-- What an exchange leaves in the log. -/
def request : Exchange → Event
  | .answered message _ => .approval message
  | .unanswered message _ => .approval message
  | .started command _ => .spawned command

/-- Whether a command was handed over. -/
def isStart : Exchange → Bool
  | .started _ _ => true
  | .answered _ _ => false
  | .unanswered _ _ => false

/-- Whether a process was started and ended, with whatever exit code. -/
def isFinished : Exchange → Bool
  | .started _ (.finished _) => true
  | .started _ (.refused _) => false
  | .started _ (.raised _) => false
  | .answered _ _ => false
  | .unanswered _ _ => false

theorem isStart_of_isFinished (e : Exchange) (h : e.isFinished = true) : e.isStart = true := by
  cases e with
  | started command reply => rfl
  | answered | unanswered => cases h

end Exchange

/-- **From one state of a run to another with these exchanges**, in this order. Beside them only warnings are
noted. -/
inductive Exchanges (w : World σ) : RunState σ → List Exchange → RunState σ → Prop
  | none (s : RunState σ) : Exchanges w s [] s
  | warned {s s' : RunState σ} {es : List Exchange} (texts : List String)
      (h : Exchanges w (s.told (texts.map .warning) s.world) es s') : Exchanges w s es s'
  | answered {s t s' : RunState σ} {es : List Exchange} {message : String} {yes : Bool}
      (ha : Run.approve w message s = (.ok yes, t)) (h : Exchanges w t es s') :
      Exchanges w s (.answered message yes :: es) s'
  | unanswered {s s' : RunState σ} {message : String} {signal : Signal}
      (ha : Run.approve w message s = (.error signal, s')) :
      Exchanges w s [.unanswered message signal] s'
  | started {s s' : RunState σ} {es : List Exchange} {command : String}
      (h : Exchanges w (s.told [.spawned command] (w.spawn command s.world).2) es s') :
      Exchanges w s (.started command (w.spawn command s.world).1 :: es) s'

theorem filter_isRequest_warned (texts : List String) :
    (texts.map Event.warning).filter Event.isRequest = [] := by
  rw [List.filter_eq_nil_iff]
  intro ev hev
  obtain ⟨text, -, rfl⟩ := List.mem_map.mp hev
  exact Bool.false_ne_true

/-- A question is noted, however it is answered. -/
theorem requests_of_approve {w : World σ} {message : String} {s t : RunState σ}
    {r : Except Signal Bool} (h : Run.approve w message s = (r, t)) :
    t.events.filter Event.isRequest = s.events.filter Event.isRequest ++ [.approval message] := by
  obtain ⟨r', lines, world, hq, hl, -⟩ := Run.approve_cases w message s
  rw [h] at hq
  obtain ⟨-, rfl⟩ := Prod.mk.inj hq
  rw [RunState.told_events, List.filter_append, List.filter_cons_of_pos rfl,
    Event.filter_isRequest_lines hl]

/-- **The log tells the exchanges.** -/
theorem Exchanges.requests {w : World σ} {s s' : RunState σ} {es : List Exchange}
    (h : Exchanges w s es s') :
    s'.events.filter Event.isRequest =
      s.events.filter Event.isRequest ++ es.map Exchange.request := by
  induction h with
  | none => exact (List.append_nil _).symm
  | warned texts _ ih =>
    rw [ih, RunState.told_events, List.filter_append, filter_isRequest_warned, List.append_nil]
  | answered ha _ ih => rw [ih, requests_of_approve ha, List.append_assoc]; rfl
  | unanswered ha => exact requests_of_approve ha
  | started _ ih =>
    rw [ih, RunState.told_events, List.filter_append, List.append_assoc]
    rfl

/-! ## 2. One run of a saved command -/

namespace SavedCommand

/-- The question about a saved command. -/
def question (c : SavedCommand) : String :=
  "Command '" ++ c.name ++ "' requires approval: " ++ c.command

/-- What a run at a time answers behind the reply to the command. -/
def replied (c : SavedCommand) (now : Int) : SpawnReply → Except Signal (StepResult × SavedCommand)
  | .finished result => .ok (⟨c.name, .ok result⟩, c.markUsed now)
  | .refused reason => .ok (⟨c.name, .error (.notStarted reason)⟩, c)
  | .raised fault => .error (.raised fault)

/-- The saved command behind a run of it, which a signal leaves as it is. -/
def behind (c : SavedCommand) : Except Signal (StepResult × SavedCommand) → SavedCommand
  | .ok (_, c') => c'
  | .error _ => c

end SavedCommand

namespace Executor

/-- The exchange that lets a saved command be run: a yes, if the screen calls for one. -/
def clearance (x : Executor σ) (c : SavedCommand) : List Exchange :=
  if x.screen.flags c.command then [.answered c.question true] else []

/-- **The ways in which a saved command is run**: it is declined, or nobody answers the question, or it is started
and the reply decides. -/
inductive Handles (x : Executor σ) (now : Int) (c : SavedCommand) :
    List Exchange → Except Signal (StepResult × SavedCommand) → Prop
  | declined (hf : x.screen.flags c.command = true) :
      Handles x now c [.answered c.question false]
        (.ok (⟨c.name, .error (.notApproved .command c.name)⟩, c))
  | unanswered (hf : x.screen.flags c.command = true) (signal : Signal) :
      Handles x now c [.unanswered c.question signal] (.error signal)
  | ran (reply : SpawnReply) :
      Handles x now c (x.clearance c ++ [.started c.command reply]) (c.replied now reply)

/-- What the screening of a saved command notes. -/
def commandWarnings (x : Executor σ) (c : SavedCommand) : List String :=
  (x.screen.command c.command).issues.map fun issue => "Security: " ++ issue

theorem commandAllowed_apply (x : Executor σ) (c : SavedCommand) (s : RunState σ) :
    x.commandAllowed c s =
      if x.screen.flags c.command then
        Run.approve x.world c.question (s.told ((x.commandWarnings c).map .warning) s.world)
      else (.ok true, s.told ((x.commandWarnings c).map .warning) s.world) := by
  unfold commandAllowed
  rw [Run.bind_apply, warnIssues_apply, commandWarnings, List.map_map]
  unfold Security.Screen.flags
  cases (x.screen.command c.command).isSafe <;>
    cases (x.screen.command c.command).requiresApproval <;> rfl

theorem executeCommand_apply (x : Executor σ) (now : Int) (c : SavedCommand) (s : RunState σ) :
    x.executeCommand now c s =
      match x.commandAllowed c s with
      | (.ok true, t) => (c.replied now (x.world.spawn c.command t.world).1,
          t.told [.spawned c.command] (x.world.spawn c.command t.world).2)
      | (.ok false, t) => (.ok (⟨c.name, .error (.notApproved .command c.name)⟩, c), t)
      | (.error signal, t) => (.error signal, t) := by
  unfold executeCommand
  rw [Run.bind_apply]
  rcases x.commandAllowed c s with ⟨signal | yes, t⟩
  · rfl
  · cases yes with
    | false => rfl
    | true =>
      dsimp only
      rw [if_pos rfl, Run.bind_apply, Run.spawn_apply]
      cases (x.world.spawn c.command t.world).1 <;> rfl

/-- **A saved command is run in one of these ways**, and exchanges just that with the world. -/
theorem executeCommand_handles (x : Executor σ) (now : Int) (c : SavedCommand) (s : RunState σ) :
    ∃ es, Exchanges x.world s es (x.executeCommand now c s).2 ∧
      x.Handles now c es (x.executeCommand now c s).1 := by
  rw [executeCommand_apply, commandAllowed_apply]
  by_cases hf : x.screen.flags c.command = true
  · rw [if_pos hf]
    rcases ha : Run.approve x.world c.question
      (s.told ((x.commandWarnings c).map .warning) s.world) with ⟨signal | yes, t⟩
    · exact ⟨_, .warned _ (.unanswered ha), .unanswered hf signal⟩
    · cases yes with
      | false => exact ⟨_, .warned _ (.answered ha (.none _)), .declined hf⟩
      | true =>
        have hc : x.clearance c = [.answered c.question true] := if_pos hf
        refine ⟨x.clearance c ++ [.started c.command _], .warned (x.commandWarnings c) ?_, .ran _⟩
        rw [hc]
        exact .answered ha (.started (.none _))
  · rw [if_neg hf]
    have hc : x.clearance c = [] := if_neg hf
    refine ⟨x.clearance c ++ [.started c.command _], .warned (x.commandWarnings c) ?_, .ran _⟩
    rw [hc]
    exact .started (.none _)

end Executor

/-- **What holds of a run of a saved command with its exchanges.**

* `text`, `once`: at most one text is handed over, and that is the text of the command;
* `behindYes`: of a command that is unsafe or calls for approval it is handed over behind a yes;
* `unasked`: about any other command nothing is asked;
* `counted`: when its process has ended, with whatever exit code, the command counts a use at that time;
* `uncounted`: else it stays as it is;
* `declined`, `refused`: a no and a command that could not be started are answered as such. -/
structure Kept (x : Executor σ) (now : Int) (c : SavedCommand) (es : List Exchange)
    (r : Except Signal (StepResult × SavedCommand)) : Prop where
  text : ∀ command reply, .started command reply ∈ es → command = c.command
  once : (es.filter Exchange.isStart).length ≤ 1
  behindYes : x.screen.flags c.command = true → ∀ before command reply after,
    es = before ++ .started command reply :: after → .answered c.question true ∈ before
  unasked : x.screen.flags c.command = false → es.all Exchange.isStart = true
  counted : ∀ command result, .started command (.finished result) ∈ es →
    r = .ok (⟨c.name, .ok result⟩, c.markUsed now)
  uncounted : es.filter Exchange.isFinished = [] → c.behind r = c
  declined : ∀ message, .answered message false ∈ es →
    r = .ok (⟨c.name, .error (.notApproved .command c.name)⟩, c)
  refused : ∀ command reason, .started command (.refused reason) ∈ es →
    r = .ok (⟨c.name, .error (.notStarted reason)⟩, c)

namespace Executor

variable {x : Executor σ} {now : Int} {c : SavedCommand}

/-- The only command in a run that was not declined is the last of its exchanges. -/
theorem eq_of_started_mem {command : String} {reply reply' : SpawnReply}
    (h : .started command reply' ∈ x.clearance c ++ [.started c.command reply]) :
    command = c.command ∧ reply' = reply := by
  unfold clearance at h
  split at h <;> simpa using h

theorem kept_of_ran (reply : SpawnReply) :
    Kept x now c (x.clearance c ++ [.started c.command reply]) (c.replied now reply) where
  text _ _ h := (eq_of_started_mem h).1
  once := by
    unfold clearance
    split <;> exact Nat.le_refl 1
  behindYes hf before command reply' after h := by
    have hc : x.clearance c = [.answered c.question true] := if_pos hf
    rw [hc] at h
    cases before with
    | nil => cases h
    | cons e before =>
      obtain ⟨rfl, -⟩ := List.cons_eq_cons.mp h
      exact List.mem_cons_self
  unasked hf := by
    have hc : x.clearance c = [] := if_neg (by simp [hf])
    rw [hc]
    rfl
  counted _ _ h := by
    obtain ⟨-, rfl⟩ := eq_of_started_mem h
    rfl
  uncounted h := by
    rw [List.filter_append, List.append_eq_nil_iff] at h
    cases reply with
    | finished result => exact absurd h.2 (List.cons_ne_nil _ _)
    | refused reason => rfl
    | raised fault => rfl
  declined message h := by
    unfold clearance at h
    split at h <;> simp at h
  refused _ _ h := by
    obtain ⟨-, rfl⟩ := eq_of_started_mem h
    rfl

/-- A run that hands over nothing keeps to this if it leaves the command as it is. -/
theorem kept_of_unstarted {es : List Exchange} {r : Except Signal (StepResult × SavedCommand)}
    (hno : ∀ command reply, .started command reply ∉ es)
    (hf : x.screen.flags c.command = true) (hr : c.behind r = c)
    (hdeclined : ∀ message, .answered message false ∈ es →
      r = .ok (⟨c.name, .error (.notApproved .command c.name)⟩, c)) : Kept x now c es r where
  text command reply h := absurd h (hno command reply)
  once := by
    have hnone : es.filter Exchange.isStart = [] := by
      rw [List.filter_eq_nil_iff]
      rintro (_ | _ | ⟨command, reply⟩) he
      · exact Bool.false_ne_true
      · exact Bool.false_ne_true
      · exact absurd he (hno command reply)
    rw [hnone]
    exact Nat.zero_le 1
  behindYes _ before command reply after h :=
    absurd (h ▸ List.mem_append_right before List.mem_cons_self) (hno command reply)
  unasked hsafe := by
    rw [hf] at hsafe
    cases hsafe
  counted command result h := absurd h (hno command (.finished result))
  uncounted _ := hr
  declined := hdeclined
  refused command reason h := absurd h (hno command (.refused reason))

/-- **However a saved command is run, the run keeps to this.** -/
theorem kept_of_handles {es : List Exchange} {r : Except Signal (StepResult × SavedCommand)}
    (h : x.Handles now c es r) : Kept x now c es r := by
  cases h with
  | declined hf => exact kept_of_unstarted (by simp) hf rfl fun _ _ => rfl
  | unanswered hf signal => exact kept_of_unstarted (by simp) hf rfl (by simp)
  | ran reply => exact kept_of_ran reply

end Executor

/-! ## 3. Sessions -/

/-- A run of a saved command that is asked for: by whom, and at what time. -/
structure Call (σ : Type) where
  executor : Executor σ
  now : Int

/-- A run that was made: what was asked for, with the command and the state in front of it. -/
structure Made (σ : Type) where
  call : Call σ
  command : SavedCommand
  before : RunState σ

namespace Made

/-- What the run answered. -/
def result (m : Made σ) : Except Signal (StepResult × SavedCommand) :=
  (m.call.executor.executeCommand m.call.now m.command m.before).1

/-- The state behind the run. -/
def after (m : Made σ) : RunState σ :=
  (m.call.executor.executeCommand m.call.now m.command m.before).2

/-- The command behind the run. -/
def commandAfter (m : Made σ) : SavedCommand := m.command.behind m.result

end Made

/-- The runs of a session, one after the other, each with the command and the state that the one before it
leaves. -/
def session : List (Call σ) → SavedCommand → RunState σ → List (Made σ)
  | [], _, _ => []
  | call :: later, c, s =>
    let m : Made σ := ⟨call, c, s⟩
    m :: session later m.commandAfter m.after

/-- The command behind a session. -/
def commandAfter : List (Call σ) → SavedCommand → RunState σ → SavedCommand
  | [], c, _ => c
  | call :: later, c, s =>
    let m : Made σ := ⟨call, c, s⟩
    commandAfter later m.commandAfter m.after

/-- The exchanges of a run that was made, and what they have to do with it. -/
structure Made.Talks (m : Made σ) (es : List Exchange) : Prop where
  exchanges : Exchanges m.call.executor.world m.before es m.after
  log : m.after.events.filter Event.isRequest =
    m.before.events.filter Event.isRequest ++ es.map Exchange.request
  kept : Kept m.call.executor m.call.now m.command es m.result

theorem Made.exists_talks (m : Made σ) : ∃ es, m.Talks es := by
  obtain ⟨es, he, hh⟩ :=
    m.call.executor.executeCommand_handles m.call.now m.command m.before
  exact ⟨es, he, he.requests, Executor.kept_of_handles hh⟩

/-- The times of the runs of a session in which a process ended. -/
def finishedAt : List (Made σ) → List (List Exchange) → List Int
  | m :: ms, es :: talks =>
    if es.any Exchange.isFinished then m.call.now :: finishedAt ms talks else finishedAt ms talks
  | _, _ => []

/-- The command behind a run: a use is counted if a process has ended, and nothing changes if none has. -/
theorem Made.Talks.commandAfter_eq {m : Made σ} {es : List Exchange} (h : m.Talks es) :
    m.commandAfter =
      if es.any Exchange.isFinished then m.command.markUsed m.call.now else m.command := by
  by_cases hf : es.any Exchange.isFinished = true
  · rw [if_pos hf]
    obtain ⟨e, he, hfin⟩ := List.any_eq_true.mp hf
    cases e with
    | started command reply =>
      cases reply with
      | finished result =>
        unfold Made.commandAfter
        rw [h.kept.counted command result he]
        rfl
      | refused | raised => cases hfin
    | answered | unanswered => cases hfin
  · rw [if_neg hf]
    refine h.kept.uncounted (List.filter_eq_nil_iff.mpr fun e he hfin => hf ?_)
    exact List.any_eq_true.mpr ⟨e, he, hfin⟩

/-- Of the exchanges of a run at most one is a process that ended. -/
theorem Made.Talks.length_finished {m : Made σ} {es : List Exchange} (h : m.Talks es) :
    (es.filter Exchange.isFinished).length = if es.any Exchange.isFinished then 1 else 0 := by
  have hle : (es.filter Exchange.isFinished).length ≤ 1 := by
    have hsub : es.filter Exchange.isFinished = (es.filter Exchange.isStart).filter
        Exchange.isFinished := by
      rw [List.filter_filter]
      refine List.filter_congr fun e _ => ?_
      cases hfin : e.isFinished with
      | false => rfl
      | true => rw [e.isStart_of_isFinished hfin]; rfl
    rw [hsub]
    exact Nat.le_trans (List.length_filter_le ..) h.kept.once
  by_cases hf : es.any Exchange.isFinished = true
  · rw [if_pos hf]
    obtain ⟨e, he, hfin⟩ := List.any_eq_true.mp hf
    have hpos := List.length_pos_of_mem (List.mem_filter.mpr ⟨he, hfin⟩)
    omega
  · rw [if_neg hf, List.length_eq_zero_iff, List.filter_eq_nil_iff]
    exact fun e he hfin => hf (List.any_eq_true.mpr ⟨e, he, hfin⟩)

/-- **What holds of a session with the exchanges of its runs.**

* `each`: each run keeps to what is said of one run, with the exchanges it has;
* `used`: behind the session the command is as if used at the times at which a process ended, and at no other;
* `count`: so its count has grown by the number of processes that ended, and by no more. -/
structure SessionKept (calls : List (Call σ)) (c : SavedCommand) (s : RunState σ)
    (talks : List (List Exchange)) : Prop where
  each : List.Forall₂ Made.Talks (session calls c s) talks
  used : commandAfter calls c s =
    (finishedAt (session calls c s) talks).foldl SavedCommand.markUsed c
  count : (commandAfter calls c s).useCount =
    c.useCount + (talks.flatten.filter Exchange.isFinished).length

/-- **Every session with a saved command is kept to**, by any executors and in any world: the command is run
behind the answers it calls for, and its uses are the processes that ended. -/
theorem session_kept (calls : List (Call σ)) (c : SavedCommand) (s : RunState σ) :
    ∃ talks, SessionKept calls c s talks := by
  induction calls generalizing c s with
  | nil => exact ⟨[], .nil, rfl, (Int.add_zero _).symm⟩
  | cons call later ih =>
    let m : Made σ := ⟨call, c, s⟩
    obtain ⟨es, hes⟩ := m.exists_talks
    obtain ⟨talks, ht⟩ := ih m.commandAfter m.after
    have hused := ht.used
    have hcount := ht.count
    have hlength := hes.length_finished
    have hafter := hes.commandAfter_eq
    refine ⟨es :: talks, .cons hes ht.each, ?_, ?_⟩
    · show commandAfter later m.commandAfter m.after =
        (finishedAt (m :: session later m.commandAfter m.after) (es :: talks)).foldl .markUsed c
      rw [hused, finishedAt]
      generalize finishedAt (session later m.commandAfter m.after) talks = times
      rw [hafter]
      split <;> rfl
    · show (commandAfter later m.commandAfter m.after).useCount = _
      rw [hcount, hafter, List.flatten_cons, List.filter_append, List.length_append, hlength]
      split
      · show c.useCount + 1 + _ = _
        omega
      · show c.useCount + _ = _
        omega

end Runbook
