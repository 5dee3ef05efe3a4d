import Runbook.Proofs.Security.Issues

/-!
# Commands behind a command

Most of what a command is flagged for it is still flagged for where another command stands behind it, with
a semicolon between them. Two issues may be lost that way:

* `MayLose`: that of a first word which is the whole command, as the semicolon counts as a part of the word
  then; and that of a redirection into a device, where the other command has one into the null device;
* `Screen.Raises.followed`: what a text raises, it raises with another one behind it, or it may lose it;
* **`Screen.command_followed`**: a command that is flagged for anything else is unsafe with any other
  command behind it.
-/

namespace Runbook.Security

/-- A command with another one behind it. -/
def followedBy (first second : String) : String := first ++ "; " ++ second

/-- The issues that a text may lose where another one stands behind it. -/
inductive MayLose (first second : List Char) : String → Prop
  | loneWord {w : List Char} (lone : Text.LoneWord w first) :
      MayLose first second ("Potentially dangerous command: " ++ String.ofList w)
  | device (quiet : ">/dev/null".toList <:+: second) :
      MayLose first second "Suspicious redirection to device file"

/-- A part of a text without a character that stands there lies in front of it or behind it. -/
theorem infix_cut {part front back : List Char} {c : Char} (hc : c ∉ part)
    (h : part <:+: front ++ c :: back) : part <:+: front ∨ part <:+: back := by
  obtain ⟨l, r, h⟩ := h
  rcases List.append_eq_append_iff.mp h with ⟨t, hfront, -⟩ | ⟨t, hleft, hright⟩
  · exact .inl ⟨l, t, hfront.symm⟩
  cases t with
  | nil => exact .inl ⟨l, [], by simpa using hleft⟩
  | cons d t =>
    obtain ⟨rfl, rfl⟩ : c = d ∧ back = t ++ r := by simpa using hright
    rcases List.append_eq_append_iff.mp hleft with ⟨u, -, hpart⟩ | ⟨u, -, hpart⟩
    · exact absurd (by simp [hpart]) hc
    · cases u with
      | nil =>
        obtain rfl : c :: t = part := hpart
        exact absurd List.mem_cons_self hc
      | cons d u =>
        obtain ⟨-, rfl⟩ : c = d ∧ t = u ++ part := by simpa using hpart
        exact .inr ⟨u, r, rfl⟩

theorem toList_followedBy (first second : String) :
    (followedBy first second).toList = first.toList ++ ';' :: ' ' :: second.toList := by
  simp [followedBy]

namespace Screen

variable {screen : Screen}

/-- **What a text raises, it raises with another one behind it**, or it may lose it. -/
theorem Raises.followed {first : List Char} {issue : String} (h : screen.Raises first issue)
    (second : List Char) :
    screen.Raises (first ++ ';' :: ' ' :: second) issue ∨ MayLose first second issue := by
  cases h with
  | length long =>
    refine .inl (.length ?_)
    rw [List.length_append]
    omega
  | null mem => exact .inl (.null (List.mem_append_left _ mem))
  | pattern mem place spans =>
    refine .inl (.pattern mem ?_ (spans.append (isOpenEnded_of_mem mem) ?_))
    · rw [List.length_append]
      omega
    · rintro c ⟨⟩
      decide
  | firstWord hfirst dangerous =>
    rcases hfirst.append (';' :: ' ' :: second) with hkept | hlone
    · exact .inl (.firstWord hkept dangerous)
    · exact .inr (.loneWord hlone)
  | device hdevice loud =>
    by_cases hquiet : ">/dev/null".toList <:+: second
    · exact .inr (.device hquiet)
    · refine .inl (.device (hdevice.trans (List.prefix_append _ _).isInfix) fun hnull => ?_)
      -- the path has neither a semicolon nor a blank, so it lies in one of the two commands
      rcases infix_cut (by decide) hnull with hnull | hnull
      · exact loud hnull
      · have hcut : ">/dev/null".toList <:+: [] ++ ' ' :: second := hnull
        rcases infix_cut (by decide) hcut with hnull | hnull
        · simp at hnull
        · exact hquiet hnull
  | chaining many =>
    refine .inl (.chaining ?_)
    rw [List.count_append]
    omega
  | substitution opened =>
    refine .inl (.substitution (opened.imp ?_ ?_))
    · exact fun h => h.trans (List.prefix_append _ _).isInfix
    · exact fun h => List.mem_append_left _ h

/-- What the report on a command says of the one on it with another command behind it. -/
structure Followed (screen : Screen) (first second : String) : Prop where
  /-- Every issue is reported again, but for those that may be lost. -/
  kept : ∀ issue ∈ (screen.command first).issues,
    issue ∈ (screen.command (followedBy first second)).issues ∨
      MayLose first.toList second.toList issue
  /-- An unsafe command is still unsafe then, unless all its issues may be lost. -/
  isUnsafe : (screen.command first).isSafe = false →
    (screen.command (followedBy first second)).isSafe = false ∨
      ∀ issue ∈ (screen.command first).issues, MayLose first.toList second.toList issue
  /-- A command of one word gives the whole this word as its first one, with the semicolon. -/
  loneWord : ∀ w, Text.LoneWord w first.toList → ∀ v,
    ("Potentially dangerous command: " ++ v ∈ (screen.command (followedBy first second)).issues ↔
      v = String.ofList w ++ ";" ∧ v ∈ screen.dangerousWords)

/-- **A command that is flagged is unsafe with any other command behind it**, but where all its issues are
those that may be lost. -/
theorem command_followed (screen : Screen) (first second : String) : screen.Followed first second := by
  have hkept : ∀ issue ∈ (screen.command first).issues,
      issue ∈ (screen.command (followedBy first second)).issues ∨
        MayLose first.toList second.toList issue := by
    intro issue hissue
    refine ((mem_commandIssues_iff.mp hissue).followed second.toList).imp_left fun h => ?_
    refine mem_commandIssues_iff.mpr ?_
    rwa [toList_followedBy]
  refine ⟨hkept, fun hunsafe => ?_, fun w hw v => ?_⟩
  · by_cases hall : ∀ issue ∈ (screen.command first).issues, MayLose first.toList second.toList issue
    · exact .inr hall
    · obtain ⟨issue, hissue, hsure⟩ : ∃ issue ∈ (screen.command first).issues,
          ¬MayLose first.toList second.toList issue := by simpa using hall
      have hagain := (hkept issue hissue).resolve_right hsure
      exact .inl (isSafe_eq_false_iff.mpr ⟨issue, mem_commandIssues_iff.mp hagain⟩)
  · have hjoined : Text.FirstWord (w ++ [';']) (first.toList ++ ([';'] ++ ' ' :: second.toList)) :=
      hw.joined (List.forall_mem_singleton.mpr (by decide)) (by rintro c ⟨⟩; decide)
    have hwhole : Text.FirstWord (w ++ [';']) (followedBy first second).toList := by
      rwa [toList_followedBy]
    have hword : Text.FirstWord v.toList (followedBy first second).toList ↔
        v = String.ofList w ++ ";" := by
      rw [← String.toList_inj, String.toList_append, String.toList_ofList]
      exact ⟨fun h => h.unique hwhole, fun h => h ▸ hwhole⟩
    rw [firstWordIssue_iff, hword]

/-- A dangerous command of one word is unsafe alone, and safe with another command behind it. -/
theorem reboot_safe_when_followed : (Screen.ofConfig Config.standard).toOption.map (fun screen =>
    ((screen.command "reboot").isSafe, (screen.command (followedBy "reboot" "echo hi")).isSafe)) =
      some (false, true) := by
  decide +kernel

end Screen

end Runbook.Security
