import Runbook.Proofs.Pattern.Matching
import Runbook.Proofs.Text.Words
import Runbook.Security.Command

/-!
# What raises an issue of a command

The checks of a command run over its text one after the other. What each of them looks for can be said of
the text alone:

* `Screen.Raises`: what a text has to have for an issue, one case for each check;
* **`Screen.mem_commandIssues_iff`**: the issues of a command are what its text raises;
* `RawDisk.spans`: a redirection to a raw disk trips one of the dangerous patterns;
* `DeviceAt`, `NullAt`: the places of a text where output goes to a device, and to the null device;
* **`Screen.command_deviceRedirections`**: which redirections are reported. One into the null device anywhere
  keeps all others from it; a command with one to a raw disk is unsafe all the same.
-/

namespace Runbook.Security

/-! ## 1. Issues -/

/-- **What raises an issue in a text**: one case for each check, with what the text has to have for it. -/
inductive Screen.Raises (screen : Screen) (cs : List Char) : String → Prop
  | length (long : screen.maxLength < (cs.length : Int)) :
      Raises screen cs "Command is too long (potential buffer overflow)"
  | null (mem : Char.ofNat 0 ∈ cs) :
      Raises screen cs "Command contains null bytes (potential injection)"
  | pattern {text : String} {p : Pattern} (mem : (text, p) ∈ dangerPatterns) {i j : Nat}
      (place : i ≤ cs.length) (spans : p.Spans cs i j) :
      Raises screen cs ("Dangerous pattern detected: " ++ text)
  | firstWord {w : List Char} (first : Text.FirstWord w cs)
      (dangerous : String.ofList w ∈ screen.dangerousWords) :
      Raises screen cs ("Potentially dangerous command: " ++ String.ofList w)
  | device (device : ">/dev/".toList <:+: cs) (loud : ¬">/dev/null".toList <:+: cs) :
      Raises screen cs "Suspicious redirection to device file"
  | chaining (many : screen.maxChained < (cs.count ';' : Int)) :
      Raises screen cs "Excessive command chaining detected"
  | substitution (opened : "$(".toList <:+: cs ∨ '`' ∈ cs) :
      Raises screen cs "Command substitution detected - review carefully"

theorem mem_issueIf {condition : Bool} {issue entry : String} :
    entry ∈ issueIf condition issue ↔ condition = true ∧ entry = issue := by
  cases condition <;> simp [issueIf]

/-- The dangerous patterns ask nothing of what follows, but whether it is part of a word. -/
theorem isOpenEnded_of_mem {entry : String × Pattern} (h : entry ∈ dangerPatterns) :
    entry.2.isOpenEnded = true := by
  have hall : dangerPatterns.all (·.2.isOpenEnded) = true := by decide +kernel
  exact List.all_eq_true.mp hall entry h

theorem search_dangerPattern_iff {text : String} {p : Pattern} (h : (text, p) ∈ dangerPatterns)
    {cs : List Char} : p.search cs = true ↔ ∃ i ≤ cs.length, ∃ j, p.Spans cs i j :=
  Pattern.search_iff (Pattern.asked_of_isOpenEnded (isOpenEnded_of_mem h))

theorem redirectsToDevice_iff {cs : List Char} : redirectsToDevice cs = true ↔
    ">/dev/".toList <:+: cs ∧ ¬">/dev/null".toList <:+: cs := by
  unfold redirectsToDevice
  rw [Bool.and_eq_true, Bool.not_eq_true', ← Bool.not_eq_true, Text.occursIn_iff, Text.occursIn_iff]

namespace Screen

variable {screen : Screen} {command issue : String}

theorem mem_firstWordIssues_iff {cs : List Char} : issue ∈ screen.firstWordIssues cs ↔
    ∃ w, Text.FirstWord w cs ∧ String.ofList w ∈ screen.dangerousWords ∧
      issue = "Potentially dangerous command: " ++ String.ofList w := by
  simp only [← Text.head?_wordsOf_eq_some_iff]
  unfold firstWordIssues
  cases Text.wordsOf cs with
  | nil => simp
  | cons w rest => simp [mem_issueIf]

/-- **The issues of a command are what its text raises.** -/
theorem mem_commandIssues_iff :
    issue ∈ screen.commandIssues command ↔ screen.Raises command.toList issue := by
  unfold commandIssues
  simp only [List.mem_append, mem_issueIf, List.mem_map, List.mem_filter, mem_firstWordIssues_iff,
    decide_eq_true_eq, List.contains_iff_mem, Bool.or_eq_true, Text.occursIn_iff,
    redirectsToDevice_iff]
  constructor
  · rintro ((((((⟨h, rfl⟩ | ⟨h, rfl⟩) | ⟨⟨text, p⟩, ⟨hmem, h⟩, rfl⟩) | ⟨w, hw, h, rfl⟩) | ⟨h, rfl⟩) |
      ⟨h, rfl⟩) | ⟨h, rfl⟩)
    · exact .length h
    · exact .null h
    · obtain ⟨i, hi, j, hij⟩ := (search_dangerPattern_iff hmem).mp h
      exact .pattern hmem hi hij
    · exact .firstWord hw h
    · exact .device h.1 h.2
    · exact .chaining h
    · exact .substitution (h.imp_right fun h => h.subset (List.mem_singleton_self _))
  · intro h
    cases h with
    | length long => exact .inl (.inl (.inl (.inl (.inl (.inl ⟨long, rfl⟩)))))
    | null mem => exact .inl (.inl (.inl (.inl (.inl (.inr ⟨mem, rfl⟩)))))
    | pattern mem place spans =>
      have hfound := (search_dangerPattern_iff mem).mpr ⟨_, place, _, spans⟩
      exact .inl (.inl (.inl (.inl (.inr ⟨_, ⟨mem, hfound⟩, rfl⟩))))
    | firstWord first dangerous => exact .inl (.inl (.inl (.inr ⟨_, first, dangerous, rfl⟩)))
    | device device loud => exact .inl (.inl (.inr ⟨⟨device, loud⟩, rfl⟩))
    | chaining many => exact .inl (.inr ⟨many, rfl⟩)
    | substitution opened =>
      refine .inr ⟨opened.imp_right fun h => ?_, rfl⟩
      exact Text.occursIn_iff.mp (Text.occursIn_singleton_iff.mpr h)

/-- The first word alone decides on the issue of a first word. -/
theorem firstWordIssue_iff {v : String} :
    "Potentially dangerous command: " ++ v ∈ (screen.command command).issues ↔
      Text.FirstWord v.toList command.toList ∧ v ∈ screen.dangerousWords := by
  refine mem_commandIssues_iff.trans ⟨fun h => ?_, fun ⟨first, dangerous⟩ => ?_⟩
  · generalize hissue : "Potentially dangerous command: " ++ v = issue at h
    -- no other issue has its first letter
    have hletter := congrArg (·.toList.head?) hissue
    cases h with
    | firstWord first dangerous =>
      obtain rfl : v.toList = _ := by simpa using congrArg String.toList hissue
      exact ⟨first, by rwa [String.ofList_toList] at dangerous⟩
    | _ => simp at hletter
  · have hraised := Raises.firstWord first (by rwa [String.ofList_toList])
    rwa [String.ofList_toList] at hraised

/-- A command is safe exactly if its text raises nothing. -/
theorem isSafe_eq_false_iff :
    (screen.command command).isSafe = false ↔ ∃ issue, screen.Raises command.toList issue := by
  show (screen.commandIssues command).isEmpty = false ↔ _
  rw [← Bool.not_eq_true, List.isEmpty_iff, List.eq_nil_iff_forall_not_mem]
  simp only [mem_commandIssues_iff, not_forall, not_not]

end Screen

/-! ## 2. Redirections to a raw disk -/

/-- A text starts with the name of a raw disk. -/
inductive RawDisk : List Char → Prop
  | scsi {c : Char} {rest : List Char} (letter : 'a' ≤ c ∧ c ≤ 'z') : RawDisk ('s' :: 'd' :: c :: rest)
  | ide {c : Char} {rest : List Char} (letter : 'a' ≤ c ∧ c ≤ 'z') : RawDisk ('h' :: 'd' :: c :: rest)
  | nvme {c : Char} {rest : List Char} (digit : Text.isDecimal c = true) :
      RawDisk ('n' :: 'v' :: 'm' :: 'e' :: c :: rest)

/-- A text and then what a pattern asks for. -/
def behind (start : String) (p : Pattern) : Pattern :=
  start.toList.foldr (fun c q => .seq (.char (.one c)) q) p

/-- The dangerous pattern of a redirection to a raw disk. -/
def diskRedirection : Pattern :=
  behind ">" <| .seq (.repeated (.char .blank) 0 none) <| behind "/dev/" <|
    .alt (behind "sd" (.char (.range 'a' 'z')))
      (.alt (behind "hd" (.char (.range 'a' 'z'))) (behind "nvme" (.char .digit)))

theorem diskRedirection_mem :
    (">\\s*/dev/(?:sd[a-z]|hd[a-z]|nvme\\d)", diskRedirection) ∈ dangerPatterns := by
  decide +kernel

variable {cs rest : List Char} {i j : Nat}

theorem drop_of_drop_eq_append {front : List Char} (h : cs.drop i = front ++ rest) :
    cs.drop (i + front.length) = rest := by
  rw [← List.drop_drop, h, List.drop_left]

/-- The characters of a text are gone over where they stand. -/
theorem spans_behind {start : String} {p : Pattern} (h : cs.drop i = start.toList ++ rest)
    (hp : p.Spans cs (i + start.toList.length) j) : (behind start p).Spans cs i j := by
  unfold behind
  generalize start.toList = front at h hp
  induction front generalizing i with
  | nil => exact hp
  | cons c front ih =>
    have hc : cs[i]? = some c := by rw [← List.head?_drop, h]; rfl
    have hone : cs.drop i = [c] ++ (front ++ rest) := h
    refine ⟨i + 1, ⟨rfl, c, hc, beq_self_eq_true c⟩, ih (drop_of_drop_eq_append hone) ?_⟩
    rwa [List.length_cons, Nat.add_comm front.length, ← Nat.add_assoc] at hp

/-- So are the characters of a text and one of a set behind them. -/
theorem spans_behind_char {start : String} {set : CharSet} {c : Char}
    (h : cs.drop i = start.toList ++ c :: rest) (hset : set.contains c = true) :
    ∃ j, (behind start (.char set)).Spans cs i j := by
  have hc : cs[i + start.toList.length]? = some c := by
    rw [← List.head?_drop, drop_of_drop_eq_append h]
    rfl
  exact ⟨_, spans_behind h ⟨rfl, c, hc, hset⟩⟩

/-- **A redirection to a raw disk is one of the dangerous patterns.** -/
theorem RawDisk.spans {name : List Char} (h : RawDisk name)
    (hcs : cs.drop i = ">/dev/".toList ++ name) : ∃ j, diskRedirection.Spans cs i j := by
  have harrow : cs.drop i = ">".toList ++ ("/dev/".toList ++ name) := hcs
  have hdev := drop_of_drop_eq_append harrow
  have hname := drop_of_drop_eq_append hdev
  have hletter {c : Char} (hc : 'a' ≤ c ∧ c ≤ 'z') : (CharSet.range 'a' 'z').contains c = true := by
    simpa [CharSet.contains] using hc
  have hnamed : ∃ j, (Pattern.alt (behind "sd" (.char (.range 'a' 'z')))
      (.alt (behind "hd" (.char (.range 'a' 'z'))) (behind "nvme" (.char .digit)))).Spans cs
        (i + ">".toList.length + "/dev/".toList.length) j := by
    cases h with
    | scsi letter => exact (spans_behind_char hname (hletter letter)).imp fun _ h => .inl h
    | ide letter => exact (spans_behind_char hname (hletter letter)).imp fun _ h => .inr (.inl h)
    | nvme digit =>
      have hdigit : CharSet.digit.contains _ = true := digit
      exact (spans_behind_char hname hdigit).imp fun _ h => .inr (.inr h)
  obtain ⟨j, hj⟩ := hnamed
  -- no blanks are needed between the arrow and the path
  exact ⟨j, spans_behind harrow ⟨_, ⟨0, Nat.le_refl 0, by simp, .zero⟩, spans_behind hdev hj⟩⟩

/-! ## 3. Redirections into devices -/

/-- Output goes to a device at a place of a text. -/
def DeviceAt (cs : List Char) (i : Nat) : Prop := ">/dev/".toList <+: cs.drop i

/-- Output goes to the null device, or one whose name goes on from there, at a place of a text. -/
def NullAt (cs : List Char) (i : Nat) : Prop := ">/dev/null".toList <+: cs.drop i

instance (i : Nat) : Decidable (DeviceAt cs i) := inferInstanceAs (Decidable (_ <+: _))

instance (i : Nat) : Decidable (NullAt cs i) := inferInstanceAs (Decidable (_ <+: _))

theorem infix_iff_exists_drop {part : List Char} : part <:+: cs ↔ ∃ i, part <+: cs.drop i := by
  rw [List.infix_iff_prefix_suffix]
  constructor
  · rintro ⟨t, hpart, ht⟩
    exact ⟨_, List.suffix_iff_eq_drop.mp ht ▸ hpart⟩
  · rintro ⟨i, hpart⟩
    exact ⟨_, hpart, List.drop_suffix i cs⟩

/-- What the report on a command says of the redirections in its text. -/
structure DeviceRedirections (screen : Screen) (command : String) : Prop where
  /-- Where output goes to another device than the null device, this is reported exactly if none goes to
  the null device, before or behind it. -/
  reported : ∀ i, DeviceAt command.toList i → ¬NullAt command.toList i →
    ("Suspicious redirection to device file" ∈ (screen.command command).issues ↔
      ∀ j, ¬NullAt command.toList j)
  /-- The command counts as unsafe then. -/
  isUnsafe : "Suspicious redirection to device file" ∈ (screen.command command).issues →
    (screen.command command).isSafe = false
  /-- Output to the null device alone is not reported. -/
  harmless : (∀ i, DeviceAt command.toList i → NullAt command.toList i) →
    "Suspicious redirection to device file" ∉ (screen.command command).issues
  /-- Output to a raw disk makes a command unsafe, whatever else its text has. -/
  rawDisk : ∀ i name, command.toList.drop i = ">/dev/".toList ++ name → RawDisk name →
    (screen.command command).isSafe = false

theorem Screen.deviceIssue_iff {screen : Screen} {command : String} :
    "Suspicious redirection to device file" ∈ (screen.command command).issues ↔
      (∃ i, DeviceAt command.toList i) ∧ ∀ j, ¬NullAt command.toList j := by
  refine mem_commandIssues_iff.trans ?_
  unfold DeviceAt NullAt
  rw [← infix_iff_exists_drop, ← not_exists, ← infix_iff_exists_drop]
  constructor
  · intro h
    generalize hissue : "Suspicious redirection to device file" = issue at h
    -- no other issue has its first letter
    have hfirst := congrArg (·.toList.head?) hissue
    cases h with
    | device device loud => exact ⟨device, loud⟩
    | _ => simp at hfirst
  · rintro ⟨device, loud⟩
    exact .device device loud

/-- **A redirection into a device is reported exactly if there is none into the null device**, anywhere in
the text; one to a raw disk makes the command unsafe all the same. -/
theorem Screen.command_deviceRedirections (screen : Screen) (command : String) :
    DeviceRedirections screen command where
  reported i hdevice hloud := by
    rw [deviceIssue_iff]
    exact and_iff_right ⟨i, hdevice⟩
  isUnsafe h := isSafe_eq_false_iff.mpr ⟨_, mem_commandIssues_iff.mp h⟩
  harmless hall h := by
    obtain ⟨⟨i, hdevice⟩, hloud⟩ := deviceIssue_iff.mp h
    exact hloud i (hall i hdevice)
  rawDisk i name hcs hname := by
    obtain ⟨j, hspans⟩ := hname.spans hcs
    have hplace : i ≤ command.toList.length := by
      by_contra hgt
      rw [List.drop_eq_nil_of_le (by omega)] at hcs
      simp at hcs
    exact isSafe_eq_false_iff.mpr ⟨_, .pattern diskRedirection_mem hplace hspans⟩

/-- Output to a terminal is not reported where errors go to the null device. -/
theorem tty_hidden_by_null_device :
    DeviceAt "echo x >/dev/tty1 2>/dev/null".toList 7 ∧
      ¬NullAt "echo x >/dev/tty1 2>/dev/null".toList 7 ∧
      (Screen.ofConfig Config.standard).toOption.map (·.command "echo x >/dev/tty1 2>/dev/null") =
        some ⟨"echo x >/dev/tty1 2>/dev/null", true, true, []⟩ := by
  decide +kernel

end Runbook.Security
