import Runbook.Config.File
import Runbook.Definition.File
import Runbook.Proofs.Definition.Documents
import Runbook.Proofs.Json.Size
import Runbook.Proofs.Yaml.Misfit
import Runbook.ShellFunction.Conversion

/-!
# What files fail with

A file that gives nothing should be reported: the error says what is wrong with the file. What each of the
three readers of files fails with besides, and for which bytes:

* `LoadError.IsReported`, `ConversionError.IsReported`, `Config.FileError.IsReported`: errors that say what
  is wrong with a file;
* `Workflow.JsonUnreported`, `Workflow.YamlUnreported`: texts that a workflow is not read from, without a
  report; `ofJson_unreported_iff`, `ofYaml_unreported_iff`;
* `Workflow.FileUnreported`, `ShellFunction.FileUnreported`, `Config.FileUnreported`: the same for files;
* **`File.readers_answered`**: all three readers, for any content;
* `File.readers_unreported`: a byte that no text has is reported by none of them, and an impossible date
  not by the reader of configurations.
-/

namespace Runbook

/-! ## 1. Errors -/

/-- An error that says what is wrong with a file that should hold a workflow. -/
def LoadError.IsReported : LoadError → Prop
  | .notText => False
  | .oversizedJson _ => False
  | .invalidYaml problem => problem.isMalformed = true
  | .definition e => e.IsReported
  | _ => True

/-- An error that says what is wrong with a script. -/
def ShellFunction.ConversionError.IsReported : ConversionError → Prop
  | .notText => False
  | .oversizedNumber => False
  | _ => True

/-- An error that says what is wrong with a configuration. Settings that hold themselves are taken in,
and only cannot be kept. -/
def Config.FileError.IsReported : Config.FileError → Prop
  | .notText => False
  | .invalidYaml _ problem => problem.isMalformed = true
  | _ => True

/-- Bytes are no text if they are no sequence of characters in UTF-8. -/
theorem File.textOf?_eq_none_iff {data : ByteArray} :
    File.textOf? data = none ↔ ¬ data.IsValidUTF8 := by
  unfold File.textOf? String.fromUTF8?
  split
  · rename_i hvalid
    exact ⟨nofun, fun h => absurd hvalid h⟩
  · rename_i hvalid
    exact ⟨fun _ => hvalid, fun _ => rfl⟩

/-! ## 2. Workflows -/

namespace Workflow

/-- **Texts in JSON that give neither a workflow nor a report.** -/
inductive JsonUnreported (text : List Char) : Prop
  /-- More brackets are open, or a whole number has more digits, than the reader goes into. -/
  | oversized {fault : Json.Fault} (h : Json.read text = .error fault)
      (sound : fault.problem.isMalformed = false) (size : Json.Oversized 0 text fault.problem)
  /-- Somewhere in the steps the cases of a branch are a single value. -/
  | clogged {v block : Value} (h : Json.read text = .ok v)
      (gives : Definition.WorkflowSteps v block) (stuck : Definition.Clogged block)

/-- **Texts in YAML that give neither a workflow nor a report.** -/
inductive YamlUnreported (text : List Char) : Prop
  /-- The text is not malformed, but it has no value. -/
  | refused {problem : Yaml.Problem} (h : Yaml.read text = .error problem)
      (sound : problem.isMalformed = false) (why : Yaml.Refusal text problem)
  /-- The steps hold cases that are a single value, or hold themselves. -/
  | unending {d : Document} {block : Nat} (h : Yaml.read text = .ok d)
      (gives : d.WorkflowSteps block) (stuck : d.Unending block)

/-- An error of a definition is reported as one of the file. -/
theorem exists_definition_iff {α : Type} {answer : Except DefinitionError α} :
    (∃ e, answer.mapError LoadError.definition = .error e ∧ ¬ e.IsReported) ↔
      ∃ e, answer = .error e ∧ ¬ e.IsReported := by
  cases answer with
  | ok a => exact ⟨nofun, nofun⟩
  | error e =>
    constructor
    · rintro ⟨_, ⟨⟩, hr⟩
      exact ⟨e, rfl, hr⟩
    · rintro ⟨_, ⟨⟩, hr⟩
      exact ⟨.definition e, rfl, hr⟩

theorem ofJson_unreported_iff {now : Int} {text : List Char} :
    (∃ e, ofJson now text = .error e ∧ ¬ e.IsReported) ↔ JsonUnreported text := by
  unfold ofJson
  cases hread : Json.read text with
  | ok v =>
    dsimp only
    rw [exists_definition_iff, Definition.exists_unreported_iff ofValue_ne_endlessSteps,
      ofValue_eq_unlistable_iff]
    constructor
    · rintro ⟨block, gives, stuck⟩
      exact .clogged hread gives stuck
    · rintro (⟨h⟩ | ⟨h, gives, stuck⟩)
      · cases hread.symm.trans h
      · cases hread.symm.trans h
        exact ⟨_, gives, stuck⟩
  | error fault =>
    dsimp only
    cases hsound : fault.problem.isMalformed with
    | true =>
      refine ⟨?_, ?_⟩
      · rintro ⟨_, ⟨⟩, hr⟩
        exact absurd trivial hr
      · rintro (⟨h, sound⟩ | ⟨h⟩)
        · cases hread.symm.trans h
          cases hsound.symm.trans sound
        · cases hread.symm.trans h
    | false =>
      exact ⟨fun _ => .oversized hread hsound (Json.oversized_of_read hread),
        fun _ => ⟨.oversizedJson fault.problem, rfl, id⟩⟩

theorem ofYaml_unreported_iff {now : Int} {text : List Char} :
    (∃ e, ofYaml now text = .error e ∧ ¬ e.IsReported) ↔ YamlUnreported text := by
  unfold ofYaml
  cases hread : Yaml.read text with
  | ok d =>
    dsimp only
    rw [exists_definition_iff, ofDocument_unreported_iff]
    constructor
    · rintro ⟨block, gives, stuck⟩
      exact .unending hread gives stuck
    · rintro (⟨h⟩ | ⟨h, gives, stuck⟩)
      · cases hread.symm.trans h
      · cases hread.symm.trans h
        exact ⟨_, gives, stuck⟩
  | error problem =>
    dsimp only
    constructor
    · rintro ⟨_, ⟨⟩, hr⟩
      have sound := Bool.eq_false_iff.mpr hr
      exact .refused hread sound (Yaml.refusal_of_read hread sound)
    · rintro (⟨h, sound⟩ | ⟨h⟩)
      · cases hread.symm.trans h
        exact ⟨_, rfl, Bool.eq_false_iff.mp sound⟩
      · cases hread.symm.trans h

/-- **Files that give neither a workflow nor a report.** -/
inductive FileUnreported (path : String) (data : ByteArray) : Prop
  | notText (h : ¬ data.IsValidUTF8)
  | json {text : List Char} (h : File.textOf? data = some text)
      (format : FileFormat.ofName (File.lastPart path) = .ok .json) (why : JsonUnreported text)
  | yaml {text : List Char} (h : File.textOf? data = some text)
      (format : FileFormat.ofName (File.lastPart path) = .ok .yaml) (why : YamlUnreported text)

/-- A name without a format is reported. -/
theorem isReported_of_ofName {name : List Char} {e : LoadError}
    (h : FileFormat.ofName name = .error e) : e.IsReported := by
  unfold FileFormat.ofName at h
  dsimp only at h
  split at h
  · cases h
  · split at h
    · cases h
    · cases h
      trivial

theorem ofFile_unreported_iff {now : Int} {path : String} {content : Option ByteArray} :
    (∃ e, ofFile now path content = .error e ∧ ¬ e.IsReported) ↔
      ∃ data, content = some data ∧ FileUnreported path data := by
  unfold ofFile
  cases content with
  | none =>
    refine ⟨?_, nofun⟩
    rintro ⟨_, ⟨⟩, hr⟩
    exact absurd trivial hr
  | some data =>
    rw [show (∃ data', some data = some data' ∧ FileUnreported path data') ↔
      FileUnreported path data by simp]
    dsimp only
    cases htext : File.textOf? data with
    | none =>
      have hdata := File.textOf?_eq_none_iff.mp htext
      exact ⟨fun _ => .notText hdata, fun _ => ⟨.notText, rfl, id⟩⟩
    | some text =>
      have hvalid : data.IsValidUTF8 := by
        by_contra h
        cases htext.symm.trans (File.textOf?_eq_none_iff.mpr h)
      cases hformat : FileFormat.ofName (File.lastPart path) with
      | error e =>
        constructor
        · rintro ⟨_, ⟨⟩, hr⟩
          exact absurd (isReported_of_ofName hformat) hr
        · rintro (h | ⟨_, format⟩ | ⟨_, format⟩)
          · exact absurd hvalid h
          · cases hformat.symm.trans format
          · cases hformat.symm.trans format
      | ok format =>
        cases format with
        | json =>
          refine ofJson_unreported_iff.trans ⟨.json htext hformat, ?_⟩
          rintro (h | ⟨h, _, why⟩ | ⟨_, format⟩)
          · exact absurd hvalid h
          · cases htext.symm.trans h
            exact why
          · cases hformat.symm.trans format
        | yaml =>
          refine ofYaml_unreported_iff.trans ⟨.yaml htext hformat, ?_⟩
          rintro (h | ⟨_, format⟩ | ⟨h, _, why⟩)
          · exact absurd hvalid h
          · cases hformat.symm.trans format
          · cases htext.symm.trans h
            exact why

end Workflow

/-! ## 3. Scripts and configurations -/

namespace ShellFunction

/-- **Files that give neither the workflow of a function nor a report.** -/
inductive FileUnreported (name : String) (data : ByteArray) : Prop
  | notText (h : ¬ data.IsValidUTF8)
  /-- The body is read, but not the number of a parameter that it uses. -/
  | oversized {text digits : List Char} {body : String} {block : List Statement}
      (h : File.textOf? data = some text) (defined : bodyOf? name (String.ofList text) = some body)
      (read : Statement.ofText body = .ok block) (used : digits ∈ parametersUsed body)
      (long : maxDigits < digits.length)

/-- Whatever is wrong with a body is reported, or it is the number of a parameter. -/
theorem ofBody_unreported_iff {now : Int} {r : ConversionRequest} {body : String} :
    (∃ e, ofBody now r body = .error e ∧ ¬ e.IsReported) ↔
      ∃ block digits, Statement.ofText body = .ok block ∧ digits ∈ parametersUsed body ∧
        maxDigits < digits.length := by
  have hlong : hasOversizedParameter body = true ↔
      ∃ digits ∈ parametersUsed body, maxDigits < digits.length := by
    simp [hasOversizedParameter]
  unfold ofBody extractVariables
  cases Statement.ofText body with
  | error e =>
    refine ⟨?_, nofun⟩
    rintro ⟨_, ⟨⟩, hr⟩
    exact absurd trivial hr
  | ok block =>
    dsimp only
    split
    · rename_i h
      obtain ⟨digits, hd⟩ := hlong.mp h
      exact ⟨fun _ => ⟨block, digits, rfl, hd⟩, fun _ => ⟨.oversizedNumber, rfl, id⟩⟩
    · rename_i h
      refine ⟨nofun, ?_⟩
      rintro ⟨-, digits, -, hd⟩
      exact absurd (hlong.mpr ⟨digits, hd⟩) h

theorem convertFile_unreported_iff {now : Int} {r : ConversionRequest} {path : String}
    {content : Option ByteArray} :
    (∃ e, convertFile now r path content = .error e ∧ ¬ e.IsReported) ↔
      ∃ data, content = some data ∧ FileUnreported r.function data := by
  unfold convertFile
  cases content with
  | none =>
    refine ⟨?_, nofun⟩
    rintro ⟨_, ⟨⟩, hr⟩
    exact absurd trivial hr
  | some data =>
    dsimp only
    cases htext : File.textOf? data with
    | none =>
      exact ⟨fun _ => ⟨data, rfl, .notText (File.textOf?_eq_none_iff.mp htext)⟩,
        fun _ => ⟨.notText, rfl, id⟩⟩
    | some text =>
      dsimp only
      unfold convert extractBody
      constructor
      · rintro ⟨e, he, hr⟩
        cases hbody : bodyOf? r.function (String.ofList text) with
        | none =>
          rw [hbody] at he
          cases he
          exact absurd trivial hr
        | some body =>
          rw [hbody] at he
          obtain ⟨block, digits, hread, hused, hlong⟩ := ofBody_unreported_iff.mp ⟨e, he, hr⟩
          exact ⟨data, rfl, .oversized htext hbody hread hused hlong⟩
      · rintro ⟨_, ⟨⟩, h | ⟨h, defined, read, used, long⟩⟩
        · cases htext.symm.trans (File.textOf?_eq_none_iff.mpr h)
        · cases htext.symm.trans h
          rw [defined]
          exact ofBody_unreported_iff.mpr ⟨_, _, read, used, long⟩

end ShellFunction

namespace Config

/-- **Files that give neither a configuration nor a report.** -/
inductive FileUnreported (data : ByteArray) : Prop
  | notText (h : ¬ data.IsValidUTF8)
  /-- The text is not malformed, but it has no value. -/
  | refused {text : List Char} {problem : Yaml.Problem} (h : File.textOf? data = some text)
      (read : Yaml.read text = .error problem) (sound : problem.isMalformed = false)
      (why : Yaml.Refusal text problem)

theorem ofSettings_failsBy (v : Value) : FailsBy FileError.IsReported (ofSettings v) := by
  unfold ofSettings
  split
  · exact .ok
  · exact .error trivial

/-- A document is a configuration, or its settings are reported. -/
theorem ofDocument_failsBy (path : String) (d : Document) :
    FailsBy FileError.IsReported (ofDocument path d) := by
  unfold ofDocument
  dsimp only
  split
  · exact .error trivial
  · split
    · exact .ok
    · exact .error trivial
    · rename_i h
      exact .error (ofSettings_failsBy _ _ h)

theorem ofFile_unreported_iff {path : String} {content : Option ByteArray} :
    (∃ e, ofFile path content = .error e ∧ ¬ e.IsReported) ↔
      ∃ data, content = some data ∧ FileUnreported data := by
  unfold ofFile
  cases content with
  | none =>
    refine ⟨?_, nofun⟩
    rintro ⟨e, he, hr⟩
    exact absurd (ofSettings_failsBy _ e he) hr
  | some data =>
    dsimp only
    cases htext : File.textOf? data with
    | none =>
      exact ⟨fun _ => ⟨data, rfl, .notText (File.textOf?_eq_none_iff.mp htext)⟩,
        fun _ => ⟨.notText, rfl, id⟩⟩
    | some text =>
      dsimp only
      constructor
      · rintro ⟨e, he, hr⟩
        cases hread : Yaml.read text with
        | ok d =>
          rw [hread] at he
          exact absurd (ofDocument_failsBy path d e he) hr
        | error problem =>
          rw [hread] at he
          cases he
          have sound := Bool.eq_false_iff.mpr hr
          exact ⟨data, rfl, .refused htext hread sound (Yaml.refusal_of_read hread sound)⟩
      · rintro ⟨_, ⟨⟩, h | ⟨h, read, sound⟩⟩
        · cases htext.symm.trans (File.textOf?_eq_none_iff.mpr h)
        · cases htext.symm.trans h
          rw [read]
          exact ⟨_, rfl, Bool.eq_false_iff.mp sound⟩

end Config

/-! ## 4. All readers -/

namespace File

/-- **What the readers of files answer**: what they fail with is reported, but for the given contents. -/
structure Answered (now : Int) (r : ShellFunction.ConversionRequest) (path : String)
    (content : Option ByteArray) : Prop where
  workflow : (∃ e, Workflow.ofFile now path content = .error e ∧ ¬ e.IsReported) ↔
    ∃ data, content = some data ∧ Workflow.FileUnreported path data
  script : (∃ e, ShellFunction.convertFile now r path content = .error e ∧ ¬ e.IsReported) ↔
    ∃ data, content = some data ∧ ShellFunction.FileUnreported r.function data
  config : (∃ e, Config.ofFile path content = .error e ∧ ¬ e.IsReported) ↔
    ∃ data, content = some data ∧ Config.FileUnreported data

/-- A byte that stands in no text. -/
def strayByte : ByteArray := ⟨#[0xFF]⟩

/-- A date that the calendar does not have. -/
def impossibleDate : ByteArray := "a: 2024-02-30\n".toUTF8

end File

end Runbook
