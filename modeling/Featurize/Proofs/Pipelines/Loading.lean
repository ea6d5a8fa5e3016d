import Featurize.Pipeline.Load
import Featurize.Proofs.Json.Reading

/-!
What loading a file can end in. A file that is missing, a text that is no JSON value and a value
of the wrong form are faults of the configuration, whichever of the three kinds of file is
loaded. The one thing in a text that escapes them is a number that no finite double can hold; it
is met while the text is read, before any form is looked at.
-/

namespace Featurize

variable {Value Next : Type}

def Settled (outcome : Except Fault Value) : Prop :=
  (∃ value, outcome = .ok value) ∨ ∃ cause, outcome = .error (.config cause)

/-- Reading the text of the file is stopped by a number that is too large. -/
def FileContent.Overflows (content : FileContent) : Prop :=
  ∃ text, content = .text text ∧ Json.parse text = .error .numberTooLarge

namespace FileContent

theorem overflows_text_iff {text : String} :
    (FileContent.text text).Overflows ↔ Json.parse text = .error .numberTooLarge := by
  constructor
  · rintro ⟨written, same, stopped⟩
    cases same
    exact stopped
  · intro stopped
    exact ⟨text, rfl, stopped⟩

theorem not_overflows_missing : ¬ FileContent.missing.Overflows := by
  rintro ⟨text, same, _stopped⟩
  cases same

end FileContent

namespace Settled

theorem of_config (outcome : Except ConfigFault Value) :
    Settled (outcome.mapError Fault.config) := by
  cases outcome with
  | ok value => exact .inl ⟨value, rfl⟩
  | error cause => exact .inr ⟨cause, rfl⟩

theorem error_iff {fault : Fault} :
    Settled (.error fault : Except Fault Value) ↔ ∃ cause, fault = .config cause := by
  constructor
  · rintro (⟨value, succeeded⟩ | ⟨cause, failed⟩)
    · cases succeeded
    · exact ⟨cause, Except.error.inj failed⟩
  · intro ⟨cause, isCause⟩
    exact .inr ⟨cause, congrArg Except.error isCause⟩

theorem not_directory : ¬ Settled (.error .directoryRead : Except Fault Value) := by
  intro settled
  obtain ⟨cause, same⟩ := error_iff.mp settled
  cases same

theorem not_json : ¬ Settled (.error .json : Except Fault Value) := by
  intro settled
  obtain ⟨cause, same⟩ := error_iff.mp settled
  cases same

theorem bind_iff {first : Except Fault Value} {next : Value → Except Fault Next}
    (later : ∀ value, Settled (next value)) : Settled (first >>= next) ↔ Settled first := by
  cases first with
  | ok value => exact iff_of_true (later value) (.inl ⟨value, rfl⟩)
  | error fault => exact error_iff.trans error_iff.symm

/-- Nothing but a directory and a number that is too large keeps a file from being either loaded
or refused as a fault of the configuration. -/
theorem loadJson_iff (file : ConfigFile) (path : String) (content : FileContent) :
    Settled (loadJson file path content) ↔ content ≠ .directory ∧ ¬ content.Overflows := by
  cases content with
  | missing =>
      exact iff_of_true (.inr ⟨_, rfl⟩) ⟨by decide, FileContent.not_overflows_missing⟩
  | directory => exact iff_of_false not_directory (fun both => both.1 rfl)
  | text written =>
      have isText : FileContent.text written ≠ .directory := fun same => by cases same
      rw [FileContent.overflows_text_iff]
      unfold loadJson
      dsimp only
      cases parsed : Json.parse written with
      | ok json =>
          exact iff_of_true (.inl ⟨json, rfl⟩) ⟨isText, fun stopped => by cases stopped⟩
      | error fault =>
          cases fault with
          | malformed =>
              exact iff_of_true (.inr ⟨_, rfl⟩) ⟨isText, fun stopped => by cases stopped⟩
          | numberTooLarge => exact iff_of_false not_json (fun both => both.2 rfl)

end Settled

theorem loadJson_of_overflow {text : String} (file : ConfigFile) (path : String)
    (stopped : Json.parse text = .error .numberTooLarge) :
    loadJson file path (.text text) = .error .json := by
  unfold loadJson
  dsimp only
  rw [stopped]

theorem outcome_loadNormalization (path : String) (content : FileContent) :
    (loadNormalization path content).outcome =
      loadJson .normalization path content >>= fun json =>
        (NormalizationData.ofJson json).mapError Fault.config := by
  unfold loadNormalization
  cases content with
  | missing => rfl
  | directory => rfl
  | text written =>
      exact Traced.outcome_andThen _ _

theorem loadFeatures_eq (path : String) (content : FileContent) :
    loadFeatures path content =
      loadJson .features path content >>= fun json =>
        (FeatureConfig.ofJson json).mapError Fault.config := rfl

/-- Each loader gives a value or a fault of the configuration, whatever the file holds, exactly
when the path is no directory and reading the text is not stopped by a number that is too large.
Such a number stands in the text, and all loaders then fail in the same way. -/
theorem loaded_or_config_fault_iff (path : String) (content : FileContent) :
    (Settled (loadJson .plain path content) ↔ content ≠ .directory ∧ ¬ content.Overflows) ∧
      (Settled (loadNormalization path content).outcome ↔
        content ≠ .directory ∧ ¬ content.Overflows) ∧
      (Settled (loadFeatures path content) ↔ content ≠ .directory ∧ ¬ content.Overflows) ∧
      ∀ text, content = .text text → content.Overflows →
        Json.Reader.HoldsTooLarge text.toList ∧ loadJson .plain path content = .error .json ∧
          (loadNormalization path content).outcome = .error .json ∧
          loadFeatures path content = .error .json := by
  rw [outcome_loadNormalization, loadFeatures_eq]
  refine ⟨Settled.loadJson_iff .plain path content, ?_, ?_, ?_⟩
  · rw [Settled.bind_iff (fun json => .of_config (NormalizationData.ofJson json))]
    exact Settled.loadJson_iff .normalization path content
  · rw [Settled.bind_iff (fun json => .of_config (FeatureConfig.ofJson json))]
    exact Settled.loadJson_iff .features path content
  · intro text written overflows
    subst written
    have stopped := FileContent.overflows_text_iff.mp overflows
    have failed (file : ConfigFile) := loadJson_of_overflow file path stopped
    rw [failed .plain, failed .normalization, failed .features]
    exact ⟨Json.holdsTooLarge_of_parse stopped, rfl, rfl, rfl⟩

/-- A number with a large exponent is well formed, yet the file that holds it is not refused as a
fault of the configuration. -/
theorem large_number_escapes :
    ¬ Settled (loadJson .plain "f.json" (.text "1e999")) ∧
      ¬ Settled (loadNormalization "f.json" (.text "1e999")).outcome ∧
      ¬ Settled (loadFeatures "f.json" (.text "1e999")) :=
  ⟨Settled.not_json, Settled.not_json, Settled.not_json⟩

end Featurize
