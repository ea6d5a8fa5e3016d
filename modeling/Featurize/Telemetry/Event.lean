import Featurize.Fault
import Featurize.Json.Printer

/-!
What a pipeline reports while it is built and run. An event is a fact with its
circumstances; its log line gives it a severity, a name, a component and fields.
All of it is Unicode text, so that every line can be written. Time stamps are put on
by whoever writes the lines, under a field of their own.
-/

namespace Featurize

/-- How much a log line matters. -/
inductive Severity where
  | debug
  | info
  | warn
  | error
  deriving Repr, DecidableEq

namespace Severity

def name : Severity → String
  | .debug => "DEBUG"
  | .info => "INFO"
  | .warn => "WARN"
  | .error => "ERROR"

def ofName? (name : String) : Option Severity :=
  [debug, info, warn, error].find? (fun severity => severity.name == name)

end Severity

/-- One structured line of a log. -/
structure LogLine where
  severity : Severity
  event : String
  component : String
  fields : List (String × Json) := []

namespace LogLine

/-- The fields of a line as an object. The severity, the event and the component
replace fields of those names; the place of the time stamp is left free. -/
def toJson (line : LogLine) : Json :=
  .object (line.fields.filter (fun field => field.1 != "ts") ++
    [("level", .str line.severity.name), ("event", .str line.event),
      ("component", .str line.component)])

/-- The line as it is written, where a double that is not a finite number shows as
null. -/
def text (line : LogLine) : String := line.toJson.render

end LogLine

/-- A fact reported by a pipeline, its parts or its configuration. -/
inductive Event where
  /-- A stage of a pipeline gave no record. -/
  | stageFailed (stage : Nat) (description : String) (report : FaultReport)
  | normalizerBuilt (keys : List String) (device : String) (columns : Nat)
  | encoderBuilt (device : String) (features : Nat)
  | strideInferred (key : String) (sequence : Int64) (stride : Int)
  | pipelineRefused (stage : Nat) (option message : String) (complaints : Nat)
  | pipelineBuilt (stages : Nat)
  | normalizationUnopened (path : String)

namespace Event

def line : Event → LogLine
  | .stageFailed stage description report =>
      { severity := .error, event := "transform_error", component := "pipeline"
        fields := [("stage", .ofNat stage), ("transform", .str description),
          ("error_code", .str report.code), ("error", .str report.message)] }
  | .normalizerBuilt keys device columns =>
      { severity := .info, event := "normalizer_init", component := "transforms"
        fields := [("keys", .ofStrings keys), ("device", .str device),
          ("num_features", .ofNat columns)] }
  | .encoderBuilt device features =>
      { severity := .info, event := "sparse_encoder_init", component := "transforms"
        fields := [("device", .str device), ("num_features", .ofNat features)] }
  | .strideInferred key sequence stride =>
      { severity := .info, event := "sequence_stride_inferred", component := "transforms"
        fields := [("key", .str key), ("sequence_id", .ofId sequence),
          ("expected_length", .int stride)] }
  | .pipelineRefused stage option message complaints =>
      { severity := .error, event := "pipeline_config_invalid", component := "config"
        fields := [("stage", .ofNat stage), ("field", .str option), ("error", .str message),
          ("error_count", .ofNat complaints)] }
  | .pipelineBuilt stages =>
      { severity := .info, event := "pipeline_built", component := "config"
        fields := [("stages", .ofNat stages)] }
  | .normalizationUnopened path =>
      { severity := .error, event := "normalization_load_error", component := "normalization"
        fields := [("path", .str path), ("error_code", .str "E_CONFIG_PARSE")] }

end Event

end Featurize
