import Featurize.Json.Printer
import Featurize.Pipeline.Load
import Featurize.Record.Reader
import Featurize.Record.Writer

/-!
The command line. One run reads a pipeline and a record, and optionally
statistics and feature names, applies the pipeline and writes the record that
comes out. Arguments that are not understood end the run before any file is
read; a later occurrence of an option replaces an earlier one. Arguments are Unicode
text.
-/

namespace Featurize

/-- The settings of a run; an empty path stands for no file. -/
structure Invocation where
  pipeline : String := ""
  input : String := ""
  normalization : String := ""
  features : String := ""
  output : String := ""
  device : String := "cpu"
  verbose : Bool := false
  deriving Repr, DecidableEq

/-- How a run ends: its exit code, the lines for the error channel, and the text to
be written to the output path, or to the standard output where that path is empty. -/
structure Transcript where
  exitCode : Nat
  errors : Text
  effects : List Effect
  output : Option String

namespace Invocation

def usage : String :=
  "Usage: featpipe_transform --pipeline <config.json> --input <record.json>" ++
    " [--normalization <normalization.json>] [--feature_config <features.json>]" ++
    " [--device cpu] [--output <path>] [--verbose]\n"

/-- Reads the arguments, or gives the lines that say why not. An option that takes a
value and stands last is not understood. -/
def ofArguments : Invocation → List String → Except String Invocation
  | invocation, [] =>
      if invocation.pipeline.isEmpty || invocation.input.isEmpty then .error usage
      else .ok invocation
  | invocation, "--pipeline" :: value :: rest =>
      ofArguments { invocation with pipeline := value } rest
  | invocation, "--input" :: value :: rest =>
      ofArguments { invocation with input := value } rest
  | invocation, "--normalization" :: value :: rest =>
      ofArguments { invocation with normalization := value } rest
  | invocation, "--feature_config" :: value :: rest =>
      ofArguments { invocation with features := value } rest
  | invocation, "--output" :: value :: rest =>
      ofArguments { invocation with output := value } rest
  | invocation, "--device" :: value :: rest =>
      ofArguments { invocation with device := value } rest
  | invocation, "--verbose" :: rest => ofArguments { invocation with verbose := true } rest
  | _, argument :: _ => .error ("Unknown argument: " ++ argument ++ "\n" ++ usage)

def paths (invocation : Invocation) : List String :=
  [invocation.normalization, invocation.features, invocation.pipeline, invocation.input].filter
    (fun path => !path.isEmpty)

def surroundings (invocation : Invocation) (content : String → FileContent) :
    Traced Surroundings := do
  let normalization ←
    if invocation.normalization.isEmpty then pure {}
    else loadNormalization invocation.normalization (content invocation.normalization)
  let features ←
    if invocation.features.isEmpty then pure {}
    else Traced.ofOutcome (loadFeatures invocation.features (content invocation.features))
  return { normalization, features, device := { name := invocation.device } }

/-- Loads, builds and applies, in this order, and gives the record that comes out. -/
def apply (invocation : Invocation) (content : String → FileContent) : Traced Record := do
  let known ← invocation.surroundings content
  let config ← loadJson .plain invocation.pipeline (content invocation.pipeline)
  let pipeline ← buildPipeline known config
  let written ← loadJson .plain invocation.input (content invocation.input)
  let record ← Record.ofJson written
  (pipeline.apply record).traced

def faultLine (fault : Fault) : Text :=
  match fault.code? with
  | some code => "Transform failed [" ++ code ++ "]: " ++ fault.message ++ "\n"
  | none => "Transform failed: " ++ fault.message ++ "\n"

/-- The whole run, given what is found at each path. What is no exception aborts it
without a word. -/
def run (invocation : Invocation) (content : String → FileContent) : Transcript :=
  let applied := invocation.apply content
  match applied.outcome with
  | .error .foreign => { exitCode := 134, errors := "", effects := applied.effects, output := none }
  | .error fault =>
      { exitCode := 1, errors := faultLine fault, effects := applied.effects, output := none }
  | .ok record =>
      { exitCode := 0, errors := "", effects := applied.effects
        output := some (record.toJson.render ++ "\n") }

end Invocation

namespace Transcript

def refused (lines : String) : Transcript :=
  { exitCode := 1, errors := lines, effects := [], output := none }

def unwritable (transcript : Transcript) (path : String) : Transcript :=
  { transcript with
    exitCode := 1
    errors := transcript.errors ++ "Failed to open output: " ++ path ++ "\n"
    output := none }

end Transcript

end Featurize
