import Featurize.Stage.Encoding
import Featurize.Stage.Normalization
import Featurize.Stage.Operation

/-!
Stages and pipelines. A stage takes a record and gives the next one; a pipeline
is a stage that feeds its stages from left to right and stops at the first
fault. Every pipeline on the way reports a fault with the number and description
of the stage that it came from, counts it, and passes it on unchanged. A fault whose
report cannot be written is not counted, and the fault of the writer goes on in its
place; what is no exception goes through all pipelines unnoticed.
-/

namespace Featurize

/-- A stage in its present state. -/
inductive Stage where
  | operation (plain : Operation)
  | sequences (stage : FixedLengthSequences)
  | normalization (stage : DenseNormalization)
  | sequenceNormalization (stage : SequenceNormalization)
  | encoding (stage : IdListMapping)
  | pipeline (stages : List Stage)

/-- The stages of a pipeline part way through a record: those already applied, in
their new states, and what came of them. -/
abbrev PipelineRun := Run (List Stage)

namespace Stage

mutual

def describe : Stage → String
  | .operation plain => plain.describe
  | .sequences stage => stage.describe
  | .normalization stage => stage.describe
  | .sequenceNormalization stage => stage.describe
  | .encoding stage => stage.describe
  | .pipeline stages => "Compose(\n" ++ describeAll stages ++ ")"

def describeAll : List Stage → String
  | [] => ""
  | stage :: stages => "    " ++ stage.describe ++ "\n" ++ describeAll stages

end

def failureEffects (number : Nat) (stage : Stage) (fault : Fault) : List Effect :=
  match fault.report? with
  | some report =>
      [.reported (.stageFailed number stage.describe report),
        .counted "transform_errors" (Std.ExtTreeMap.ofList [("code", report.code)] compare) 1]
  | none => []

def successEffects : List Effect :=
  [.counted "records_transformed" ∅ 1, .timed "pipeline_apply_duration_ms" ∅]

mutual

def apply (record : Record) : Stage → Run Stage
  | .operation plain => .silent (.operation plain) (plain.run record)
  | .sequences stage => (stage.apply record).map .sequences
  | .normalization stage => (stage.apply record).map .normalization
  | .sequenceNormalization stage => (stage.apply record).map .sequenceNormalization
  | .encoding stage => (stage.apply record).map .encoding
  | .pipeline stages => (applyAll 0 record stages).map .pipeline

/-- Applies the stages of a pipeline, the first of which has the given number. -/
def applyAll (number : Nat) (record : Record) : List Stage → PipelineRun
  | [] => { state := [], effects := successEffects, outcome := .ok record }
  | stage :: stages =>
      let run := apply record stage
      match run.outcome with
      | .error fault =>
          { state := run.state :: stages
            effects := run.effects ++ failureEffects number run.state fault
            outcome := .error fault.passedOn }
      | .ok next =>
          ((applyAll (number + 1) next stages).map (run.state :: ·)).after run.effects

end

def parts : Stage → List Stage
  | .pipeline stages => stages
  | _ => []

mutual

def normalizerCalls : Stage → Nat
  | .normalization stage => stage.normalizer.calls
  | .sequenceNormalization stage => stage.normalization.normalizer.calls
  | .pipeline stages => normalizerCallsAll stages
  | _ => 0

def normalizerCallsAll : List Stage → Nat
  | [] => 0
  | stage :: stages => normalizerCalls stage + normalizerCallsAll stages

end

mutual

def encoderCalls : Stage → Nat
  | .encoding stage => stage.encoder.calls
  | .pipeline stages => encoderCallsAll stages
  | _ => 0

def encoderCallsAll : List Stage → Nat
  | [] => 0
  | stage :: stages => encoderCalls stage + encoderCallsAll stages

end

end Stage

end Featurize
