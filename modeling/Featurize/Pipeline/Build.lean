import Featurize.Pipeline.Schema
import Featurize.Stage.Plan

/-!
Pipelines built from configuration. A stage's options are read into a plan and
the plan is built; a pipeline is built only from a configuration without
complaints, and the first complaint is the one that is reported.
-/

namespace Featurize

namespace StagePlan

def namesAt (json : Json) (option : String) : Except ReadFault (List String) := do
  return (← json.optional option Json.asStrings).getD []

def textAt (json : Json) (option : String) : Except ReadFault String := do
  (← json.require option).asString

def sizeAt (json : Json) (option : String) : Except ReadFault Nat := do
  (← json.require option).asSize

def axisAt (json : Json) (option : String) : Except ReadFault Int := do
  (← json.require option).asAxis

def idAt (json : Json) (option : String) : Except ReadFault Int64 := do
  (← json.require option).asId

/-- The plan that the options of a stage of the given type write. -/
def ofOptions (json : Json) : StageType → Except ReadFault StagePlan
  | .pairPresence => return .operation .pairPresence
  | .normalization => return .normalization (← namesAt json "keys")
  | .encoding =>
      return .encoding (← namesAt json "id_list_keys") (← namesAt json "id_score_list_keys")
  | .oneHotActions =>
      return .operation (.oneHotActions (← namesAt json "keys") (← sizeAt json "num_actions"))
  | .columnVector => return .operation (.columnVector (← namesAt json "keys"))
  | .maskByPresence => return .operation (.maskByPresence (← namesAt json "keys"))
  | .stackRows => return .operation (.stackRows (← namesAt json "keys") (← sizeAt json "size"))
  | .sequences =>
      return .sequences (← namesAt json "keys") (← idAt json "sequence_id")
        (← json.optional "expected_length" Json.asSize)
        (← json.optional "to_keys" Json.asStrings)
  | .slateView =>
      return .operation (.slateView (← namesAt json "keys") (← sizeAt json "slate_size"))
  | .sequenceNormalization =>
      return .sequenceNormalization (← namesAt json "keys") (← idAt json "sequence_id")
        (← json.optional "expected_length" Json.asSize)
  | .appendConstant =>
      return .operation (.appendConstant (← namesAt json "keys")
        (← json.withDefault "dim" (-1) Json.asAxis)
        (← json.withDefault "const" 1.0 Json.asDouble))
  | .unsqueezeRepeat =>
      return .operation (.unsqueezeRepeat (← namesAt json "keys") (← axisAt json "dim")
        (← json.withDefault "num_repeat" 1 Json.asSize))
  | .outerProduct =>
      return .operation (.outerProduct (← textAt json "key1") (← textAt json "key2")
        (← textAt json "output_key") (← json.withDefault "drop_inputs" false Json.asBool))
  | .identityMatrix =>
      return .operation (.identityMatrix (← textAt json "key") (← sizeAt json "size"))
  | .concatenate =>
      return .operation (.concatenate (← namesAt json "input_keys") (← textAt json "output_key")
        (← axisAt json "dim") (← json.withDefault "broadcast" true Json.asBool))
  | .rename =>
      return .operation (.rename (← namesAt json "old_names") (← namesAt json "new_names"))
  | .filter =>
      return .filter (← json.optional "keep_keys" Json.asStrings)
        (← json.optional "remove_keys" Json.asStrings)
  | .selectColumns =>
      return .operation (.selectColumns (← textAt json "source") (← textAt json "dest")
        (← (← json.require "indices").asSizes))

def ofJson (json : Json) : Except Fault StagePlan := do
  let name ← textAt json "type"
  match StageType.ofName? name with
  | some type => ofOptions json type
  | none => throw (.config (.unknownStage name))

end StagePlan

/-- The stage that a stage of a configuration describes, without validation. -/
def Stage.ofJson (surroundings : Surroundings) (json : Json) : Except Fault Stage := do
  (← StagePlan.ofJson json).build surroundings

def Stage.listOfJson (surroundings : Surroundings) (stages : List Json) :
    Except Fault (List Stage) :=
  stages.mapM (Stage.ofJson surroundings)

/-- Malformed options met while a pipeline is built are a fault of its configuration. -/
def Fault.inPipeline : Fault → Fault
  | .json => .config .malformedPipeline
  | fault => fault

/-- The stages that a configuration lists, before any validation. -/
def describedStages (config : Json) : List Json :=
  match config.member? "transforms" with
  | some (.arr stages) => stages
  | _ => []

def buildPipeline (surroundings : Surroundings) (config : Json) : Traced Stage :=
  match validatePipeline config with
  | first :: others => do
      Traced.report
        (.pipelineRefused first.stage first.option first.message (others.length + 1))
      Traced.ofOutcome (.error (.config (.invalidStage first.stage first.option first.message)))
  | [] => do
      let stages ←
        (Stage.listOfJson surroundings (describedStages config)).mapError Fault.inPipeline
      Traced.report (.pipelineBuilt stages.length)
      return .pipeline stages

end Featurize
