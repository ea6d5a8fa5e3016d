import Featurize.Json.Access

/-!
Normalization parameters: one set of offline statistics for each dense column,
in the order of the columns, and their JSON form. Parameters read from JSON are
usable: a continuous column has a positive deviation, and a continuous action
has a lower bound below its upper one.
-/

namespace Featurize

/-- How the values of a column are distributed. -/
inductive FeatureType where
  | binary
  | probability
  | continuous
  | continuousAction
  | doNotPreprocess
  deriving Repr, DecidableEq

namespace FeatureType

def name : FeatureType → String
  | .binary => "BINARY"
  | .probability => "PROBABILITY"
  | .continuous => "CONTINUOUS"
  | .continuousAction => "CONTINUOUS_ACTION"
  | .doNotPreprocess => "DO_NOT_PREPROCESS"

def all : List FeatureType :=
  [.binary, .probability, .continuous, .continuousAction, .doNotPreprocess]

def ofName (name : String) : Except ConfigFault FeatureType :=
  match all.find? (fun type => type.name == name) with
  | some type => .ok type
  | none => .error (.unknownFeatureType name)

theorem ofName_name (type : FeatureType) : ofName type.name = .ok type := by
  cases type <;> rfl

end FeatureType

/-- The statistics of one dense column. -/
structure NormalizationParameters where
  featureId : Int64 := 0
  featureType : FeatureType := .continuous
  mean : Double := 0.0
  deviation : Double := 1.0
  lowest : Option Double := none
  highest : Option Double := none

/-- The statistics of all dense columns, in the order of the columns. -/
structure NormalizationData where
  parameters : List NormalizationParameters := []

namespace NormalizationParameters

/-- Refuses statistics that a column cannot be rescaled with. -/
def check (parameters : NormalizationParameters) : Except ConfigFault Unit :=
  match parameters.featureType with
  | .continuous =>
      if parameters.deviation > 0.0 then .ok ()
      else .error (.deviationNotPositive parameters.featureId)
  | .continuousAction =>
      match parameters.lowest, parameters.highest with
      | some lowest, some highest =>
          if highest > lowest then .ok () else .error (.emptyBounds parameters.featureId)
      | _, _ => .error (.missingBounds parameters.featureId)
  | _ => .ok ()

def boundMember (name : String) (bound : Option Double) : List (String × Json) :=
  match bound with
  | some value => [(name, .double value)]
  | none => []

def toJson (parameters : NormalizationParameters) : Json :=
  .obj <|
    [("feature_id", .ofId parameters.featureId),
      ("feature_type", .str parameters.featureType.name)] ++
      boundMember "max_value" parameters.highest ++ [("mean", .double parameters.mean)] ++
      boundMember "min_value" parameters.lowest ++ [("stddev", .double parameters.deviation)]

/-- The result of reading a member; one of the wrong form makes the data malformed. -/
def wellFormed {Value : Type} (outcome : Except ReadFault Value) : Except ConfigFault Value :=
  outcome.mapError (fun _ => .malformedParameters)

def ofJson (json : Json) : Except ConfigFault NormalizationParameters := do
  let featureId ← wellFormed (json.require "feature_id" >>= Json.asId)
  let typeName ← wellFormed
    (json.withDefault "feature_type" FeatureType.continuous.name Json.asString)
  let featureType ← FeatureType.ofName typeName
  let mean ← wellFormed (json.withDefault "mean" 0.0 Json.asDouble)
  let deviation ← wellFormed (json.withDefault "stddev" 1.0 Json.asDouble)
  let lowest ← wellFormed (json.optional "min_value" Json.asDouble)
  let highest ← wellFormed (json.optional "max_value" Json.asDouble)
  let parameters : NormalizationParameters :=
    { featureId, featureType, mean, deviation, lowest, highest }
  parameters.check
  return parameters

end NormalizationParameters

namespace NormalizationData

def size (data : NormalizationData) : Nat := data.parameters.length

def toJson (data : NormalizationData) : Json :=
  .obj [("dense_normalization_parameters",
    .arr (data.parameters.map NormalizationParameters.toJson))]

def ofJson (json : Json) : Except ConfigFault NormalizationData :=
  match json.member? "dense_normalization_parameters" with
  | some (.arr entries) => do
      return { parameters := (← entries.mapM NormalizationParameters.ofJson) }
  | _ => .error .noParameters

end NormalizationData

end Featurize
