import Featurize.Stage.Basic

/-!
Plans: the options of a stage before the stage exists. Building a stage from its
plan refuses options that make no sense and binds the stage to its surroundings,
the statistics, names, device and factories. All stages share them, but for parts
of a pipeline that bring their own.
-/

namespace Featurize

/-- What a stage may need besides its own options. -/
structure Surroundings where
  normalization : NormalizationData := {}
  features : FeatureConfig := {}
  device : Device := {}
  normalizerFactory : Option NormalizerFactory := some .standard
  encoderFactory : Option EncoderFactory := some .standard

/-- The options of a stage. -/
inductive StagePlan where
  | operation (plain : Operation)
  | filter (keep remove : Option (List String))
  | mapTensors (keys : List String) (function : Option (Tensor → Except Fault Tensor))
      (name : String)
  | sequences (keys : List String) (sequenceId : Int64) (stride : Option Nat)
      (targets : Option (List String))
  | normalization (keys : List String)
  | sequenceNormalization (keys : List String) (sequenceId : Int64) (stride : Option Nat)
  | encoding (idListKeys idScoreListKeys : List String)
  | pipeline (plans : List StagePlan)
  | within (own : Surroundings) (plan : StagePlan)

namespace StagePlan

/-- The operation of a filter, which takes exactly one of its two lists. -/
def filterOperation : Option (List String) → Option (List String) → Except ConfigFault Operation
  | some keep, none => .ok (.keep keep)
  | none, some remove => .ok (.remove remove)
  | _, _ => .error .filterLists

def mapOperation (keys : List String) (name : String) :
    Option (Tensor → Except Fault Tensor) → Except ConfigFault Operation
  | some function => .ok (.mapTensors keys function name)
  | none => .error .noFunction

mutual

def build (surroundings : Surroundings) : StagePlan → Except ConfigFault Stage
  | .operation plain => do
      plain.check
      return .operation plain
  | .filter keep remove => .operation <$> filterOperation keep remove
  | .mapTensors keys function name => .operation <$> mapOperation keys name function
  | .sequences keys sequenceId stride targets =>
      .sequences <$> FixedLengthSequences.configure keys sequenceId stride targets
  | .normalization keys =>
      .normalization <$> DenseNormalization.configure keys surroundings.normalization
        surroundings.device surroundings.normalizerFactory
  | .sequenceNormalization keys sequenceId stride =>
      .sequenceNormalization <$> SequenceNormalization.configure keys sequenceId
        surroundings.normalization stride surroundings.device surroundings.normalizerFactory
  | .encoding idListKeys idScoreListKeys =>
      .encoding <$> IdListMapping.configure idListKeys idScoreListKeys surroundings.features
        surroundings.device surroundings.encoderFactory
  | .pipeline plans => .pipeline <$> buildAll surroundings plans
  | .within own plan => build own plan

def buildAll (surroundings : Surroundings) : List StagePlan → Except ConfigFault (List Stage)
  | [] => .ok []
  | plan :: plans => do
      let stage ← build surroundings plan
      return stage :: (← buildAll surroundings plans)

end

end StagePlan

end Featurize
