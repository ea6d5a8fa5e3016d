import Featurize.Normalization.Normalizer
import Featurize.Stage.Deferred
import Featurize.Stage.Layout
import Featurize.Stage.Sequences

/-!
Stages that normalize. Pairs of values and presence become tensors on the
common scale; a value that is not a number counts as missing. The normalizer is
built by the first record that reaches the stage. For ragged sequences the stage
stands behind the selection of a sequence, and its rows are cut into slates of
the stride on which the selection settled.
-/

namespace Featurize

/-- Makes a normalizer for some columns on a device. The number says how many calls
of the same stage came before. -/
abbrev NormalizerFactory := Nat → NormalizationData → Device → Except Fault Normalizer

def NormalizerFactory.standard : NormalizerFactory :=
  fun _ data device => (data.normalizer device).mapError Fault.config

namespace ValuePresence

/-- The pair with zeros for values that are not numbers, which count as missing. -/
def withoutNaN (pair : ValuePresence) : ValuePresence :=
  { value := Tensor.tabulate pair.value.shape fun position =>
      let value := pair.value.get position
      if value.isNaN then 0.0 else value
    presence := Tensor.tabulate pair.presence.shape fun position =>
      if (pair.value.get position).isNaN then 0.0 else pair.presence.get position }

end ValuePresence

/-- The normalization of pairs under some keys. -/
structure DenseNormalization where
  keys : List String
  data : NormalizationData
  device : Device
  normalizer : Deferred Normalizer

namespace DenseNormalization

def configure (keys : List String) (data : NormalizationData) (device : Device)
    (factory : Option NormalizerFactory) : Except ConfigFault DenseNormalization :=
  match factory with
  | some make =>
      .ok { keys, data, device, normalizer := { build := fun call => make call data device } }
  | none => .error .noNormalizerFactory

def normalizeField (normalizer : Normalizer) (key : String) (field : Field) :
    Except Fault Field := do
  let pair ← field.asPair key
  pair.checkAligned key
  let known := pair.withoutNaN
  return .tensor (← normalizer.normalize known.value known.presence)

def apply (stage : DenseNormalization) (record : Record) : Run DenseNormalization :=
  let supply := stage.normalizer.supply
  let supplied := { stage with normalizer := supply.deferred }
  match supply.product with
  | .error fault => .silent supplied (.error fault)
  | .ok normalizer =>
      { state := supplied
        effects :=
          if supply.built then
            [.reported (.normalizerBuilt stage.keys stage.device.name stage.data.size)]
          else []
        outcome := record.replaceEach stage.keys (normalizeField normalizer) }

def describe (stage : DenseNormalization) : String :=
  "DenseNormalization(" ++ bracketed stage.keys ++ ", device=" ++ stage.device.name ++ ")"

end DenseNormalization

/-- The normalization of one sequence under some keys, written to derived keys. The
slate size is that of the last record that was cut, and zero before the first one. -/
structure SequenceNormalization where
  sequences : FixedLengthSequences
  normalization : DenseNormalization
  slateSize : Nat := 0

namespace SequenceNormalization

/-- The key under which the normalized sequence of a field is written. -/
def derivedKey (key : String) (sequenceId : Int64) : String :=
  key ++ ":" ++ toString sequenceId.toInt

def configure (keys : List String) (sequenceId : Int64) (data : NormalizationData)
    (stride : Option Nat) (device : Device) (factory : Option NormalizerFactory) :
    Except ConfigFault SequenceNormalization := do
  let derived := keys.map (fun key => derivedKey key sequenceId)
  let sequences ← FixedLengthSequences.configure keys sequenceId stride (some derived)
  let normalization ← DenseNormalization.configure derived data device factory
  return { sequences, normalization }

/-- Selects, normalizes and cuts into slates. The slate size is set to the stride before
the rows are cut. A selection without keys succeeds without a stride; the program then
reads a value that was never set, so the zero that stands here for it means nothing. -/
def apply (stage : SequenceNormalization) (record : Record) : Run SequenceNormalization :=
  let selected := stage.sequences.apply record
  let chosen := { stage with sequences := selected.state }
  match selected.outcome with
  | .error fault => { state := chosen, effects := selected.effects, outcome := .error fault }
  | .ok pairs =>
      let normalized := stage.normalization.apply pairs
      let scaled := { chosen with normalization := normalized.state }
      let effects := selected.effects ++ normalized.effects
      match normalized.outcome with
      | .error fault => { state := scaled, effects, outcome := .error fault }
      | .ok rows =>
          let sized := { scaled with slateSize := selected.state.stride.getD 0 }
          { state := sized
            effects
            outcome := rows.slateView stage.sequences.targets sized.slateSize }

def describe (stage : SequenceNormalization) : String :=
  "FixedLengthSequenceDenseNormalization(" ++ stage.sequences.describe ++ ", " ++
    stage.normalization.describe ++ ")"

end SequenceNormalization

end Featurize
