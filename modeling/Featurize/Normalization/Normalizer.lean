import Featurize.Normalization.Parameters
import Featurize.Tensor.Basic

/-!
Normalizers map columns of raw values and their presence to a common scale, or
refuse them. The standard one rescales each column by its parameters and puts
zero wherever the value is missing. It takes matrices with one column for each
set of parameters, and runs on the central processor only.
-/

namespace Featurize

/-- The compute target that a collaborator is pinned to. -/
structure Device where
  name : String := "cpu"
  deriving Repr, DecidableEq

/-- Maps values and their presence to the normalized scale. -/
structure Normalizer where
  normalize : Tensor → Tensor → Except Fault Tensor

def clamp (value low high : Double) : Double :=
  if value < low then low else if high < value then high else value

namespace NormalizationParameters

/-- A present value on the scale of its column. Binary values become zero or one,
probabilities their log-odds, continuous ones standard scores cut off at six, and
actions move from their bounds to just inside the unit interval around zero. -/
def rescale (parameters : NormalizationParameters) (value : Double) : Double :=
  match parameters.featureType with
  | .binary => if value != 0.0 then 1.0 else 0.0
  | .probability => -(Double.log (1.0 / clamp value 1e-5 (1.0 - 1e-5) - 1.0))
  | .continuous => clamp ((value - parameters.mean) / parameters.deviation) (-6.0) 6.0
  | .continuousAction =>
      let lowest := parameters.lowest.getD 0.0
      let low : Double := -1.0 + 1e-6
      let high : Double := 1.0 - 1e-6
      let scale := (high - low) / (parameters.highest.getD 0.0 - lowest)
      clamp ((value - lowest) * scale + low) low high
  | .doNotPreprocess => value

end NormalizationParameters

namespace NormalizationData

def normalize (data : NormalizationData) (value presence : Tensor) : Except ShapeFault Tensor :=
  if value.shape ≠ presence.shape then
    .error (.normalizedPresence value.shape presence.shape)
  else
    match value.shape with
    | [_, columns] =>
        if columns = data.size then
          let stored := data.parameters.toArray
          .ok <| Tensor.tabulate value.shape fun position =>
            if presence.get position == 0.0 then 0.0
            else
              match stored[position % columns]? with
              | some parameters => parameters.rescale (value.get position)
              | none => 0.0
        else .error (.normalizedColumns data.size value.shape)
    | _ => .error (.normalizedColumns data.size value.shape)

def normalizer (data : NormalizationData) (device : Device) : Except ConfigFault Normalizer :=
  if device.name = "cpu" then
    .ok { normalize := fun value presence => (data.normalize value presence).mapError Fault.shape }
  else .error (.normalizationDevice device.name)

end NormalizationData

end Featurize
