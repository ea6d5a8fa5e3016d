import Featurize.Stage.Run

/-!
Selecting one sequence out of ragged fields. Every batch element must hold the
same number of steps, the stride. A stride that is not configured is learned
from the first sequence that is met and kept for good, also when the record is
refused afterwards. Offsets that are not the multiples of the stride, and
payloads with another number of rows, are refused.
-/

namespace Featurize

/-- The selection of a sequence, with the stride once it is known. -/
structure FixedLengthSequences where
  keys : List String
  sequenceId : Int64
  stride : Option Nat
  targets : List String

namespace FixedLengthSequences

/-- The selection with the given options; targets default to the keys themselves. -/
def configure (keys : List String) (sequenceId : Int64) (stride : Option Nat)
    (targets : Option (List String)) : Except ConfigFault FixedLengthSequences :=
  let written := targets.getD keys
  if written.length ≠ keys.length then .error (.sequenceTargets keys.length written.length)
  else if stride = some 0 then .error .emptySequence
  else .ok { keys, sequenceId, stride, targets := written }

/-- The number of steps of the first batch element: the distance of the first two
offsets, or all rows where only one element is there. -/
def firstLength (key : String) (sequenceId : Int64) (feature : SequenceFeature) :
    Except ShapeFault Int64 :=
  match feature.offsets with
  | first :: second :: _ => .ok (second - first)
  | _ =>
      if feature.payload.value.rank = 0 then .error (.payloadRank key sequenceId)
      else .ok (Int64.ofNat feature.payload.value.rows)

def learn (key : String) (sequenceId : Int64) (feature : SequenceFeature) : Except Fault Nat := do
  let length ← firstLength key sequenceId feature
  if length ≤ 0 then throw (.alignment (.noStride key sequenceId feature.offsets))
  else return length.toInt.toNat

def alignedOffsets (stride count : Nat) : List Int64 :=
  (List.range count).map (fun element => Int64.ofNat element * Int64.ofNat stride)

/-- The payload of a sequence that keeps the stride. -/
def select (key : String) (sequenceId : Int64) (stride : Nat) (feature : SequenceFeature) :
    Except Fault ValuePresence :=
  let count := feature.offsets.length
  let expected := alignedOffsets stride count
  let rows := feature.payload.value.rows
  if expected ≠ feature.offsets then
    .error (.alignment (.misaligned key sequenceId feature.offsets expected))
  else if rows ≠ Word.wrap (count * stride) then
    .error (.alignment (.steps key sequenceId rows count stride))
  else .ok feature.payload

def find (record : Record) (key : String) (sequenceId : Int64) :
    Except Fault SequenceFeature := do
  match (← record.sequences key)[sequenceId]? with
  | some feature => return feature
  | none => throw (.missingField (key ++ ":" ++ toString sequenceId.toInt))

/-- The stride that holds for a sequence, with the report of one that was learned. -/
def settle (key : String) (sequenceId : Int64) (stride : Option Nat)
    (feature : SequenceFeature) : Except Fault (Nat × List Effect) :=
  match stride with
  | some known => .ok (known, [])
  | none => do
      let learned ← learn key sequenceId feature
      return (learned, [.reported (.strideInferred key sequenceId learned)])

def selectAll (sequenceId : Int64) :
    List (String × String) → Option Nat → Record → Run (Option Nat)
  | [], stride, record => .silent stride (.ok record)
  | (key, target) :: rest, stride, record =>
      match find record key sequenceId with
      | .error fault => .silent stride (.error fault)
      | .ok feature =>
          match settle key sequenceId stride feature with
          | .error fault => .silent stride (.error fault)
          | .ok (known, effects) =>
              match select key sequenceId known feature with
              | .error fault => (Run.silent (some known) (.error fault)).after effects
              | .ok payload =>
                  (selectAll sequenceId rest (some known)
                    (record.set target (.valuePresence payload))).after effects

def apply (stage : FixedLengthSequences) (record : Record) : Run FixedLengthSequences :=
  (selectAll stage.sequenceId (stage.keys.zip stage.targets) stage.stride record).map
    (fun stride => { stage with stride })

def describe (stage : FixedLengthSequences) : String :=
  "FixedLengthSequences(" ++ bracketed stage.keys ++ ", sequence_id=" ++
    toString stage.sequenceId.toInt ++ ", expected_length=" ++
    (match stage.stride with
      | some stride => toString stride
      | none => "inferred") ++
    ", to_keys=" ++ bracketed stage.targets ++ ")"

end FixedLengthSequences

end Featurize
