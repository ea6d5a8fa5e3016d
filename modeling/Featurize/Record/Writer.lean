import Featurize.Json.Basic
import Featurize.Record.Basic

/-!
The JSON form of records. No member names the representation of a field: a
tensor is known by its `shape`, a pair by `value` and `presence`, each map by
the one member that holds it, and lists by their first item.
-/

namespace Featurize

def Tensor.toJson (tensor : Tensor) : Json :=
  .obj [("data", .ofDoubles tensor.data.toList), ("shape", .ofNats tensor.shape)]

def ValuePresence.toJson (pair : ValuePresence) : Json :=
  .obj [("presence", pair.presence.toJson), ("value", pair.value.toJson)]

def IdListFeature.toJson (feature : IdListFeature) : Json :=
  .obj [("ids", .ofIdList feature.ids), ("offsets", .ofIdList feature.offsets)]

def IdScoreListFeature.toJson (feature : IdScoreListFeature) : Json :=
  .obj [("ids", .ofIdList feature.ids), ("offsets", .ofIdList feature.offsets),
    ("scores", .ofDoubles feature.scores)]

/-- The offsets of a sequence beside the members of its pair. -/
def SequenceFeature.toJson (feature : SequenceFeature) : Json :=
  .obj [("offsets", .ofIdList feature.offsets), ("presence", feature.payload.presence.toJson),
    ("value", feature.payload.value.toJson)]

/-- The form by which the reader knows the representation. -/
def Field.toJson : Field → Json
  | .absent => .null
  | .tensor dense => dense.toJson
  | .valuePresence pair => pair.toJson
  | .valuePresenceList pairs => .arr (pairs.map ValuePresence.toJson)
  | .scalarList values => .ofDoubles values
  | .idList features => .obj [("id_list", .ofIds IdListFeature.toJson features)]
  | .idScoreList features => .obj [("id_score_list", .ofIds IdScoreListFeature.toJson features)]
  | .encodedIdList features =>
      .obj [("encoded_id_list", .ofNames IdListFeature.toJson features)]
  | .encodedIdScoreList features =>
      .obj [("encoded_id_score_list", .ofNames IdScoreListFeature.toJson features)]
  | .raggedSequence sequences => .obj [("sequence", .ofIds SequenceFeature.toJson sequences)]

def Record.toJson (record : Record) : Json := .ofNames Field.toJson record.fields

end Featurize
