import Featurize.Field.Basic
import Featurize.Normalization.Normalizer
import Featurize.Sparse.FeatureConfig

/-!
Sparse encoders turn raw id lists, keyed by feature id, into embeddable ones,
keyed by feature name, or refuse them. The standard one drops disabled features
and replaces each id by its position in the vocabulary of its feature. An id
outside the vocabulary goes to one extra bucket behind the distinct ids; a
feature without a vocabulary keeps its ids.
-/

namespace Featurize

/-- Turns raw sparse features into embeddable ones. -/
structure SparseEncoder where
  encodeIds : IdMap IdListFeature → Except Fault (NameMap IdListFeature)
  encodeScores : IdMap IdScoreListFeature → Except Fault (NameMap IdScoreListFeature)

/-- The standard encoder, driven by a feature configuration. -/
structure MappedEncoder where
  config : FeatureConfig

/-- The distinct ids of a vocabulary with the position of their first occurrence. -/
def vocabularyIndex (vocabulary : List Int64) : IdMap Nat :=
  vocabulary.zipIdx.foldl (fun index (id, position) => index.insertIfNew id position) ∅

namespace FeatureConfig

def mapIds (config : FeatureConfig) (name : String) (ids : List Int64) : List Int64 :=
  match config.vocabularies[name]? with
  | none => ids
  | some vocabulary =>
      let index := vocabularyIndex vocabulary
      ids.map (fun id => Int64.ofNat (index[id]?.getD index.size))

/-- Encodes the enabled features in the order of their ids; of two features with one
name the later stays. -/
def encodeIds (config : FeatureConfig) (features : IdMap IdListFeature) :
    NameMap IdListFeature :=
  features.toList.foldl
    (fun encoded (id, feature) =>
      match config.names[id]? with
      | none => encoded
      | some name =>
          encoded.insert name { feature with ids := config.mapIds name feature.ids })
    ∅

/-- Encodes the enabled features with their scores. A feature with another number of
scores than ids is refused, enabled or not. -/
def encodeScores (config : FeatureConfig) (features : IdMap IdScoreListFeature) :
    Except ShapeFault (NameMap IdScoreListFeature) :=
  features.toList.foldlM
    (fun encoded (id, feature) =>
      if feature.ids.length ≠ feature.scores.length then
        .error (.scoreCount id feature.ids.length feature.scores.length)
      else
        match config.names[id]? with
        | none => .ok encoded
        | some name =>
            .ok (encoded.insert name { feature with ids := config.mapIds name feature.ids }))
    ∅

def encoder (config : FeatureConfig) (device : Device) : Except ConfigFault MappedEncoder :=
  if device.name = "cpu" then .ok { config } else .error (.encodingDevice device.name)

end FeatureConfig

namespace MappedEncoder

def encodeIds (encoder : MappedEncoder) : IdMap IdListFeature → NameMap IdListFeature :=
  encoder.config.encodeIds

def encodeScores (encoder : MappedEncoder) :
    IdMap IdScoreListFeature → Except ShapeFault (NameMap IdScoreListFeature) :=
  encoder.config.encodeScores

def toSparseEncoder (encoder : MappedEncoder) : SparseEncoder :=
  { encodeIds := fun features => .ok (encoder.encodeIds features)
    encodeScores := fun features => (encoder.encodeScores features).mapError Fault.shape }

end MappedEncoder

end Featurize
