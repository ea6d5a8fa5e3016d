/-!
The types of stage that a configuration can ask for, with their written names.
-/

namespace Featurize

/-- A type of stage that is described by its options alone. -/
inductive StageType where
  | pairPresence
  | normalization
  | encoding
  | oneHotActions
  | columnVector
  | maskByPresence
  | stackRows
  | sequences
  | slateView
  | sequenceNormalization
  | appendConstant
  | unsqueezeRepeat
  | outerProduct
  | identityMatrix
  | concatenate
  | rename
  | filter
  | selectColumns
  deriving Repr, DecidableEq

namespace StageType

def name : StageType → String
  | .pairPresence => "ValuePresence"
  | .normalization => "DenseNormalization"
  | .encoding => "MapIDListFeatures"
  | .oneHotActions => "OneHotActions"
  | .columnVector => "ColumnVector"
  | .maskByPresence => "MaskByPresence"
  | .stackRows => "StackDenseFixedSizeArray"
  | .sequences => "FixedLengthSequences"
  | .slateView => "SlateView"
  | .sequenceNormalization => "FixedLengthSequenceDenseNormalization"
  | .appendConstant => "AppendConstant"
  | .unsqueezeRepeat => "UnsqueezeRepeat"
  | .outerProduct => "OuterProduct"
  | .identityMatrix => "GetEye"
  | .concatenate => "Cat"
  | .rename => "Rename"
  | .filter => "Filter"
  | .selectColumns => "SelectValuePresenceColumns"

def all : List StageType :=
  [.pairPresence, .normalization, .encoding, .oneHotActions, .columnVector, .maskByPresence,
    .stackRows, .sequences, .slateView, .sequenceNormalization, .appendConstant, .unsqueezeRepeat,
    .outerProduct, .identityMatrix, .concatenate, .rename, .filter, .selectColumns]

def ofName? (name : String) : Option StageType := all.find? (fun type => type.name == name)

theorem ofName?_name (type : StageType) : ofName? type.name = some type := by
  cases type <;> rfl

end StageType

end Featurize
