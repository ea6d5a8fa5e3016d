import Featurize.OrderedMap
import Featurize.Tensor.Basic

/-!
Fields: the data that a record holds under one name, in one of ten
representations. Maps from feature ids and from feature names are ordered by
their keys and are equal when they hold the same entries.
-/

namespace Featurize

/-- Values together with a mask that says which of them are present. -/
structure ValuePresence where
  value : Tensor
  presence : Tensor

/-- The ids of one sparse feature; `offsets` holds where each batch element starts. -/
structure IdListFeature where
  offsets : List Int64
  ids : List Int64
  deriving DecidableEq

structure IdScoreListFeature where
  offsets : List Int64
  ids : List Int64
  scores : List Double

/-- The steps of one sequence; `offsets` holds where each batch element starts. -/
structure SequenceFeature where
  offsets : List Int64
  payload : ValuePresence

/-- The data of one field. -/
inductive Field where
  | absent
  | tensor (dense : Tensor)
  | valuePresence (pair : ValuePresence)
  | valuePresenceList (pairs : List ValuePresence)
  | scalarList (values : List Double)
  | idList (features : IdMap IdListFeature)
  | idScoreList (features : IdMap IdScoreListFeature)
  | encodedIdList (features : NameMap IdListFeature)
  | encodedIdScoreList (features : NameMap IdScoreListFeature)
  | raggedSequence (sequences : IdMap SequenceFeature)

namespace Field

def kind : Field → FieldKind
  | .absent => .absent
  | .tensor _ => .tensor
  | .valuePresence _ => .valuePresence
  | .valuePresenceList _ => .valuePresenceList
  | .scalarList _ => .scalarList
  | .idList _ => .idList
  | .idScoreList _ => .idScoreList
  | .encodedIdList _ => .encodedIdList
  | .encodedIdScoreList _ => .encodedIdScoreList
  | .raggedSequence _ => .raggedSequence

/-- The dense view of a field that can be paired with a presence mask. -/
def dense? : Field → Option Tensor
  | .tensor dense => some dense
  | .scalarList values => some (Tensor.ofList values)
  | _ => none

def unexpected (key : String) (expected : FieldKind) (field : Field) : Fault :=
  .field (.unexpectedKind key [expected] field.kind)

def asTensor (key : String) : Field → Except Fault Tensor
  | .tensor dense => .ok dense
  | field => .error (field.unexpected key .tensor)

def asPair (key : String) : Field → Except Fault ValuePresence
  | .valuePresence pair => .ok pair
  | field => .error (field.unexpected key .valuePresence)

def asIdList (key : String) : Field → Except Fault (IdMap IdListFeature)
  | .idList features => .ok features
  | field => .error (field.unexpected key .idList)

def asIdScoreList (key : String) : Field → Except Fault (IdMap IdScoreListFeature)
  | .idScoreList features => .ok features
  | field => .error (field.unexpected key .idScoreList)

def asSequences (key : String) : Field → Except Fault (IdMap SequenceFeature)
  | .raggedSequence sequences => .ok sequences
  | field => .error (field.unexpected key .raggedSequence)

end Field

namespace ValuePresence

/-- Whether the mask has the shape of the values. -/
def Aligned (pair : ValuePresence) : Prop := pair.value.shape = pair.presence.shape

instance (pair : ValuePresence) : Decidable pair.Aligned :=
  inferInstanceAs (Decidable (pair.value.shape = pair.presence.shape))

def checkAligned (key : String) (pair : ValuePresence) : Except ShapeFault Unit :=
  if pair.Aligned then .ok ()
  else .error (.presenceShape key pair.value.shape pair.presence.shape)

end ValuePresence

end Featurize
