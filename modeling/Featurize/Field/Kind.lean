/-!
The ten representations a field can have, with their written names.
-/

namespace Featurize

/-- The representation of a field. -/
inductive FieldKind where
  | absent
  | tensor
  | valuePresence
  | valuePresenceList
  | scalarList
  | idList
  | idScoreList
  | encodedIdList
  | encodedIdScoreList
  | raggedSequence
  deriving Repr, DecidableEq

namespace FieldKind

def name : FieldKind → String
  | .absent => "absent"
  | .tensor => "tensor"
  | .valuePresence => "value_presence"
  | .valuePresenceList => "value_presence_list"
  | .scalarList => "scalar_list"
  | .idList => "id_list"
  | .idScoreList => "id_score_list"
  | .encodedIdList => "encoded_id_list"
  | .encodedIdScoreList => "encoded_id_score_list"
  | .raggedSequence => "ragged_sequence"

def all : List FieldKind :=
  [.absent, .tensor, .valuePresence, .valuePresenceList, .scalarList, .idList, .idScoreList,
    .encodedIdList, .encodedIdScoreList, .raggedSequence]

def ofName? (name : String) : Option FieldKind :=
  all.find? (fun kind => kind.name == name)

theorem ofName?_name (kind : FieldKind) : ofName? kind.name = some kind := by
  cases kind <;> rfl

end FieldKind

end Featurize
