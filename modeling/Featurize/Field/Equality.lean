import Featurize.Field.Basic

/-!
Equality of fields as numbers compare: zeros of both signs are equal, and a
value that is not a number makes its field differ from every field, also from
itself. Structural equality, in contrast, is Lean's own.
-/

namespace Featurize

def ValuePresence.sameNumbers (left right : ValuePresence) : Bool :=
  left.value.sameNumbers right.value && left.presence.sameNumbers right.presence

def IdScoreListFeature.sameNumbers (left right : IdScoreListFeature) : Bool :=
  left.offsets == right.offsets && left.ids == right.ids && left.scores == right.scores

def SequenceFeature.sameNumbers (left right : SequenceFeature) : Bool :=
  left.offsets == right.offsets && left.payload.sameNumbers right.payload

def sameEntries {Entry : Type} (same : Entry → Entry → Bool) : List Entry → List Entry → Bool
  | [], [] => true
  | left :: lefts, right :: rights => same left right && sameEntries same lefts rights
  | _, _ => false

/-- Maps with the same keys whose entries agree key by key. -/
def sameMembers {Key Entry : Type} [BEq Key] (same : Entry → Entry → Bool)
    (lefts rights : List (Key × Entry)) : Bool :=
  sameEntries (fun left right => left.1 == right.1 && same left.2 right.2) lefts rights

/-- Equality of fields as numbers compare; representations never mix. -/
def Field.sameNumbers : Field → Field → Bool
  | .absent, .absent => true
  | .tensor left, .tensor right => left.sameNumbers right
  | .valuePresence left, .valuePresence right => left.sameNumbers right
  | .valuePresenceList left, .valuePresenceList right =>
      sameEntries ValuePresence.sameNumbers left right
  | .scalarList left, .scalarList right => left == right
  | .idList left, .idList right => sameMembers (· == ·) left.toList right.toList
  | .idScoreList left, .idScoreList right =>
      sameMembers IdScoreListFeature.sameNumbers left.toList right.toList
  | .encodedIdList left, .encodedIdList right => sameMembers (· == ·) left.toList right.toList
  | .encodedIdScoreList left, .encodedIdScoreList right =>
      sameMembers IdScoreListFeature.sameNumbers left.toList right.toList
  | .raggedSequence left, .raggedSequence right =>
      sameMembers SequenceFeature.sameNumbers left.toList right.toList
  | _, _ => false

end Featurize
