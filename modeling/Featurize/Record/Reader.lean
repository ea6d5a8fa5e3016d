import Featurize.Json.Access
import Featurize.Record.Basic

/-!
Records read from JSON. The representation of a field is found by trying the
forms in a fixed order: null, lists, then objects by the first telling member.
A field in none of the forms is refused, and so is one whose form is right and
whose content is not; both name the field.
-/

namespace Featurize

def Tensor.ofJson (json : Json) : Except ReadFault Tensor := do
  let shape ← (← json.require "shape").asSizes
  let data ← (← json.require "data").asDoubles
  ofData shape data.toArray

def ValuePresence.ofJson (json : Json) : Except ReadFault ValuePresence := do
  let value ← Tensor.ofJson (← json.require "value")
  let presence ← Tensor.ofJson (← json.require "presence")
  return { value, presence }

def IdListFeature.ofJson (json : Json) : Except ReadFault IdListFeature := do
  let offsets ← (← json.require "offsets").asIds
  let ids ← (← json.require "ids").asIds
  return { offsets, ids }

/-- The ids and scores of a feature, which may differ in number. -/
def IdScoreListFeature.ofJson (json : Json) : Except ReadFault IdScoreListFeature := do
  let offsets ← (← json.require "offsets").asIds
  let ids ← (← json.require "ids").asIds
  let scores ← (← json.require "scores").asDoubles
  return { offsets, ids, scores }

def SequenceFeature.ofJson (json : Json) : Except ReadFault SequenceFeature := do
  let offsets ← (← json.require "offsets").asIds
  let payload ← ValuePresence.ofJson json
  return { offsets, payload }

namespace Field

/-- A list is one of numbers when it is empty or starts with a number, and one of
pairs otherwise. -/
def ofItems : List Json → Except ReadFault Field
  | [] => .ok (.scalarList [])
  | first :: items =>
      if first.isNumber then scalarList <$> (first :: items).mapM Json.asDouble
      else valuePresenceList <$> (first :: items).mapM ValuePresence.ofJson

/-- The form of an object, found by the first telling member it has. -/
def ofMembers? (json : Json) : Except ReadFault (Option Field) :=
  if json.contains "shape" then (some ∘ tensor) <$> Tensor.ofJson json
  else if json.contains "value" ∧ json.contains "presence" then
    (some ∘ valuePresence) <$> ValuePresence.ofJson json
  else
    match json.member? "id_list" with
    | some features => (some ∘ idList) <$> features.asIdMap IdListFeature.ofJson
    | none =>
    match json.member? "id_score_list" with
    | some features => (some ∘ idScoreList) <$> features.asIdMap IdScoreListFeature.ofJson
    | none =>
    match json.member? "encoded_id_list" with
    | some features => (some ∘ encodedIdList) <$> features.asNameMap IdListFeature.ofJson
    | none =>
    match json.member? "encoded_id_score_list" with
    | some features =>
        (some ∘ encodedIdScoreList) <$> features.asNameMap IdScoreListFeature.ofJson
    | none =>
    match json.member? "sequence" with
    | some sequences => (some ∘ raggedSequence) <$> sequences.asIdMap SequenceFeature.ofJson
    | none => .ok none

/-- The field that a JSON value writes, or nothing where its form is not known. -/
def read? (json : Json) : Except ReadFault (Option Field) :=
  match json with
  | .null => .ok (some .absent)
  | .arr items => some <$> ofItems items
  | .obj _ => ofMembers? json
  | _ => .ok none

def ofJson (key : String) (json : Json) : Except Fault Field :=
  match read? json with
  | .ok (some field) => .ok field
  | .ok none => .error (.field (.unrecognized key))
  | .error .malformed => .error (.field (.malformed key))
  | .error .keyNotAnInteger => .error (.field (.malformedId key))
  | .error (.shape cause) => .error (.shape cause)

end Field

def Record.ofJson : Json → Except Fault Record
  | .obj members =>
      members.foldlM
        (fun record (key, value) => return record.set key (← Field.ofJson key value))
        Record.empty
  | _ => .error (.field .recordNotAnObject)

end Featurize
