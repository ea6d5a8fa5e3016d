import Featurize.Proofs.Json.WrittenForms
import Featurize.Record.Reader
import Featurize.Record.Writer

/-!
Records written as JSON and read back. The written form of a field does not name its
representation, so the forms have to be told apart by the reader: all ten are, down to their
empty cases, except that a list of no pairs is written like a list of no numbers and is read as
the latter. What is read, from whatever JSON, never holds a list of no pairs; it is therefore
in a form that writing and reading leave as it is.
-/

namespace Featurize

/-! ### The parts of a field -/

theorem Tensor.ofJson_toJson (tensor : Tensor) : Tensor.ofJson tensor.toJson = .ok tensor := by
  unfold Tensor.ofJson
  simp only [Outcome.bind_eq_ok_iff]
  refine ⟨_, rfl, tensor.shape, Json.asSizes_ofNats tensor.sizes_lt, _, rfl,
    tensor.data.toList, Json.asDoubles_ofDoubles _, ?_⟩
  rw [Array.toArray_toList, tensor.ofData_self]
  rfl

theorem ValuePresence.ofJson_toJson (pair : ValuePresence) :
    ValuePresence.ofJson pair.toJson = .ok pair := by
  unfold ValuePresence.ofJson
  simp only [Outcome.bind_eq_ok_iff]
  exact ⟨_, rfl, pair.value, pair.value.ofJson_toJson, _, rfl, pair.presence,
    pair.presence.ofJson_toJson, rfl⟩

theorem IdListFeature.ofJson_toJson (feature : IdListFeature) :
    IdListFeature.ofJson feature.toJson = .ok feature := by
  unfold IdListFeature.ofJson
  simp only [Outcome.bind_eq_ok_iff]
  exact ⟨_, rfl, feature.offsets, Json.asIds_ofIdList _, _, rfl, feature.ids,
    Json.asIds_ofIdList _, rfl⟩

theorem IdScoreListFeature.ofJson_toJson (feature : IdScoreListFeature) :
    IdScoreListFeature.ofJson feature.toJson = .ok feature := by
  unfold IdScoreListFeature.ofJson
  simp only [Outcome.bind_eq_ok_iff]
  exact ⟨_, rfl, feature.offsets, Json.asIds_ofIdList _, _, rfl, feature.ids,
    Json.asIds_ofIdList _, _, rfl, feature.scores, Json.asDoubles_ofDoubles _, rfl⟩

theorem SequenceFeature.ofJson_toJson (feature : SequenceFeature) :
    SequenceFeature.ofJson feature.toJson = .ok feature := by
  unfold SequenceFeature.ofJson ValuePresence.ofJson
  simp only [Outcome.bind_eq_ok_iff]
  exact ⟨_, rfl, feature.offsets, Json.asIds_ofIdList _, feature.payload,
    ⟨_, rfl, feature.payload.value, feature.payload.value.ofJson_toJson, _, rfl,
      feature.payload.presence, feature.payload.presence.ofJson_toJson, rfl⟩, rfl⟩

/-! ### Fields -/

namespace Field

/-- The field that is read where this one was written: a list of no pairs becomes one of no
numbers. -/
def decoded : Field → Field
  | .valuePresenceList [] => .scalarList []
  | field => field

theorem decoded_of_ne {field : Field} (pairs : field ≠ .valuePresenceList []) :
    field.decoded = field := by
  unfold decoded
  split
  · exact absurd rfl pairs
  · rfl

theorem ofItems_written_numbers (values : List Double) :
    ofItems (values.map Json.double) = .ok (scalarList values) := by
  cases values with
  | nil => rfl
  | cons first rest =>
      have read : (Json.ofDoubles (first :: rest)).asDoubles = .ok (first :: rest) :=
        Json.asDoubles_ofDoubles (first :: rest)
      change scalarList <$> (Json.ofDoubles (first :: rest)).asDoubles = _
      rw [read]
      rfl

theorem ofItems_written_pairs (pairs : List ValuePresence) :
    ofItems (pairs.map ValuePresence.toJson) = .ok (valuePresenceList pairs).decoded := by
  cases pairs with
  | nil => rfl
  | cons first rest =>
      have read : (Json.arr ((first :: rest).map ValuePresence.toJson)).asList
          ValuePresence.ofJson = .ok (first :: rest) :=
        Json.asList_map (fun pair _member => pair.ofJson_toJson)
      change valuePresenceList <$> (Json.arr ((first :: rest).map ValuePresence.toJson)).asList
        ValuePresence.ofJson = _
      rw [read]
      rfl

theorem read?_toJson (field : Field) : read? field.toJson = .ok (some field.decoded) := by
  -- The tests come in a fixed order; each form fails those before its own by evaluation.
  cases field with
  | absent => rfl
  | tensor dense =>
      change (some ∘ tensor) <$> Tensor.ofJson dense.toJson = _
      rw [dense.ofJson_toJson]
      rfl
  | valuePresence pair =>
      change (some ∘ valuePresence) <$> ValuePresence.ofJson pair.toJson = _
      rw [pair.ofJson_toJson]
      rfl
  | valuePresenceList pairs =>
      change some <$> ofItems (pairs.map ValuePresence.toJson) = _
      rw [ofItems_written_pairs]
      rfl
  | scalarList values =>
      change some <$> ofItems (values.map Json.double) = _
      rw [ofItems_written_numbers]
      rfl
  | idList features =>
      change (some ∘ idList) <$>
        (Json.ofIds IdListFeature.toJson features).asIdMap IdListFeature.ofJson = _
      rw [Json.asIdMap_ofIds IdListFeature.ofJson_toJson]
      rfl
  | idScoreList features =>
      change (some ∘ idScoreList) <$>
        (Json.ofIds IdScoreListFeature.toJson features).asIdMap IdScoreListFeature.ofJson = _
      rw [Json.asIdMap_ofIds IdScoreListFeature.ofJson_toJson]
      rfl
  | encodedIdList features =>
      change (some ∘ encodedIdList) <$>
        (Json.ofNames IdListFeature.toJson features).asNameMap IdListFeature.ofJson = _
      rw [Json.asNameMap_ofNames IdListFeature.ofJson_toJson]
      rfl
  | encodedIdScoreList features =>
      change (some ∘ encodedIdScoreList) <$>
        (Json.ofNames IdScoreListFeature.toJson features).asNameMap IdScoreListFeature.ofJson = _
      rw [Json.asNameMap_ofNames IdScoreListFeature.ofJson_toJson]
      rfl
  | raggedSequence sequences =>
      change (some ∘ raggedSequence) <$>
        (Json.ofIds SequenceFeature.toJson sequences).asIdMap SequenceFeature.ofJson = _
      rw [Json.asIdMap_ofIds SequenceFeature.ofJson_toJson]
      rfl

theorem ofJson_toJson (key : String) (field : Field) :
    ofJson key field.toJson = .ok field.decoded := by
  unfold ofJson
  rw [read?_toJson]

end Field

/-! ### Records -/

namespace Record

def fieldPart (member : String × Json) : Except Fault (String × Field) := do
  let field ← Field.ofJson member.1 member.2
  return (member.1, field)

theorem ofJson_obj_eq_collect (members : List (String × Json)) :
    ofJson (.obj members) = Collection.collect set fieldPart members empty := by
  unfold ofJson Collection.collect fieldPart
  simp only [bind_assoc, pure_bind]

theorem fieldPart_eq_ok_iff {member : String × Json} {key : String} {field : Field} :
    fieldPart member = .ok (key, field) ↔
      member.1 = key ∧ Field.ofJson member.1 member.2 = .ok field := by
  unfold fieldPart
  simp only [Outcome.bind_eq_ok_iff, Outcome.pure_eq_ok_iff, Prod.mk.injEq]
  constructor
  · rintro ⟨_field, read, named, rfl⟩
    exact ⟨named, read⟩
  · rintro ⟨named, read⟩
    exact ⟨field, read, named, rfl⟩

theorem mem_members_toJson {record : Record} {member : String × Json} :
    member ∈ record.fields.toList.map (fun (name, field) => (name, Field.toJson field)) ↔
      ∃ key field, record.find? key = some field ∧ (key, field.toJson) = member := by
  rw [List.mem_map, Prod.exists]
  simp only [Std.ExtTreeMap.mem_toList_iff_getElem?_eq_some]
  rfl

theorem ofJson_toJson_decoded (record : Record) :
    ∃ output, ofJson record.toJson = .ok output ∧
      ∀ key, output.find? key = (record.find? key).map Field.decoded := by
  have sound :
      ∀ member ∈ record.fields.toList.map (fun (name, field) => (name, Field.toJson field)),
      ∃ key field, fieldPart member = .ok (key, field) ∧
        (record.find? key).map Field.decoded = some field := by
    intro member written
    obtain ⟨key, field, held, rfl⟩ := mem_members_toJson.mp written
    refine ⟨key, field.decoded, fieldPart_eq_ok_iff.mpr ⟨rfl, field.ofJson_toJson key⟩, ?_⟩
    rw [held, Option.map_some]
  have started : ∀ key field, empty.find? key = some field →
      (record.find? key).map Field.decoded = some field := by
    intro key field found
    rw [find?_empty] at found
    cases found
  have reached : ∀ key field, (record.find? key).map Field.decoded = some field →
      empty.find? key = some field ∨
        ∃ member ∈ record.fields.toList.map (fun (name, field) => (name, Field.toJson field)),
          fieldPart member = .ok (key, field) := by
    intro key field expected
    obtain ⟨source, held, rfl⟩ := Option.map_eq_some_iff.mp expected
    exact .inr ⟨(key, source.toJson), mem_members_toJson.mpr ⟨key, source, held, rfl⟩,
      fieldPart_eq_ok_iff.mpr ⟨rfl, source.ofJson_toJson key⟩⟩
  unfold toJson Json.ofNames
  rw [ofJson_obj_eq_collect]
  exact Collection.collect_completes find? find?_set sound started reached

theorem ofJson_toJson_of_pairs {record : Record}
    (pairs : ∀ key, record.find? key ≠ some (.valuePresenceList [])) :
    ofJson record.toJson = .ok record := by
  obtain ⟨output, read, fields⟩ := record.ofJson_toJson_decoded
  rw [read]
  refine congrArg Except.ok (ext_find? (fun key => ?_))
  rw [fields key]
  cases held : record.find? key with
  | none => rfl
  | some field =>
      rw [Option.map_some, Field.decoded_of_ne (fun same => pairs key (same ▸ held))]

/-- Writing and reading keeps every field of every record, except that a list of no pairs
comes back as a list of no numbers; a record without one comes back as it is. -/
theorem written_record_reads_back (record : Record) :
    (∃ output, ofJson record.toJson = .ok output ∧
      ∀ key, output.find? key = (record.find? key).map Field.decoded) ∧
    ((∀ key, record.find? key ≠ some (.valuePresenceList [])) →
      ofJson record.toJson = .ok record) :=
  ⟨record.ofJson_toJson_decoded, ofJson_toJson_of_pairs⟩

/-- The lowest id, an empty name and an empty list survive side by side. -/
theorem written_record_reads_back_extremes :
    ∃ record : Record,
      record = (empty.set "" (.idList ((∅ : IdMap IdListFeature).insert Int64.minValue
        { offsets := [], ids := [-1, Int64.minValue] }))).set "numbers" (.scalarList []) ∧
      (∀ key, record.find? key ≠ some (.valuePresenceList [])) ∧
      ofJson record.toJson = .ok record := by
  have pairs : ∀ key, ((empty.set "" (.idList ((∅ : IdMap IdListFeature).insert Int64.minValue
      { offsets := [], ids := [-1, Int64.minValue] }))).set "numbers" (.scalarList [])).find? key ≠
        some (.valuePresenceList []) := by
    intro key held
    rw [find?_set, find?_set, find?_empty] at held
    by_cases numbers : "numbers" = key
    · rw [if_pos numbers] at held
      cases held
    · rw [if_neg numbers] at held
      by_cases unnamed : "" = key
      · rw [if_pos unnamed] at held
        cases held
      · rw [if_neg unnamed] at held
        cases held
  exact ⟨_, rfl, pairs, (written_record_reads_back _).2 pairs⟩

/-- A list of no pairs does not come back: it is read as a list of no numbers. -/
theorem no_pairs_read_as_no_numbers :
    ∃ record output : Record, record = empty.set "pairs" (.valuePresenceList []) ∧
      ofJson record.toJson = .ok output ∧ output.find? "pairs" = some (.scalarList []) ∧
      output ≠ record := by
  refine ⟨_, empty.set "pairs" (.scalarList []), rfl, rfl, ?_, fun same => ?_⟩
  · rw [find?_set, if_pos rfl]
  · have fields := congrArg (fun record : Record => record.find? "pairs") same
    rw [find?_set, find?_set, if_pos rfl, if_pos rfl] at fields
    cases fields

end Record

/-! ### What any JSON is read as -/

namespace Field

theorem ofItems_ne_no_pairs {items : List Json} {field : Field}
    (read : ofItems items = .ok field) : field ≠ .valuePresenceList [] := by
  cases items with
  | nil =>
      cases read
      exact nofun
  | cons first items =>
      unfold ofItems at read
      dsimp only at read
      by_cases number : first.isNumber
      · rw [if_pos number, Outcome.map_eq_ok_iff] at read
        obtain ⟨_values, _read, rfl⟩ := read
        exact nofun
      · rw [if_neg number, Outcome.map_eq_ok_iff] at read
        obtain ⟨pairs, accepted, rfl⟩ := read
        rw [List.mapM_cons] at accepted
        simp only [Outcome.bind_eq_ok_iff, Outcome.pure_eq_ok_iff] at accepted
        obtain ⟨pair, _head, rest, _tail, rfl⟩ := accepted
        exact nofun

private theorem ne_no_pairs_of_form {Value : Type} {form : Value → Field}
    {outcome : Except ReadFault Value} {field : Field}
    (read : (some ∘ form) <$> outcome = .ok (some field))
    (apart : ∀ value, form value ≠ .valuePresenceList []) : field ≠ .valuePresenceList [] := by
  obtain ⟨value, _accepted, same⟩ := Outcome.map_eq_ok_iff.mp read
  exact Option.some.inj same ▸ apart value

theorem ofMembers?_ne_no_pairs {json : Json} {field : Field}
    (read : ofMembers? json = .ok (some field)) : field ≠ .valuePresenceList [] := by
  unfold ofMembers? at read
  split at read
  · exact ne_no_pairs_of_form read (fun _dense => nofun)
  · split at read
    · exact ne_no_pairs_of_form read (fun _pair => nofun)
    · split at read
      · exact ne_no_pairs_of_form read (fun _features => nofun)
      · split at read
        · exact ne_no_pairs_of_form read (fun _features => nofun)
        · split at read
          · exact ne_no_pairs_of_form read (fun _features => nofun)
          · split at read
            · exact ne_no_pairs_of_form read (fun _features => nofun)
            · split at read
              · exact ne_no_pairs_of_form read (fun _sequences => nofun)
              · cases read

theorem read?_ne_no_pairs {json : Json} {field : Field}
    (read : read? json = .ok (some field)) : field ≠ .valuePresenceList [] := by
  cases json with
  | null =>
      cases read
      exact nofun
  | arr items =>
      obtain ⟨_field, accepted, same⟩ := Outcome.map_eq_ok_iff.mp read
      exact Option.some.inj same ▸ ofItems_ne_no_pairs accepted
  | obj members => exact ofMembers?_ne_no_pairs read
  | bool value => cases read
  | int value => cases read
  | double value => cases read
  | str value => cases read

/-- A field is refused for the shape of a tensor or by a fault that names it, or it is read in
one of the known forms. -/
theorem ofJson_cases (key : String) (json : Json) :
    (∃ cause, ofJson key json = .error (.shape cause)) ∨
      (∃ cause ∈ [.unrecognized key, .malformed key, .malformedId key],
        ofJson key json = .error (.field cause)) ∨
      ∃ field, ofJson key json = .ok field ∧ read? json = .ok (some field) := by
  unfold ofJson
  cases read : read? json with
  | error fault =>
      cases fault with
      | malformed => exact .inr (.inl ⟨.malformed key, by simp, rfl⟩)
      | keyNotAnInteger => exact .inr (.inl ⟨.malformedId key, by simp, rfl⟩)
      | shape cause => exact .inl ⟨cause, rfl⟩
  | ok found =>
      cases found with
      | none => exact .inr (.inl ⟨.unrecognized key, by simp, rfl⟩)
      | some field => exact .inr (.inr ⟨field, rfl, rfl⟩)

theorem ofJson_ne_no_pairs {key : String} {json : Json} {field : Field}
    (read : ofJson key json = .ok field) : field ≠ .valuePresenceList [] := by
  rcases ofJson_cases key json with ⟨cause, failed⟩ | ⟨cause, _named, failed⟩ |
    ⟨found, succeeded, recognized⟩
  · cases failed.symm.trans read
  · cases failed.symm.trans read
  · cases succeeded.symm.trans read
    exact read?_ne_no_pairs recognized

end Field

namespace Record

theorem ofJson_cases (json : Json) :
    ofJson json = .error (.field .recordNotAnObject) ∨ ∃ members, json = .obj members := by
  cases json with
  | obj members => exact .inr ⟨members, rfl⟩
  | _ => exact .inl rfl

theorem find?_ne_no_pairs_of_ofJson {json : Json} {record : Record}
    (read : ofJson json = .ok record) (key : String) :
    record.find? key ≠ some (.valuePresenceList []) := by
  intro held
  rcases ofJson_cases json with refused | ⟨members, rfl⟩
  · cases refused.symm.trans read
  · rw [ofJson_obj_eq_collect] at read
    rcases Collection.origin_of_collect find? find?_set read held with start | ⟨member, _, given⟩
    · rw [find?_empty] at start
      cases start
    · exact Field.ofJson_ne_no_pairs (fieldPart_eq_ok_iff.mp given).2 rfl

theorem cause_of_ofJson {json : Json} {fault : Fault} (failed : ofJson json = .error fault) :
    fault = .field .recordNotAnObject ∨ ∃ members, json = .obj members ∧
      ∃ member ∈ members, (∃ cause, fault = .shape cause) ∨
        ∃ cause ∈ [.unrecognized member.1, .malformed member.1, .malformedId member.1],
          fault = .field cause := by
  rcases ofJson_cases json with refused | ⟨members, rfl⟩
  · cases refused.symm.trans failed
    exact .inl rfl
  · rw [ofJson_obj_eq_collect] at failed
    obtain ⟨member, listed, refused⟩ := Collection.exists_error_of_collect failed
    refine .inr ⟨members, rfl, member, listed, ?_⟩
    unfold fieldPart at refused
    rcases Field.ofJson_cases member.1 member.2 with ⟨cause, here⟩ | ⟨cause, named, here⟩ |
      ⟨field, here, _recognized⟩
    · rw [here] at refused
      cases refused
      exact .inl ⟨cause, rfl⟩
    · rw [here] at refused
      cases refused
      exact .inr ⟨cause, named, rfl⟩
    · rw [here] at refused
      cases refused

/-- Any JSON is refused by a fault of a field or of a shape, or it is read as a record that
writing and reading leaves as it is. -/
theorem read_record_is_refused_or_stable (json : Json) :
    (∃ cause, ofJson json = .error (.field cause)) ∨
      (∃ cause, ofJson json = .error (.shape cause)) ∨
      ∃ record, ofJson json = .ok record ∧ ofJson record.toJson = .ok record := by
  cases read : ofJson json with
  | ok record =>
      exact .inr (.inr ⟨record, rfl, ofJson_toJson_of_pairs (find?_ne_no_pairs_of_ofJson read)⟩)
  | error fault =>
      rcases cause_of_ofJson read with rfl | ⟨_members, _isObject, _member, _listed,
        ⟨cause, rfl⟩ | ⟨cause, _named, rfl⟩⟩
      · exact .inl ⟨_, rfl⟩
      · exact .inr (.inl ⟨cause, rfl⟩)
      · exact .inl ⟨cause, rfl⟩

end Record

end Featurize
