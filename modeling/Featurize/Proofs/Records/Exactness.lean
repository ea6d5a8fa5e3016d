import Featurize.Proofs.Records.RoundTrip
import Featurize.Proofs.Tensors.Exactness

/-!
Exact records. A record is exact when all its tensors are, also those in pairs, in lists of
pairs and in the payloads of sequences. A record that was read holds no tensor but those that
are written in the document, so it is exact when the sizes of each of them multiply to a
machine word. A product that exceeds a word is not noticed by the check of the elements
against the shape.
-/

namespace Featurize

structure ValuePresence.Exact (pair : ValuePresence) : Prop where
  value : pair.value.Exact
  presence : pair.presence.Exact

def Field.Exact : Field → Prop
  | .tensor dense => dense.Exact
  | .valuePresence pair => pair.Exact
  | .valuePresenceList pairs => ∀ pair ∈ pairs, pair.Exact
  | .raggedSequence sequences =>
      ∀ (id : Int64) (feature : SequenceFeature), sequences[id]? = some feature →
        feature.payload.Exact
  | _ => True

namespace Record

def Exact (record : Record) : Prop := ∀ key field, record.find? key = some field → field.Exact

variable {record : Record} {key : String}

theorem exact_empty : empty.Exact := by
  intro key field found
  rw [find?_empty] at found
  cases found

theorem Exact.set (exact : record.Exact) (key : String) {field : Field} (stored : field.Exact) :
    (record.set key field).Exact := by
  intro other found held
  rw [find?_set] at held
  split at held
  · exact Option.some.inj held ▸ stored
  · exact exact other found held

theorem Exact.erase (exact : record.Exact) (key : String) : (record.erase key).Exact := by
  intro other found held
  rw [find?_erase] at held
  split at held
  · cases held
  · exact exact other found held

theorem Exact.get (exact : record.Exact) {field : Field} (read : record.get key = .ok field) :
    field.Exact :=
  exact key field (get_eq_ok_iff.mp read)

theorem Exact.pair (exact : record.Exact) {pair : ValuePresence}
    (read : record.pair key = .ok pair) : pair.Exact := by
  obtain ⟨field, found, taken⟩ := Outcome.bind_eq_ok_iff.mp read
  have held := exact.get found
  cases field with
  | valuePresence given =>
      cases taken
      exact held
  | _ => cases taken

end Record

/-! ### Records that are read -/

namespace Json

/-- The value stands in the whole, at any depth. -/
inductive Holds (whole : Json) : Json → Prop
  | self : Holds whole whole
  | part {value part : Json} {name : Option String} (inside : Holds whole value)
      (listed : (name, part) ∈ value.parts) : Holds whole part

/-- Of every tensor that is written in the document, the sizes multiply to a machine word. -/
def TensorsFit (document : Json) : Prop :=
  ∀ part tensor, document.Holds part → Tensor.ofJson part = .ok tensor → tensor.shape.FitsWord

variable {document inner : Json} {name : Option String}

theorem Holds.of_part (listed : (name, inner) ∈ document.parts) {value : Json}
    (inside : inner.Holds value) : document.Holds value := by
  induction inside with
  | self => exact .part .self listed
  | part _inside further ih => exact .part ih further

theorem TensorsFit.part (fits : document.TensorsFit) (listed : (name, inner) ∈ document.parts) :
    inner.TensorsFit :=
  fun value tensor inside read => fits value tensor (inside.of_part listed) read

/-- It is enough to look at values that hold no others. -/
theorem tensorsFit_of_closed {values : List Json} (start : document ∈ values)
    (closed : ∀ value ∈ values, ∀ part ∈ value.parts, part.2 ∈ values)
    (fits : ∀ value ∈ values, ∀ tensor, Tensor.ofJson value = .ok tensor → tensor.shape.FitsWord) :
    document.TensorsFit := by
  intro part tensor inside read
  refine fits part ?_ tensor read
  clear read
  induction inside with
  | self => exact start
  | part _inside listed ih => exact closed _ ih _ listed

theorem TensorsFit.tensor (fits : document.TensorsFit) {tensor : Tensor}
    (read : Tensor.ofJson document = .ok tensor) : tensor.Exact :=
  Tensor.exact_iff_fitsWord.mpr (fits document tensor .self read)

theorem mem_parts_of_member? {name : String} {value : Json}
    (found : document.member? name = some value) : (some name, value) ∈ document.parts := by
  unfold member? at found
  cases document with
  | obj members =>
      obtain ⟨earlier, later, whole, _apart⟩ := List.lookup_eq_some_iff.mp found
      rw [parts, whole]
      exact List.mem_map_of_mem (List.mem_append_right _ (List.mem_cons_self ..))
  | _ => cases found

theorem mem_parts_of_require {name : String} {value : Json}
    (read : document.require name = .ok value) : (some name, value) ∈ document.parts := by
  unfold require at read
  split at read
  · rename_i given found
    cases read
    exact mem_parts_of_member? found
  · cases read

theorem TensorsFit.pair (fits : document.TensorsFit) {pair : ValuePresence}
    (read : ValuePresence.ofJson document = .ok pair) : pair.Exact := by
  unfold ValuePresence.ofJson at read
  simp only [Outcome.bind_eq_ok_iff, Outcome.pure_eq_ok_iff] at read
  obtain ⟨writtenValue, valueAt, value, valueRead, writtenPresence, presenceAt, presence,
    presenceRead, rfl⟩ := read
  exact ⟨(fits.part (mem_parts_of_require valueAt)).tensor valueRead,
    (fits.part (mem_parts_of_require presenceAt)).tensor presenceRead⟩

end Json

namespace Field

variable {json : Json} {field : Field}

theorem exact_of_ofItems {items : List Json} (fits : (Json.arr items).TensorsFit)
    (read : ofItems items = .ok field) : field.Exact := by
  cases items with
  | nil =>
      cases read
      trivial
  | cons first items =>
      unfold ofItems at read
      dsimp only at read
      split at read
      · obtain ⟨_values, _read, rfl⟩ := Outcome.map_eq_ok_iff.mp read
        trivial
      · obtain ⟨pairs, accepted, rfl⟩ := Outcome.map_eq_ok_iff.mp read
        intro pair member
        obtain ⟨item, listed, made⟩ := Collection.exists_item_of_mapM accepted member
        exact (fits.part (List.mem_map_of_mem listed)).pair made

theorem exact_of_sequences (fits : json.TensorsFit) {sequences : IdMap SequenceFeature}
    (read : json.asIdMap SequenceFeature.ofJson = .ok sequences) :
    (raggedSequence sequences).Exact := by
  intro id feature listed
  rw [Json.asIdMap_eq_collect] at read
  have source := Collection.origin_of_collect
    (fun (found : IdMap SequenceFeature) (id : Int64) => found[id]?)
    Collection.getElem?_insert_ite read listed
  rcases source with start | ⟨part, member, given⟩
  · rw [Std.ExtTreeMap.getElem?_empty] at start
    cases start
  · unfold Json.idPart SequenceFeature.ofJson at given
    simp only [Outcome.bind_eq_ok_iff, Outcome.pure_eq_ok_iff] at given
    obtain ⟨_entry, ⟨_offsets, _offsetsAt, _ids, _idsRead, payload, payloadRead, rfl⟩, _id,
      _named, same⟩ := given
    cases same
    exact (fits.part member).pair payloadRead

private theorem exact_of_form {Value : Type} {form : Value → Field}
    {outcome : Except ReadFault Value} (read : (some ∘ form) <$> outcome = .ok (some field))
    (each : ∀ value, outcome = .ok value → (form value).Exact) : field.Exact := by
  obtain ⟨value, accepted, same⟩ := Outcome.map_eq_ok_iff.mp read
  exact Option.some.inj same ▸ each value accepted

theorem exact_of_ofMembers? (fits : json.TensorsFit)
    (read : ofMembers? json = .ok (some field)) : field.Exact := by
  unfold ofMembers? at read
  split at read
  · exact exact_of_form read (fun _dense accepted => fits.tensor accepted)
  · split at read
    · exact exact_of_form read (fun _pair accepted => fits.pair accepted)
    · split at read
      · exact exact_of_form read (fun _features _accepted => trivial)
      · split at read
        · exact exact_of_form read (fun _features _accepted => trivial)
        · split at read
          · exact exact_of_form read (fun _features _accepted => trivial)
          · split at read
            · exact exact_of_form read (fun _features _accepted => trivial)
            · split at read
              · rename_i written found
                exact exact_of_form read (fun _sequences accepted =>
                  exact_of_sequences (fits.part (Json.mem_parts_of_member? found)) accepted)
              · cases read

theorem exact_of_read? (fits : json.TensorsFit) (read : read? json = .ok (some field)) :
    field.Exact := by
  cases json with
  | null =>
      cases read
      trivial
  | arr items =>
      obtain ⟨_field, accepted, same⟩ := Outcome.map_eq_ok_iff.mp read
      exact Option.some.inj same ▸ exact_of_ofItems fits accepted
  | obj members => exact exact_of_ofMembers? fits read
  | bool value => cases read
  | int value => cases read
  | double value => cases read
  | str value => cases read

theorem exact_of_ofJson {key : String} (fits : json.TensorsFit)
    (read : ofJson key json = .ok field) : field.Exact := by
  rcases ofJson_cases key json with ⟨cause, failed⟩ | ⟨cause, _named, failed⟩ |
    ⟨found, succeeded, recognized⟩
  · cases failed.symm.trans read
  · cases failed.symm.trans read
  · cases succeeded.symm.trans read
    exact exact_of_read? fits recognized

end Field

theorem Record.exact_of_ofJson {document : Json} {record : Record}
    (fits : document.TensorsFit) (read : ofJson document = .ok record) : record.Exact := by
  intro key field held
  rcases ofJson_cases document with refused | ⟨members, rfl⟩
  · cases refused.symm.trans read
  · rw [ofJson_obj_eq_collect] at read
    rcases Collection.origin_of_collect find? find?_set read held with start | ⟨member, listed, given⟩
    · rw [find?_empty] at start
      cases start
    · have written : (some member.1, member.2) ∈ (Json.obj members).parts :=
        List.mem_map_of_mem listed
      exact Field.exact_of_ofJson (fits.part written) (fieldPart_eq_ok_iff.mp given).2

/-- Two sizes whose product is the number of words count no elements: without data they pass
the check of the elements, and the tensor is not exact. -/
theorem Record.wrapped_product_is_read :
    ∃ record, ofJson (.obj [("a", .obj [("shape", .arr [.int 4294967296, .int 4294967296]),
        ("data", .arr [])])]) = .ok record ∧ ¬ record.Exact := by
  refine ⟨_, rfl, fun exact => ?_⟩
  have held := exact "a" _ (by rw [find?_set, if_pos rfl])
  have count : (0 : Nat) = 18446744073709551616 := held
  cases count

end Featurize
