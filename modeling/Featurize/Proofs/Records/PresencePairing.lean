import Featurize.Proofs.Outcome
import Featurize.Stage.Basic

/-!
Pairing of presence masks. The names of a record are visited in turn, and fields disappear on
the way, but a dense field is still the one that the record came with, and a pair is never
touched again. So nothing is lost and nothing is there twice: every field of the result is
one of the record or a pair of two of them, a field that is gone is the mask of such a pair,
and no two fields that belong together are left.
-/

namespace Featurize

theorem presenceKey_ne (key : String) : presenceKey key ≠ key := by
  intro same
  have lengths := congrArg String.length same
  rw [presenceKey, String.length_append] at lengths
  have suffix : "_presence".length = 9 := rfl
  omega

namespace Record

variable {record current output : Record} {key name : String} {pair : ValuePresence}

def dense? (record : Record) (key : String) : Option Tensor :=
  (record.find? key).bind Field.dense?

theorem dense?_eq_some_iff {dense : Tensor} :
    record.dense? key = some dense ↔
      ∃ field, record.find? key = some field ∧ field.dense? = some dense :=
  Option.bind_eq_some_iff

/-- The field under the name and the mask beside it are dense, and are the parts of the pair. -/
structure Pairs (record : Record) (key : String) (pair : ValuePresence) : Prop where
  value : record.dense? key = some pair.value
  presence : record.dense? (presenceKey key) = some pair.presence

/-- Every field of the output is one of the record, or the pair made of it and its mask, which
is then gone. Every field of the record is still there, or is the mask in a pair. -/
structure PairedInto (record output : Record) : Prop where
  origin : ∀ key field, output.find? key = some field →
    record.find? key = some field ∨
      ∃ pair, field = .valuePresence pair ∧ record.Pairs key pair ∧
        output.find? (presenceKey key) = none
  survival : ∀ key field, record.find? key = some field →
    (∃ kept, output.find? key = some kept) ∨
      ∃ owner pair, key = presenceKey owner ∧ output.find? owner = some (.valuePresence pair) ∧
        field.dense? = some pair.presence

/-! ### One name -/

theorem find?_pairPresenceAt (paired : record.Pairs key pair) (name : String) :
    (record.pairPresenceAt key).find? name =
      if key = name then some (.valuePresence pair)
      else if presenceKey key = name then none
      else record.find? name := by
  have made : record.pairPresenceAt key =
      (record.erase (presenceKey key)).set key (.valuePresence pair) := by
    have value : (record.find? key).bind Field.dense? = some pair.value := paired.value
    have presence : (record.find? (presenceKey key)).bind Field.dense? = some pair.presence :=
      paired.presence
    unfold pairPresenceAt
    rw [value, presence]
  rw [made, find?_set, find?_erase]

theorem pairPresenceAt_of_not_pairs (alone : ∀ pair, ¬ record.Pairs key pair) :
    record.pairPresenceAt key = record := by
  unfold pairPresenceAt
  cases value : (record.find? key).bind Field.dense? with
  | none => rfl
  | some dense =>
      cases presence : (record.find? (presenceKey key)).bind Field.dense? with
      | none => rfl
      | some mask => exact (alone ⟨dense, mask⟩ ⟨value, presence⟩).elim

/-- What is dense after a step was so before: a step makes pairs and drops masks. -/
theorem dense?_of_pairPresenceAt {dense : Tensor}
    (found : (record.pairPresenceAt key).dense? name = some dense) :
    record.dense? name = some dense := by
  by_cases paired : ∃ pair, record.Pairs key pair
  · obtain ⟨pair, paired⟩ := paired
    obtain ⟨field, stored, viewed⟩ := dense?_eq_some_iff.mp found
    rw [find?_pairPresenceAt paired] at stored
    split at stored
    · cases stored
      cases viewed
    · split at stored
      · cases stored
      · exact dense?_eq_some_iff.mpr ⟨field, stored, viewed⟩
  · rwa [pairPresenceAt_of_not_pairs (fun pair here => paired ⟨pair, here⟩)] at found

theorem pairs_of_pairPresenceAt (paired : (record.pairPresenceAt key).Pairs name pair) :
    record.Pairs name pair :=
  ⟨dense?_of_pairPresenceAt paired.value, dense?_of_pairPresenceAt paired.presence⟩

theorem not_pairs_pairPresenceAt (record : Record) (key : String) (pair : ValuePresence) :
    ¬ (record.pairPresenceAt key).Pairs key pair := by
  intro again
  have before := pairs_of_pairPresenceAt again
  obtain ⟨field, stored, viewed⟩ := dense?_eq_some_iff.mp again.value
  rw [find?_pairPresenceAt before, if_pos rfl] at stored
  cases stored
  cases viewed

/-! ### All names -/

namespace PairedInto

theorem refl (record : Record) : record.PairedInto record where
  origin := fun _key _field found => .inl found
  survival := fun _key field found => .inl ⟨field, found⟩

theorem dense?_of_output (paired : record.PairedInto current) {dense : Tensor}
    (found : current.dense? key = some dense) : record.dense? key = some dense := by
  obtain ⟨field, stored, viewed⟩ := dense?_eq_some_iff.mp found
  rcases paired.origin key field stored with original | ⟨pair, same, _parts, _gone⟩
  · exact dense?_eq_some_iff.mpr ⟨field, original, viewed⟩
  · subst same
    cases viewed

theorem pairs_of_output (paired : record.PairedInto current) (here : current.Pairs key pair) :
    record.Pairs key pair :=
  ⟨paired.dense?_of_output here.value, paired.dense?_of_output here.presence⟩

theorem origin_step (paired : record.PairedInto current) (here : current.Pairs key pair)
    {name : String} {field : Field}
    (found : (current.pairPresenceAt key).find? name = some field) :
    record.find? name = some field ∨
      ∃ pair, field = .valuePresence pair ∧ record.Pairs name pair ∧
        (current.pairPresenceAt key).find? (presenceKey name) = none := by
  rw [find?_pairPresenceAt here] at found ⊢
  split at found
  case isTrue same =>
    subst same
    cases found
    refine .inr ⟨pair, rfl, paired.pairs_of_output here, ?_⟩
    rw [if_neg (presenceKey_ne key).symm, if_pos rfl]
  case isFalse different =>
    split at found
    case isTrue dropped => cases found
    case isFalse kept =>
      rcases paired.origin name field found with original | ⟨made, same, parts, gone⟩
      · exact .inl original
      · refine .inr ⟨made, same, parts, ?_⟩
        have other : key ≠ presenceKey name := by
          intro same
          obtain ⟨present, stored, _viewed⟩ := dense?_eq_some_iff.mp here.value
          rw [same, gone] at stored
          cases stored
        rw [if_neg other, gone, ite_self]

theorem survival_step (paired : record.PairedInto current) (here : current.Pairs key pair)
    {name : String} {field : Field} (found : record.find? name = some field) :
    (∃ kept, (current.pairPresenceAt key).find? name = some kept) ∨
      ∃ owner pair, name = presenceKey owner ∧
        (current.pairPresenceAt key).find? owner = some (.valuePresence pair) ∧
          field.dense? = some pair.presence := by
  rcases paired.survival name field found with ⟨kept, stored⟩ | ⟨owner, made, named, stored, mask⟩
  · by_cases own : key = name
    · exact .inl ⟨.valuePresence pair, by rw [find?_pairPresenceAt here, if_pos own]⟩
    · by_cases dropped : presenceKey key = name
      · refine .inr ⟨key, pair, dropped.symm, ?_, ?_⟩
        · rw [find?_pairPresenceAt here, if_pos rfl]
        · obtain ⟨original, originalFound, viewed⟩ :=
            dense?_eq_some_iff.mp (paired.pairs_of_output here).presence
          rw [dropped, found] at originalFound
          cases originalFound
          exact viewed
      · exact .inl ⟨kept, by rw [find?_pairPresenceAt here, if_neg own, if_neg dropped, stored]⟩
  · have untouched : ∀ other dense, current.dense? other = some dense → other ≠ owner := by
      intro other dense view same
      obtain ⟨present, again, viewed⟩ := dense?_eq_some_iff.mp view
      rw [same, stored] at again
      cases again
      cases viewed
    refine .inr ⟨owner, made, named, ?_, mask⟩
    rw [find?_pairPresenceAt here, if_neg (untouched key _ here.value),
      if_neg (untouched _ _ here.presence), stored]

theorem step (paired : record.PairedInto current) (key : String) :
    record.PairedInto (current.pairPresenceAt key) := by
  by_cases here : ∃ pair, current.Pairs key pair
  · obtain ⟨pair, here⟩ := here
    exact ⟨fun _name _field => paired.origin_step here,
      fun _name _field => paired.survival_step here⟩
  · rw [pairPresenceAt_of_not_pairs (fun pair parts => here ⟨pair, parts⟩)]
    exact paired

theorem foldl (paired : record.PairedInto current) (keys : List String) :
    record.PairedInto (keys.foldl pairPresenceAt current) := by
  induction keys generalizing current with
  | nil => exact paired
  | cons key keys ih => exact ih (paired.step key)

end PairedInto

theorem pairs_of_foldl_pairPresenceAt {keys : List String}
    (paired : (keys.foldl pairPresenceAt record).Pairs name pair) : record.Pairs name pair := by
  induction keys generalizing record with
  | nil => exact paired
  | cons key keys ih => exact pairs_of_pairPresenceAt (ih paired)

theorem not_pairs_of_visited {keys : List String} (visited : name ∈ keys) :
    ¬ (keys.foldl pairPresenceAt record).Pairs name pair := by
  induction keys generalizing record with
  | nil => cases visited
  | cons key keys ih =>
      rcases List.mem_cons.mp visited with same | later
      · subst same
        exact fun paired =>
          not_pairs_pairPresenceAt record name pair (pairs_of_foldl_pairPresenceAt paired)
      · exact ih later

theorem mem_keys_iff : key ∈ record.keys ↔ ∃ field, record.find? key = some field := by
  unfold keys find?
  rw [Std.ExtTreeMap.mem_keys, Std.ExtTreeMap.mem_iff_isSome_getElem?, Option.isSome_iff_exists]

/-- Pairing takes every record. It neither loses nor duplicates a field, and leaves no field
beside a mask with which it could be paired. -/
theorem pairPresence_neither_loses_nor_duplicates (record : Record) :
    ∃ output, ((Stage.operation .pairPresence).apply record).outcome = .ok output ∧
      record.PairedInto output ∧ ∀ key pair, ¬ output.Pairs key pair := by
  refine ⟨record.pairPresence, rfl, (PairedInto.refl record).foldl record.keys, ?_⟩
  intro key pair left
  obtain ⟨field, found, _viewed⟩ :=
    dense?_eq_some_iff.mp (pairs_of_foldl_pairPresenceAt left).value
  exact not_pairs_of_visited (mem_keys_iff.mpr ⟨field, found⟩) left

end Record

end Featurize
