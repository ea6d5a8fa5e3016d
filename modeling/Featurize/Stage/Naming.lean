import Featurize.Record.Basic

/-!
Operations on the names of a record: renaming, keeping and removing fields.
-/

namespace Featurize.Record

/-- Moves fields to new names, one pair of names after the other. -/
def rename (record : Record) (names : List (String × String)) : Except Fault Record :=
  names.foldlM
    (fun record (old, new) => do
      let (field, rest) ← record.take old
      return rest.set new field)
    record

/-- The record of the fields under the given keys; missing ones are passed over. -/
def keep (record : Record) (keys : List String) : Record :=
  keys.foldl
    (fun kept key =>
      match record.find? key with
      | some field => kept.set key field
      | none => kept)
    empty

def remove (record : Record) (keys : List String) : Record := keys.foldl erase record

end Featurize.Record
