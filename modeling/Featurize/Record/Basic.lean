import Featurize.Field.Equality

/-!
Records: fields under their names, one record for each batch. Reading a name
that is not there is a fault that names it; reading a field in a representation
it does not have is a fault that names both. Names are kept in byte order.
-/

namespace Featurize

/-- Fields by name. -/
structure Record where
  fields : NameMap Field

namespace Record

def empty : Record := ⟨∅⟩

def find? (record : Record) (key : String) : Option Field := record.fields[key]?

def has (record : Record) (key : String) : Bool := record.fields.contains key

def set (record : Record) (key : String) (field : Field) : Record :=
  ⟨record.fields.insert key field⟩

def erase (record : Record) (key : String) : Record := ⟨record.fields.erase key⟩

/-- The record built from fields in order; the first one under a name stays. -/
def ofFields (fields : List (String × Field)) : Record :=
  ⟨fields.foldl (fun found (key, field) => found.insertIfNew key field) ∅⟩

def keys (record : Record) : List String := record.fields.keys

def toList (record : Record) : List (String × Field) := record.fields.toList

def size (record : Record) : Nat := record.fields.size

def isEmpty (record : Record) : Bool := record.fields.isEmpty

def get (record : Record) (key : String) : Except Fault Field :=
  match record.find? key with
  | some field => .ok field
  | none => .error (.missingField key)

def replace (record : Record) (key : String) (field : Field) : Except Fault Record := do
  let _ ← record.get key
  return record.set key field

def take (record : Record) (key : String) : Except Fault (Field × Record) := do
  return (← record.get key, record.erase key)

def expect (record : Record) (key : String) (kind : FieldKind) : Except Fault Field := do
  let field ← record.get key
  if field.kind = kind then return field
  else throw (.field (.unexpectedKind key [kind] field.kind))

def tensor (record : Record) (key : String) : Except Fault Tensor := do
  (← record.get key).asTensor key

def pair (record : Record) (key : String) : Except Fault ValuePresence := do
  (← record.get key).asPair key

def sequences (record : Record) (key : String) : Except Fault (IdMap SequenceFeature) := do
  (← record.get key).asSequences key

/-- Replaces the field under each key in turn by what `change` makes of it. -/
def replaceEach (record : Record) (keys : List String)
    (change : String → Field → Except Fault Field) : Except Fault Record :=
  keys.foldlM
    (fun record key => do
      let field ← record.get key
      return record.set key (← change key field))
    record

def sameNumbers (left right : Record) : Bool :=
  sameMembers Field.sameNumbers left.toList right.toList

theorem ext_find? {left right : Record} (same : ∀ key, left.find? key = right.find? key) :
    left = right := by
  cases left
  cases right
  exact congrArg Record.mk (Std.ExtTreeMap.ext_getElem? same)

theorem find?_set (record : Record) (key other : String) (field : Field) :
    (record.set key field).find? other =
      if key = other then some field else record.find? other := by
  unfold find? set
  rw [Std.ExtTreeMap.getElem?_insert]
  by_cases same : key = other
  · rw [if_pos (Std.compare_eq_iff_eq.mpr same), if_pos same]
  · rw [if_neg (fun equal => same (Std.compare_eq_iff_eq.mp equal)), if_neg same]

theorem find?_erase (record : Record) (key other : String) :
    (record.erase key).find? other = if key = other then none else record.find? other := by
  unfold find? erase
  rw [Std.ExtTreeMap.getElem?_erase]
  by_cases same : key = other
  · rw [if_pos (Std.compare_eq_iff_eq.mpr same), if_pos same]
  · rw [if_neg (fun equal => same (Std.compare_eq_iff_eq.mp equal)), if_neg same]

theorem find?_empty (key : String) : empty.find? key = none := by
  unfold find? empty
  exact Std.ExtTreeMap.getElem?_empty

theorem has_iff (record : Record) (key : String) :
    record.has key = true ↔ ∃ field, record.find? key = some field := by
  unfold has find?
  rw [Std.ExtTreeMap.contains_eq_isSome_getElem?, Option.isSome_iff_exists]

end Record

end Featurize
