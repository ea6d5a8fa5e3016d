import Featurize.Double
import Featurize.OrderedMap

/-!
JSON values. Numbers written as integers and numbers written with a point or an
exponent stay apart. The members of an object stand in the order of their names,
each name once.
-/

namespace Featurize

/-- A JSON value. -/
inductive Json where
  | null
  | bool (value : Bool)
  | int (value : Int)
  | double (value : Double)
  | str (value : String)
  | arr (items : List Json)
  | obj (members : List (String × Json))

namespace Json

/-- The object with the given members; of members with one name the last stays. -/
def object (members : List (String × Json)) : Json :=
  .obj (Std.ExtTreeMap.ofList members compare : NameMap Json).toList

def ofNames {Entry : Type} (write : Entry → Json) (entries : NameMap Entry) : Json :=
  .obj (entries.toList.map (fun (name, entry) => (name, write entry)))

def ofIds {Entry : Type} (write : Entry → Json) (entries : IdMap Entry) : Json :=
  object (entries.toList.map (fun (id, entry) => (toString id.toInt, write entry)))

def ofNat (value : Nat) : Json := .int value

def ofId (id : Int64) : Json := .int id.toInt

def ofStrings (values : List String) : Json := .arr (values.map .str)

def ofIdList (ids : List Int64) : Json := .arr (ids.map ofId)

def ofNats (values : List Nat) : Json := .arr (values.map ofNat)

def ofDoubles (values : List Double) : Json := .arr (values.map .double)

end Json

end Featurize
