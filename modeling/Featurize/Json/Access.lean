import Featurize.Decimal.Reader
import Featurize.Fault
import Featurize.Json.Basic
import Featurize.Json.IntegerKey

/-!
Typed reading of JSON values. A value of another form than the one asked for is
malformed. Numbers convert freely: integers wrap to the width that is read,
doubles drop their fraction, and integers become the nearest double.
-/

namespace Featurize

/-- Why a JSON value could not be read. -/
inductive ReadFault where
  | malformed
  | keyNotAnInteger
  | shape (cause : ShapeFault)

instance : MonadLift (Except ShapeFault) (Except ReadFault) where
  monadLift outcome := outcome.mapError ReadFault.shape

def ReadFault.unnamed : ReadFault → Fault
  | .shape cause => .shape cause
  | _ => .json

instance : MonadLift (Except ReadFault) (Except Fault) where
  monadLift outcome := outcome.mapError ReadFault.unnamed

namespace Json

/-- The member of an object under a name; other values have no members. -/
def member? (json : Json) (name : String) : Option Json :=
  match json with
  | .obj members => members.lookup name
  | _ => none

def contains (json : Json) (name : String) : Bool := (json.member? name).isSome

def require (json : Json) (name : String) : Except ReadFault Json :=
  match json.member? name with
  | some value => .ok value
  | none => .error .malformed

def isObject : Json → Bool
  | .obj _ => true
  | _ => false

def isString : Json → Bool
  | .str _ => true
  | _ => false

def isBool : Json → Bool
  | .bool _ => true
  | _ => false

def isInteger : Json → Bool
  | .int _ => true
  | _ => false

def isNumber : Json → Bool
  | .int _ => true
  | .double _ => true
  | _ => false

def asBool : Json → Except ReadFault Bool
  | .bool value => .ok value
  | _ => .error .malformed

def asString : Json → Except ReadFault String
  | .str value => .ok value
  | _ => .error .malformed

/-- A double; integers become the nearest one. -/
def asDouble : Json → Except ReadFault Double
  | .int value => .ok (Decimal.ofInt value)
  | .double value => .ok value
  | _ => .error .malformed

/-- The integer that a double reaches without its fraction, or `low` where it lies
outside the range from `low` up to `high`. -/
def truncated (low high : Int) (value : Double) : Int :=
  match Decimal.truncate? value with
  | some whole => if low ≤ whole ∧ whole < high then whole else low
  | none => low

/-- A signed 64-bit integer; a double beyond that range reads as the lowest one. -/
def asId : Json → Except ReadFault Int64
  | .int value => .ok (Int64.ofInt value)
  | .double value => .ok (Int64.ofInt (truncated (-Word.signedLimit) Word.signedLimit value))
  | _ => .error .malformed

/-- A size: a 64-bit word. A double below the signed range reads as the middle word,
one above every word as zero. -/
def asSize : Json → Except ReadFault Nat
  | .int value => .ok (Word.ofInt value)
  | .double value =>
      if Word.modulus ≤ (Decimal.truncate? value).getD 0 then .ok 0
      else .ok (Word.ofInt (truncated (-Word.signedLimit) Word.modulus value))
  | _ => .error .malformed

/-- An axis number: a signed 32-bit integer. -/
def asAxis : Json → Except ReadFault Int
  | .int value => .ok (Word.signed32 value)
  | .double value => .ok (truncated (-Word.signedLimit32) Word.signedLimit32 value)
  | _ => .error .malformed

def asList {Item : Type} (read : Json → Except ReadFault Item) :
    Json → Except ReadFault (List Item)
  | .arr items => items.mapM read
  | _ => .error .malformed

def asStrings : Json → Except ReadFault (List String) := asList asString

def asIds : Json → Except ReadFault (List Int64) := asList asId

def asSizes : Json → Except ReadFault (List Nat) := asList asSize

def asDoubles : Json → Except ReadFault (List Double) := asList asDouble

def optional {Value : Type} (json : Json) (name : String)
    (read : Json → Except ReadFault Value) : Except ReadFault (Option Value) :=
  match json.member? name with
  | some value => some <$> read value
  | none => .ok none

/-- Reads a member of an object, or gives a default where it is missing. Only objects
have defaults. -/
def withDefault {Value : Type} (json : Json) (name : String) (default : Value)
    (read : Json → Except ReadFault Value) : Except ReadFault Value :=
  if json.isObject then return (← json.optional name read).getD default
  else .error .malformed

/-- What a walk over the parts of a value meets, each part with its name. Items of
arrays have no name; a plain value is its own only part, and null has none. -/
def parts : Json → List (Option String × Json)
  | .obj members => members.map (fun (name, value) => (some name, value))
  | .arr items => items.map (fun item => (none, item))
  | .null => []
  | value => [(none, value)]

def partName : Option String → Except ReadFault String
  | some name => .ok name
  | none => .error .malformed

def partId (name : Option String) : Except ReadFault Int64 := do
  match IntegerKey.parse? (← partName name) with
  | some id => return id
  | none => throw .keyNotAnInteger

/-- Reads the parts of a value into a map by id; each part is read before its name,
and the last part with an id stays. -/
def asIdMap {Entry : Type} (read : Json → Except ReadFault Entry) (json : Json) :
    Except ReadFault (IdMap Entry) :=
  json.parts.foldlM
    (fun found (name, value) => do
      let entry ← read value
      let id ← partId name
      return found.insert id entry)
    ∅

def asNameMap {Entry : Type} (read : Json → Except ReadFault Entry) (json : Json) :
    Except ReadFault (NameMap Entry) :=
  json.parts.foldlM
    (fun found (name, value) => do
      let entry ← read value
      let name ← partName name
      return found.insert name entry)
    ∅

end Json

end Featurize
