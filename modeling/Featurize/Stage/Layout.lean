import Featurize.Record.Basic
import Featurize.Tensor.Columns
import Featurize.Tensor.Concatenate
import Featurize.Tensor.Reshape

/-!
Operations that bring fields to the shape that later stages need: columns,
one-hot rows, rows of a fixed width, and slates of equally long rows.
-/

namespace Featurize.Record

/-- The values that a column can be made of: a tensor, the values of a pair, or a
list of numbers. -/
def columnValues (key : String) : Field → Except Fault Tensor
  | .valuePresence pair => .ok pair.value
  | .scalarList values => .ok (Tensor.ofList values)
  | .tensor dense => .ok dense
  | field => .error (.field (.notAColumn key field.kind))

def isColumn : Shape → Bool
  | [_] => true
  | [_, columns] => columns == 1
  | _ => false

def columnVector (record : Record) (keys : List String) : Except Fault Record :=
  record.replaceEach keys fun key field => do
    let value ← columnValues key field
    if ¬ isColumn value.shape then throw (.shape (.columnShape key value.shape))
    return .tensor (← value.reshape [-1, 1])

/-- Writes action numbers as rows of zeros with a single one. The number behind the
last action marks an invalid one, whose row is all zero: it is encoded as one more
class, and the column of that class is dropped. -/
def oneHotActions (record : Record) (keys : List String) (actions : Nat) : Except Fault Record :=
  record.replaceEach keys fun key field => do
    let encoded ← (← field.asTensor key).oneHot (Word.wrap (actions + 1))
    return .tensor (← encoded.firstColumns actions)

/-- Turns fields into matrices of a given width. A matrix of that width stays; the
values of a list of pairs are joined and cut into rows. -/
def stackRows (record : Record) (keys : List String) (size : Nat) : Except Fault Record :=
  record.replaceEach keys fun key field => do
    match field with
    | .tensor dense =>
        if dense.rank = 2 ∧ dense.shape.getD 1 0 = size then return field
        else throw (.shape (.stackedShape key dense.shape))
    | .valuePresenceList [] => return .tensor (Tensor.full [0, size] 0.0)
    | .valuePresenceList pairs =>
        let joined ← Tensor.concatenate (pairs.map ValuePresence.value) 0
        return .tensor (← joined.reshape [-1, Word.signed size])
    | field => throw (.field (.unexpectedKind key [.tensor, .valuePresenceList] field.kind))

def cutSlates (size : Nat) (key : String) (field : Field) : Except Fault Field := do
  let value ← field.asTensor key
  match value.shape with
  | [_, columns] =>
      return .tensor (← value.reshape [-1, Word.signed size, Word.signed columns])
  | shape => throw (.shape (.slateRank key shape))

def slateView (record : Record) (keys : List String) (size : Nat) : Except Fault Record := do
  if size = 0 then throw (.config .noSlateSize)
  record.replaceEach keys (cutSlates size)

end Featurize.Record
