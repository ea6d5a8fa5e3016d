import Featurize.Record.Basic
import Featurize.Tensor.Columns
import Featurize.Tensor.Product

/-!
Operations on values with a presence mask: pairing a field with the mask that
lies beside it, multiplying values by their mask, and selecting columns of both.
A mask of another shape than its values is refused.
-/

namespace Featurize

def presenceKey (key : String) : String := key ++ "_presence"

namespace Record

/-- Pairs the field under one key with its mask, if both are dense; the mask's own
field disappears. -/
def pairPresenceAt (record : Record) (key : String) : Record :=
  match (record.find? key).bind Field.dense?,
      (record.find? (presenceKey key)).bind Field.dense? with
  | some value, some presence =>
      (record.erase (presenceKey key)).set key (.valuePresence { value, presence })
  | _, _ => record

/-- Pairs every dense field with its dense mask. The keys are those of the record at
the start, in order; a mask that was used up is not paired again. -/
def pairPresence (record : Record) : Record := record.keys.foldl pairPresenceAt record

def maskByPresence (record : Record) (keys : List String) : Except Fault Record :=
  record.replaceEach keys fun key field => do
    let pair ← field.asPair key
    pair.checkAligned key
    return .tensor (← pair.value.multiply pair.presence)

def selectColumns (record : Record) (source destination : String) (columns : List Nat) :
    Except Fault Record := do
  let pair ← record.pair source
  pair.checkAligned source
  if pair.value.rank ≠ 2 then throw (.shape (.selectedRank source pair.value.shape))
  let value ← pair.value.selectColumns columns
  let presence ← pair.presence.selectColumns columns
  return record.set destination (.valuePresence { value, presence })

end Record

end Featurize
