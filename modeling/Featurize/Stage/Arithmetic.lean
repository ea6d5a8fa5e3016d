import Featurize.Record.Basic
import Featurize.Tensor.Concatenate
import Featurize.Tensor.Product
import Featurize.Tensor.Reshape

/-!
Operations that compute new tensors from fields: constants, copies, products,
identity matrices, concatenation, and functions that a caller supplies.
-/

namespace Featurize.Record

def appendConstant (record : Record) (keys : List String) (axis : Int) (value : Double) :
    Except Fault Record :=
  record.replaceEach keys fun key field => do
    let dense ← field.asTensor key
    if dense.rank = 0 then throw (.shape (.constantRank key))
    let slice := Tensor.full (dense.shape.dropLast ++ [1]) value
    return .tensor (← Tensor.concatenate [slice, dense] axis)

def unsqueezeRepeat (record : Record) (keys : List String) (axis : Int) (count : Nat) :
    Except Fault Record :=
  record.replaceEach keys fun key field => do
    let inserted ← (← field.asTensor key).unsqueeze axis
    if count = 1 then return .tensor inserted
    else
      let place ← Shape.axis axis inserted.rank
      return .tensor (← inserted.tile ((List.replicate inserted.rank 1).set place count))

/-- Stores the outer product of two fields, and drops them if asked. The right field
is read first, so its fault is the one that shows when both have one. -/
def outerProduct (record : Record) (left right output : String) (dropInputs : Bool) :
    Except Fault Record := do
  let rightFactor ← record.tensor right
  let leftFactor ← record.tensor left
  let product ← leftFactor.outerProduct rightFactor
  let stored := record.set output (.tensor product)
  return if dropInputs then (stored.erase left).erase right else stored

def identityMatrix (record : Record) (key : String) (size : Nat) : Record :=
  record.set key (.tensor (Tensor.identity size))

def concatenate (record : Record) (inputs : List String) (output : String) (axis : Int)
    (broadcast : Bool) : Except Fault Record := do
  let tensors ← inputs.mapM record.tensor
  let parts ← if broadcast then Tensor.broadcastForConcatenation tensors axis else pure tensors
  return record.set output (.tensor (← Tensor.concatenate parts axis))

def mapTensors (record : Record) (keys : List String)
    (function : Tensor → Except Fault Tensor) : Except Fault Record :=
  record.replaceEach keys fun key field => do
    return .tensor (← function (← field.asTensor key))

end Featurize.Record
