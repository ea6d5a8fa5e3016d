import Featurize.Shape.Axis
import Featurize.Tensor.Basic

/-!
Operations that keep the elements and their order and change only the shape:
reshaping with at most one inferred size, and inserting an axis of size one.
-/

namespace Featurize.Tensor

/-- Requested sizes, with the inferred one left open. A size of -1 asks for
inference; a second one, and any other negative size, is refused. -/
def requestedSizes : List Int → Bool → Except ShapeFault (List (Option Nat))
  | [], _ => .ok []
  | size :: sizes, inferring =>
      if size = -1 then
        if inferring then .error .secondInferredSize
        else return none :: (← requestedSizes sizes true)
      else if size < 0 then .error (.negativeSize size)
      else return some size.toNat :: (← requestedSizes sizes inferring)

/-- The elements in the same order under the requested sizes. An open size becomes
whatever the other sizes leave of the element count, when they divide it. -/
def reshape (tensor : Tensor) (sizes : List Int) : Except ShapeFault Tensor := do
  let requested ← requestedSizes sizes false
  let known := Shape.elementCount (requested.filterMap id)
  if none ∈ requested ∧ (known = 0 ∨ tensor.size % known ≠ 0) then
    throw (.indivisible tensor.shape known)
  let target := requested.map (fun size => size.getD (tensor.size / known))
  if Shape.elementCount target ≠ tensor.size then
    throw (.reshapedCount tensor.shape target)
  ofData target tensor.data

def unsqueeze (tensor : Tensor) (axis : Int) : Except ShapeFault Tensor := do
  let place ← Shape.gap axis tensor.rank
  ofData (tensor.shape.insertIdx place 1) tensor.data

end Featurize.Tensor
