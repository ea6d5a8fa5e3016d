import Featurize.Tensor.Basic

/-!
Columns, the entries of the last axis: selecting them by number, and writing
class numbers as columns of zeros and ones. A column number outside the axis is
refused, and so is an element that is not the number of a class.
-/

namespace Featurize.Tensor

def width (tensor : Tensor) : Nat := tensor.shape.getLastD 0

def selectColumns (tensor : Tensor) (columns : List Nat) : Except ShapeFault Tensor := do
  if tensor.rank = 0 then throw .noColumns
  match columns.find? (fun column => tensor.width ≤ column) with
  | some column => throw (.columnOutOfRange column tensor.shape)
  | none =>
      let lines := if tensor.width = 0 then 0 else tensor.size / tensor.width
      let chosen := columns.toArray
      let data := Array.ofFn fun position : Fin (lines * columns.length) =>
        tensor.get (position / columns.length * tensor.width +
          chosen[position % columns.length]?.getD 0)
      ofData (tensor.shape.dropLast ++ [columns.length]) data

def firstColumns (tensor : Tensor) (count : Nat) : Except ShapeFault Tensor :=
  tensor.selectColumns (List.range count)

/-- The class that an element numbers, when it is a whole number below the double that
is nearest to `classes`. -/
def classNumber (classes : Nat) (element : Double) : Except ShapeFault Nat :=
  match Decimal.whole? element with
  | some number =>
      if 0 ≤ number ∧ number < Decimal.nearestWhole classes then .ok number.toNat
      else .error (.classOutOfRange element classes)
  | none => .error (.classOutOfRange element classes)

/-- A new last axis with one entry for each class: one at the element's class and
zero elsewhere. -/
def oneHot (tensor : Tensor) (classes : Nat) : Except ShapeFault Tensor := do
  let numbers ← tensor.data.toList.mapM (classNumber classes)
  let stored := numbers.toArray
  return tabulate (tensor.shape ++ [classes]) fun position =>
    if stored[position / classes]? = some (position % classes) then 1.0 else 0.0

end Featurize.Tensor
