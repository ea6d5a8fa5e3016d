import Featurize.Tensor.Replicate

/-!
Products: element by element, and of every pair of columns with the leading
axes broadcast. The identity matrix stands beside them.
-/

namespace Featurize.Tensor

def multiply (left right : Tensor) : Except ShapeFault Tensor :=
  if left.shape = right.shape then
    .ok (tabulate left.shape (fun position => left.get position * right.get position))
  else .error (.multipliedShapes left.shape right.shape)

/-- For every row the products of each left column with each right column, the right
one varying fastest. -/
def outerProduct (left right : Tensor) : Except ShapeFault Tensor := do
  if left.rank = 0 ∨ right.rank = 0 then throw .noOuterAxis
  let lead ← Shape.common [left.shape.dropLast, right.shape.dropLast]
  let leftWidth := left.shape.getLastD 0
  let rightWidth := right.shape.getLastD 0
  let stretchedLeft ← left.expand (lead ++ [leftWidth])
  let stretchedRight ← right.expand (lead ++ [rightWidth])
  let pairs := leftWidth * rightWidth
  return tabulate (lead ++ [pairs]) fun position =>
    stretchedLeft.get (position / pairs * leftWidth + position % pairs / rightWidth) *
      stretchedRight.get (position / pairs * rightWidth + position % rightWidth)

def identity (size : Nat) : Tensor :=
  tabulate [size, size] (fun position => if position / size = position % size then 1.0 else 0.0)

end Featurize.Tensor
