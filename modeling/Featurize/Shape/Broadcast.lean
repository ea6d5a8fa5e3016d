import Featurize.Fault

/-!
Broadcasting of shapes. Shapes are aligned at their last axis; a missing or
unit axis stretches to any size. The common shape of a list is built by merging
one shape at a time into an accumulator of unit axes, and the first size that
disagrees with a size other than one is refused.
-/

namespace Featurize.Shape

/-- Merges the axes of a padded shape into those found so far, from axis number
`start` on. The fault names the shape as it was given. -/
def mergeAxes (given : Shape) : Nat → Shape → Shape → Except ShapeFault Shape
  | start, size :: sizes, found :: rest =>
      if size = found ∨ size = 1 then do
        let merged ← mergeAxes given (start + 1) sizes rest
        return found :: merged
      else if found ≠ 1 then .error (.notBroadcastable given start)
      else do
        let merged ← mergeAxes given (start + 1) sizes rest
        return size :: merged
  | _, _, _ => .ok []

def maxRank (shapes : List Shape) : Nat :=
  shapes.foldl (fun rank shape => max rank shape.length) 0

/-- The smallest shape to which all the given ones stretch. -/
def common (shapes : List Shape) : Except ShapeFault Shape :=
  let rank := maxRank shapes
  shapes.foldlM (fun found shape => mergeAxes shape 0 (shape.leftPad rank) found)
    (List.replicate rank 1)

/-- Strides for reading a shape as another one of the same rank: an axis that is
stretched does not move in storage. -/
def stretch? : Shape → Shape → Option (List Nat)
  | [], [] => some []
  | size :: sizes, wanted :: rest => do
      let strides ← stretch? sizes rest
      if size = wanted then some (elementCount sizes :: strides)
      else if size = 1 then some (0 :: strides)
      else none
  | _, _ => none

end Featurize.Shape
