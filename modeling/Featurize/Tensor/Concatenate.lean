import Featurize.Shape.Axis
import Featurize.Tensor.Replicate

/-!
Joining tensors along an axis. All tensors need one rank and equal sizes on the
other axes; `broadcastForConcatenation` stretches them first, leaving the joined
axis of every tensor as it is. Elements are moved in whole blocks, so that a block
stays together also where the product of its sizes exceeds every word.
-/

namespace Featurize.Tensor

def sizeAt (tensor : Tensor) (axis : Nat) : Nat := tensor.shape.getD axis 0

def checkBeside (first : Shape) (axis : Nat) (tensor : Tensor) : Except ShapeFault Unit :=
  if tensor.rank ≠ first.length then .error (.concatenatedRank tensor.shape first)
  else if tensor.shape.eraseIdx axis ≠ first.eraseIdx axis then
    .error (.concatenatedSizes axis tensor.shape first)
  else .ok ()

def totalAt (axis : Nat) : List Tensor → Nat
  | [] => 0
  | tensor :: tensors => tensor.sizeAt axis + totalAt axis tensors

/-- How many elements of a tensor stand side by side in the joined one: those that
share their position on every axis before the joined axis. -/
def blockSize (tensor : Tensor) (axis : Nat) : Nat :=
  Shape.elementCount (tensor.shape.drop axis)

def lineSize (axis : Nat) : List Tensor → Nat
  | [] => 0
  | tensor :: tensors => tensor.blockSize axis + lineSize axis tensors

/-- The tensor whose block holds a position of a line, with the position inside that
block. -/
def blockAt? (axis : Nat) : List Tensor → Nat → Option (Tensor × Nat)
  | [], _ => none
  | tensor :: tensors, position =>
      if position < tensor.blockSize axis then some (tensor, position)
      else blockAt? axis tensors (position - tensor.blockSize axis)

/-- The joined element at a position in storage, where every line has `line` elements.
Each line takes the next block of every tensor, in the order of the tensors. -/
def joinedElement (tensors : List Tensor) (axis line position : Nat) : Double :=
  match blockAt? axis tensors (position % line) with
  | none => 0.0
  | some (tensor, within) => tensor.get (position / line * tensor.blockSize axis + within)

def concatenate (tensors : List Tensor) (number : Int) : Except ShapeFault Tensor := do
  match tensors with
  | [] => throw .nothingToConcatenate
  | first :: _ =>
      let axis ← Shape.axis number first.rank
      tensors.forM (checkBeside first.shape axis)
      let total := Word.wrap (totalAt axis tensors)
      let line := lineSize axis tensors
      return tabulate (first.shape.set axis total) (joinedElement tensors axis line)

/-- Stretches tensors until they can be joined along an axis: the shapes without
that axis are broadcast together, and each tensor keeps its own size along it. -/
def broadcastForConcatenation (tensors : List Tensor) (number : Int) :
    Except ShapeFault (List Tensor) := do
  let axes ← tensors.mapM (fun tensor => Shape.axis number tensor.rank)
  let common ← Shape.common
    (List.zipWith (fun tensor axis => tensor.shape.eraseIdx axis) tensors axes)
  (tensors.zip axes).mapM fun (tensor, axis) => do
    let place ← if 0 ≤ number then pure number.toNat else Shape.gap number common.length
    tensor.expand (common.insertIdx place (tensor.sizeAt axis))

end Featurize.Tensor
