import Featurize.Shape.Broadcast
import Featurize.Tensor.Basic

/-!
Operations that read elements more than once: stretching unit axes to a larger
shape, and tiling along every axis. Both walk the multi-indices of the result
in row-major order and read the source at a position computed from the index.
-/

namespace Featurize.Tensor

/-- Appends the elements read at `count` successive multi-indices of `shape`,
starting with `index`. -/
def readAlong (tensor : Tensor) (shape : Shape) (source : List Nat → Nat) :
    Nat → List Nat → Array Double → Array Double
  | 0, _, read => read
  | count + 1, index, read =>
      readAlong tensor shape source count (shape.next index)
        (read.push (tensor.get (Word.wrap (source index))))

theorem size_readAlong (tensor : Tensor) (shape : Shape) (source : List Nat → Nat)
    (count : Nat) (index : List Nat) (read : Array Double) :
    (tensor.readAlong shape source count index read).size = read.size + count := by
  induction count generalizing index read with
  | zero => rfl
  | succ count ih =>
      rw [readAlong, ih, Array.size_push]
      omega

/-- The tensor of the given shape whose element at each multi-index is read at the
position that `source` gives for it. -/
def gather (tensor : Tensor) (shape : Shape) (source : List Nat → Nat) : Tensor :=
  { shape := shape.words
    data := tensor.readAlong shape.words source shape.words.elementCount shape.words.origin #[]
    sizes_lt := shape.words_lt
    data_size := by rw [size_readAlong]; exact Nat.zero_add _ }

/-- Stretches a tensor to a shape: axes of size one and missing leading axes repeat
their single entry. -/
def expand (tensor : Tensor) (shape : Shape) : Except ShapeFault Tensor :=
  if shape.length < tensor.rank then .error (.notExpandable tensor.shape shape)
  else
    match Shape.stretch? (tensor.shape.leftPad shape.length) shape with
    | none => .error (.notExpandable tensor.shape shape)
    | some strides => .ok (tensor.gather shape (fun index => Shape.dot index strides))

/-- Repeats a tensor along every axis, as often as `counts` says; more counts than
axes add leading axes. -/
def tile (tensor : Tensor) (counts : List Nat) : Except ShapeFault Tensor :=
  if counts.length < tensor.rank then .error (.tooFewRepeats tensor.rank counts.length)
  else
    let sizes := tensor.shape.leftPad counts.length
    let strides := sizes.strides
    .ok (tensor.gather (List.zipWith (· * ·) sizes counts)
      (fun index => Shape.dot (List.zipWith (· % ·) index sizes) strides))

end Featurize.Tensor
