import Featurize.Word

/-!
Shapes and multi-indices. A shape lists the sizes of a tensor's axes, the
batch axis first; its elements are stored in row-major order, the last axis
varying fastest. The exact number of positions is `volume`; what the storage
holds is that number as a machine word, `elementCount`. The two differ only
for shapes whose volume exceeds every word.
-/

namespace Featurize

/-- The sizes of a tensor's axes, outermost first. -/
abbrev Shape := List Nat

namespace Shape

/-- How many positions a shape has, as a natural number. -/
def volume : Shape → Nat
  | [] => 1
  | size :: sizes => size * volume sizes

/-- How many elements are stored for a shape: its volume as a machine word. -/
def elementCount (shape : Shape) : Nat := Word.wrap shape.volume

theorem elementCount_of_lt {shape : Shape} (small : shape.volume < Word.modulus) :
    shape.elementCount = shape.volume :=
  Word.wrap_of_lt small

def render (shape : Shape) : String :=
  "(" ++ ", ".intercalate (shape.map Nat.repr) ++ ")"

/-- For each axis, the distance between neighbours along it in storage. -/
def strides : Shape → List Nat
  | [] => []
  | _ :: sizes => elementCount sizes :: strides sizes

def leftPad (shape : Shape) (rank : Nat) : Shape :=
  List.replicate (rank - shape.length) 1 ++ shape

theorem length_leftPad {shape : Shape} {rank : Nat} (fits : shape.length ≤ rank) :
    (shape.leftPad rank).length = rank := by
  simp only [leftPad, List.length_append, List.length_replicate]
  omega

def dot : List Nat → List Nat → Nat
  | position :: positions, stride :: strides => position * stride + dot positions strides
  | _, _ => 0

def origin (shape : Shape) : List Nat := List.replicate shape.length 0

/-- One step of the row-major walk, with a mark that says whether it carried out
of the first axis. The last coordinate moves first; one that reaches the size of
its axis goes back to zero and moves its left neighbour. -/
def advance : Shape → List Nat → List Nat × Bool
  | size :: sizes, position :: positions =>
      match advance sizes positions with
      | (moved, true) =>
          if position + 1 < size then ((position + 1) :: moved, false) else (0 :: moved, true)
      | (moved, false) => (position :: moved, false)
  | _, _ => ([], true)

/-- The multi-index after `index` in row-major order; the last one is followed
by the first. -/
def next (shape : Shape) (index : List Nat) : List Nat := (shape.advance index).1

end Shape

end Featurize
