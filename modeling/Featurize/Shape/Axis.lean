import Featurize.Fault

/-!
Axes by number. An axis is counted from the front, or from the back by a
negative number; a number that names no position is refused. The positions
between axes, where a new one can be inserted, are counted the same way and
are one more than the axes.
-/

namespace Featurize.Shape

/-- The position among `positions` that a possibly negative number names. -/
def position? (axis : Int) (positions : Nat) : Option Nat :=
  let counted := if axis < 0 then axis + positions else axis
  if 0 ≤ counted ∧ counted < positions then some counted.toNat else none

theorem position?_lt {axis : Int} {positions found : Nat}
    (named : position? axis positions = some found) : found < positions := by
  unfold position? at named
  by_cases fits : 0 ≤ (if axis < 0 then axis + positions else axis) ∧
      (if axis < 0 then axis + (positions : Int) else axis) < positions
  · simp only [if_pos fits, Option.some.injEq] at named
    omega
  · simp only [if_neg fits, reduceCtorEq] at named

def axis (number : Int) (rank : Nat) : Except ShapeFault Nat :=
  match position? number rank with
  | some found => .ok found
  | none => .error (.axisOutOfRange number rank)

def gap (number : Int) (rank : Nat) : Except ShapeFault Nat :=
  match position? number (rank + 1) with
  | some found => .ok found
  | none => .error (.axisOutOfRange number rank)

/-- The axis that a number names when the rank is any word. A rank beyond the signed
words has no axis. -/
def axisOfWord (number : Int) (rank : Nat) : Except ShapeFault Nat :=
  if (rank : Int) < Word.signedLimit then axis number rank
  else .error (.axisOutOfRange number rank)

def gapOfWord (number : Int) (rank : Nat) : Except ShapeFault Nat :=
  if (rank : Int) + 1 < Word.signedLimit then gap number rank
  else .error (.axisOutOfRange number rank)

end Featurize.Shape
