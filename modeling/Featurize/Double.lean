/-!
Doubles: numbers in the binary format of 64 bits, which are a sign, eleven bits of
exponent and 52 of fraction. Sums, products and their like are rounded to the
nearest double. A value that is not a number keeps its sign wherever it goes, since
the texts that show one show its sign; one that arises from operands that are
numbers, such as the difference of equal infinities, is negative.
-/

namespace Featurize

/-- A double, held as its bits. -/
structure Double where
  bits : UInt64
  deriving DecidableEq, Repr

namespace Double

def isNegative (value : Double) : Bool := 9223372036854775808 ≤ value.bits.toNat

/-- The bits without the sign. Among numbers they grow with the absolute value. -/
def magnitude (value : Double) : Nat := value.bits.toNat % 9223372036854775808

/-- The magnitude of the infinities; values that are not numbers lie above it. -/
def infinityMagnitude : Nat := 9218868437227405312

def isNaN (value : Double) : Bool := infinityMagnitude < value.magnitude

def isInf (value : Double) : Bool := value.magnitude = infinityMagnitude

/-- Where a number stands among the numbers. The zeros of both signs share a place. -/
def place (value : Double) : Int :=
  if value.isNegative then -(value.magnitude : Int) else value.magnitude

/-- Equality as doubles compare: zeros of both signs are equal, and a value that is
not a number is equal to nothing. -/
def equals (left right : Double) : Bool :=
  !left.isNaN && !right.isNaN && left.place == right.place

instance : BEq Double := ⟨equals⟩

def isBelow (left right : Double) : Bool :=
  !left.isNaN && !right.isNaN && decide (left.place < right.place)

instance : LT Double := ⟨fun left right => left.isBelow right = true⟩

instance (left right : Double) : Decidable (left < right) :=
  inferInstanceAs (Decidable (left.isBelow right = true))

def ofFloat (value : Float) : Double := ⟨value.toBits⟩

def toFloat (value : Double) : Float := .ofBits value.bits

instance : OfScientific Double :=
  ⟨fun digits negative exponent => .ofFloat (.ofScientific digits negative exponent)⟩

/-- The value that arises where numbers have no result: negative and not a number. -/
def indefinite : Double := ⟨18444492273895866368⟩

def ofResult (result : Float) : Double := if result.isNaN then indefinite else .ofFloat result

/-- An operation on two numbers. Where the first value is not a number it is the
result itself, and otherwise the second one where that is not. -/
def combine (operation : Float → Float → Float) (first second : Double) : Double :=
  if first.isNaN then first
  else if second.isNaN then second
  else ofResult (operation first.toFloat second.toFloat)

instance : Add Double := ⟨combine (· + ·)⟩

instance : Sub Double := ⟨combine (· - ·)⟩

instance : Div Double := ⟨combine (· / ·)⟩

/-- The product looks at its right factor first, unlike the sum. -/
instance : Mul Double := ⟨fun left right => combine (· * ·) right left⟩

instance : Neg Double := ⟨fun value => ⟨value.bits ^^^ 9223372036854775808⟩⟩

def log (value : Double) : Double :=
  if value.isNaN then value else ofResult value.toFloat.log

end Double

end Featurize
