import Featurize.Double

/-!
Reading decimals: from digits to a number, and from a decimal to a double. The
nearest double is taken, ties to even; decimals that are too large for every
finite double are refused.
-/

namespace Featurize.Decimal

def ofDigits (digits : List Char) : Nat :=
  digits.foldl (fun value digit => 10 * value + (digit.toNat - '0'.toNat)) 0

/-- The double nearest to `count * 10 ^ place`, or nothing where that is infinite.
Decimals far outside the range of doubles are settled by their length alone, so
that no huge power is ever formed. -/
def nearest? (count : Nat) (place : Int) : Option Double :=
  let leading := place + (Nat.repr count).length
  if count = 0 then some 0.0
  else if 400 < leading then none
  else if leading < -400 then some 0.0
  else
    let value : Double := OfScientific.ofScientific count (place < 0) place.natAbs
    if value.isInf then none else some value

def ofInt (value : Int) : Double :=
  let magnitude : Double := OfScientific.ofScientific value.natAbs false 0
  if value < 0 then -magnitude else magnitude

end Featurize.Decimal
