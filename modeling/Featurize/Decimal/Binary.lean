import Featurize.Double

/-!
What a double is: a sign, a whole significand and a power of two, or one of
the values that are not numbers of that form. All decimal texts and all
conversions to integers are computed from this reading in exact arithmetic.
-/

namespace Featurize.Decimal

/-- The value of a double. A finite one is `significand * 2 ^ exponent`, negated
when the sign says so; zero keeps its sign, and so does what is not a number. -/
inductive Binary where
  | notANumber (negative : Bool)
  | infinite (negative : Bool)
  | finite (negative : Bool) (significand : Nat) (exponent : Int)
  deriving Repr, DecidableEq

/-- The leading one of a full significand: two to the fifty-second. -/
def hiddenBit : Nat := 4503599627370496

/-- Reads the 64 bits of a double: one sign bit, eleven exponent bits and 52
bits of fraction, with the leading one implied unless the exponent bits are zero. -/
def Binary.ofBits (bits : Nat) : Binary :=
  let negative := bits / 9223372036854775808 == 1
  let biased : Nat := bits / hiddenBit % 2048
  let fraction : Nat := bits % hiddenBit
  if biased = 2047 then
    if fraction = 0 then .infinite negative else .notANumber negative
  else if biased = 0 then .finite negative fraction (-1074)
  else .finite negative (hiddenBit + fraction) ((biased : Int) - 1075)

def Binary.ofDouble (value : Double) : Binary := .ofBits value.bits.toNat

/-- A non-negative rational number written as a fraction of natural numbers. -/
structure Ratio where
  numerator : Nat
  denominator : Nat
  deriving Repr, DecidableEq

def Ratio.scaled (significand : Nat) (exponent : Int) : Ratio :=
  { numerator := significand * Nat.pow 2 exponent.toNat
    denominator := Nat.pow 2 (-exponent).toNat }

def Ratio.shift (ratio : Ratio) (places : Int) : Ratio :=
  { numerator := ratio.numerator * Nat.pow 10 places.toNat
    denominator := ratio.denominator * Nat.pow 10 (-places).toNat }

def Ratio.floor (ratio : Ratio) : Nat := ratio.numerator / ratio.denominator

/-- The nearest natural number; a tie goes to the even neighbour. -/
def Ratio.round (ratio : Ratio) : Nat :=
  let below := ratio.numerator / ratio.denominator
  let excess := 2 * (ratio.numerator % ratio.denominator)
  if excess < ratio.denominator then below
  else if excess = ratio.denominator ∧ below % 2 = 0 then below
  else below + 1

/-- The whole number that the double nearest to a count holds. Counts below two to the
fifty-third are doubles themselves; larger ones keep their first 53 bits, rounded. -/
def nearestWhole (count : Nat) : Nat :=
  if count < 9007199254740992 then count
  else
    let unit := Nat.pow 2 (Nat.log2 count - 52)
    unit * Ratio.round { numerator := count, denominator := unit }

theorem nearestWhole_of_lt {count : Nat} (small : count < 9007199254740992) :
    nearestWhole count = count :=
  if_pos small

/-- The integer that a double reaches when its fractional digits are dropped. -/
def truncate? (value : Double) : Option Int :=
  match Binary.ofDouble value with
  | .finite negative significand exponent =>
      let whole : Int := (Ratio.scaled significand exponent).floor
      some (if negative then -whole else whole)
  | _ => none

def whole? (value : Double) : Option Int :=
  match Binary.ofDouble value with
  | .finite negative significand exponent =>
      let ratio := Ratio.scaled significand exponent
      if ratio.numerator % ratio.denominator = 0 then
        let whole : Int := ratio.floor
        some (if negative then -whole else whole)
      else none
  | _ => none

end Featurize.Decimal
