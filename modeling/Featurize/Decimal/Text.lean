import Featurize.Decimal.Binary

/-!
Decimal texts of doubles: a fixed number of places, a number of significant
digits, and the fewest digits that read back. The first two round the exact
value half to even; the third picks, among the shortest decimals that round to
the double, the nearest one.
-/

namespace Featurize.Decimal

def padded (width number : Nat) : String :=
  let digits := Nat.repr number
  "".pushn '0' (width - digits.length) ++ digits

def sign (negative : Bool) : String := if negative then "-" else ""

def infinity (negative : Bool) : String := sign negative ++ "inf"

def notANumber (negative : Bool) : String := sign negative ++ "nan"

/-- Exactly `places` digits after the point, as in `0.500000`. -/
def fixed (places : Nat) (value : Double) : String :=
  match Binary.ofDouble value with
  | .notANumber negative => notANumber negative
  | .infinite negative => infinity negative
  | .finite negative significand exponent =>
      let scaled := ((Ratio.scaled significand exponent).shift places).round
      let whole := Nat.repr (scaled / Nat.pow 10 places)
      if places = 0 then sign negative ++ whole
      else sign negative ++ whole ++ "." ++ padded places (scaled % Nat.pow 10 places)

def leadingExponent (ratio : Ratio) : Int :=
  if ratio.denominator ≤ ratio.numerator then
    ((Nat.repr ratio.floor).length : Int) - 1
  else
    let length := (Nat.repr (ratio.denominator / ratio.numerator)).length
    if ratio.denominator ≤ ratio.numerator * Nat.pow 10 (length - 1) then -((length : Int) - 1)
    else -(length : Int)

def trimZeros (digits : List Char) : List Char :=
  (digits.reverse.dropWhile (· == '0')).reverse

def fraction (digits : List Char) : String :=
  if digits.isEmpty then "" else "." ++ String.ofList digits

def exponentText (exponent : Int) : String :=
  (if exponent < 0 then "e-" else "e+") ++ padded 2 exponent.natAbs

/-- At most `precision` significant digits without closing zeros. Positional
between a ten-thousandth and the precision, with an exponent outside. -/
def significant (precision : Nat) (value : Double) : String :=
  match Binary.ofDouble value with
  | .notANumber negative => notANumber negative
  | .infinite negative => infinity negative
  | .finite negative 0 _ => sign negative ++ "0"
  | .finite negative significand exponent =>
      let ratio := Ratio.scaled significand exponent
      let guess := leadingExponent ratio
      let rounded := (ratio.shift ((precision : Int) - 1 - guess)).round
      let leading := if rounded = Nat.pow 10 precision then guess + 1 else guess
      let digits :=
        if rounded = Nat.pow 10 precision then (Nat.repr (Nat.pow 10 (precision - 1))).toList
        else (Nat.repr rounded).toList
      if leading < -4 ∨ (precision : Int) ≤ leading then
        sign negative ++ String.ofList (digits.take 1) ++ fraction (trimZeros (digits.drop 1)) ++
          exponentText leading
      else if leading < 0 then
        sign negative ++ "0" ++
          fraction (trimZeros (List.replicate (leading.natAbs - 1) '0' ++ digits))
      else
        sign negative ++ String.ofList (digits.take (leading.toNat + 1)) ++
          fraction (trimZeros (digits.drop (leading.toNat + 1)))

/-- The reals that round to a positive double, in quarters of its last place:
`low * 2 ^ exponent` to `high * 2 ^ exponent`, ends included for even significands. -/
structure Rounding where
  low : Nat
  centre : Nat
  high : Nat
  exponent : Int
  closed : Bool

/-- Half a unit of the last place on each side, and a quarter below a power of two
whose lower neighbour lies closer. -/
def Rounding.of (significand : Nat) (exponent : Int) : Rounding :=
  { low := if significand = hiddenBit ∧ -1074 < exponent then 4 * significand - 1
           else 4 * significand - 2
    centre := 4 * significand
    high := 4 * significand + 2
    exponent := exponent - 2
    closed := significand % 2 = 0 }

def Rounding.contains (rounding : Rounding) (count : Nat) (place : Int) : Bool :=
  let decimal := count * Nat.pow 10 place.toNat * Nat.pow 2 (-rounding.exponent).toNat
  let unit := Nat.pow 2 rounding.exponent.toNat * Nat.pow 10 (-place).toNat
  if rounding.closed then rounding.low * unit ≤ decimal ∧ decimal ≤ rounding.high * unit
  else rounding.low * unit < decimal ∧ decimal < rounding.high * unit

/-- On the grid of multiples of `10 ^ place`: the nearer of the double's two
neighbours that round to it. -/
def Rounding.onGrid? (rounding : Rounding) (place : Int) : Option Nat :=
  let ratio := (Ratio.scaled rounding.centre rounding.exponent).shift (-place)
  let below := ratio.floor
  let nearest := ratio.round
  let other := if nearest = below then below + 1 else below
  if rounding.contains nearest place then some nearest
  else if rounding.contains other place then some other
  else none

/-- Tries one more digit at a time; seventeen always suffice. -/
def fewest (rounding : Rounding) (leading : Int) : Nat → Nat → Nat × Int
  | 0, digits => (rounding.centre, leading - digits)
  | attempts + 1, digits =>
      let place := leading + 1 - (digits : Int)
      match rounding.onGrid? place with
      | some count => (count, place)
      | none => fewest rounding leading attempts (digits + 1)

/-- The shortest decimal `count * 10 ^ place` that reads back as
`significand * 2 ^ exponent`. -/
def shortest (significand : Nat) (exponent : Int) : Nat × Int :=
  fewest (.of significand exponent) (leadingExponent (.scaled significand exponent)) 17 1

/-- The fewest digits that read back, always with a point or an exponent, so that
the text is never that of an integer. Values that are not numbers have no text. -/
def roundTrip? (value : Double) : Option String :=
  match Binary.ofDouble value with
  | .notANumber _ => none
  | .infinite _ => none
  | .finite negative 0 _ => some (sign negative ++ "0.0")
  | .finite negative significand exponent =>
      let (count, place) := shortest significand exponent
      let all := (Nat.repr count).toList
      let digits := trimZeros all
      let leading := place + (all.length : Int) - 1
      some <| sign negative ++
        if leading < -4 ∨ 15 < leading then
          String.ofList (digits.take 1) ++ fraction (digits.drop 1) ++ exponentText leading
        else if leading < 0 then
          "0" ++ fraction (List.replicate (leading.natAbs - 1) '0' ++ digits)
        else
          let whole := digits.take (leading.toNat + 1)
          let rest := digits.drop (leading.toNat + 1)
          String.ofList (whole ++ List.replicate (leading.toNat + 1 - whole.length) '0') ++
            fraction (if rest.isEmpty then ['0'] else rest)

end Featurize.Decimal
