import Featurize.Decimal.Reader
import Featurize.Word

/-!
Integer keys. A key is read like the start of a line of numbers: white space,
one sign and decimal digits are taken, and whatever follows the digits is left
aside. A key without digits, or outside the 64-bit range, is refused.
-/

namespace Featurize.IntegerKey

def isBlank (character : Char) : Bool :=
  character == ' ' || ('\t' ≤ character && character ≤ '\r')

/-- The signed number that digits stand for, when there are digits and it fits. -/
def ofSigned? (negative : Bool) (text : List Char) : Option Int64 :=
  let digits := text.takeWhile Char.isDigit
  let value : Int := if negative then -(Decimal.ofDigits digits : Int) else Decimal.ofDigits digits
  if digits.isEmpty then none
  else if -Word.signedLimit ≤ value ∧ value < Word.signedLimit then some (Int64.ofInt value)
  else none

def ofChars? (text : List Char) : Option Int64 :=
  match text.dropWhile isBlank with
  | '-' :: rest => ofSigned? true rest
  | '+' :: rest => ofSigned? false rest
  | rest => ofSigned? false rest

def parse? (key : String) : Option Int64 := ofChars? key.toList

end Featurize.IntegerKey
