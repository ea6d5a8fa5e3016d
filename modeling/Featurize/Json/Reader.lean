import Featurize.Decimal.Reader
import Featurize.Json.Basic
import Featurize.Word

/-!
JSON texts. The reader takes the first complete value of a text and leaves the
rest aside; a byte order mark may stand in front. Anything outside the grammar
is malformed: lone surrogates, raw control characters, comments, loose commas.
A number with a point or an exponent that no finite double can hold is refused
on its own account, where it is met.
-/

namespace Featurize

/-- Why a text gave no JSON value. -/
inductive TextFault where
  | malformed
  | numberTooLarge
  deriving Repr, DecidableEq

namespace Json.Reader

def isSpace (character : Char) : Bool :=
  character == ' ' || character == '\t' || character == '\n' || character == '\r'

def skipSpace (text : List Char) : List Char := text.dropWhile isSpace

def hexDigit? (character : Char) : Option Nat :=
  if '0' ≤ character ∧ character ≤ '9' then some (character.toNat - '0'.toNat)
  else if 'a' ≤ character ∧ character ≤ 'f' then some (character.toNat - 'a'.toNat + 10)
  else if 'A' ≤ character ∧ character ≤ 'F' then some (character.toNat - 'A'.toNat + 10)
  else none

def hexUnit? (first second third fourth : Char) : Option Nat := do
  let digits ← [first, second, third, fourth].mapM hexDigit?
  return digits.foldl (fun unit digit => 16 * unit + digit) 0

def escaped? : Char → Option Char
  | '"' => some '"'
  | '\\' => some '\\'
  | '/' => some '/'
  | 'b' => some '\x08'
  | 'f' => some '\x0c'
  | 'n' => some '\n'
  | 'r' => some '\r'
  | 't' => some '\t'
  | _ => none

/-- Reads a string behind its opening quote. `read` holds its characters so far in
reverse; `high` is the first half of a surrogate pair whose second half must follow. -/
def string (high : Option Nat) : List Char → List Char → Except TextFault (String × List Char)
  | read, '\\' :: 'u' :: first :: second :: third :: fourth :: rest =>
      match hexUnit? first second third fourth, high with
      | none, _ => .error .malformed
      | some unit, some upper =>
          if 0xDC00 ≤ unit ∧ unit < 0xE000 then
            string none
              (Char.ofNat (0x10000 + (upper - 0xD800) * 0x400 + (unit - 0xDC00)) :: read) rest
          else .error .malformed
      | some unit, none =>
          if 0xD800 ≤ unit ∧ unit < 0xDC00 then string (some unit) read rest
          else if 0xDC00 ≤ unit ∧ unit < 0xE000 then .error .malformed
          else string none (Char.ofNat unit :: read) rest
  | read, '\\' :: letter :: rest =>
      match escaped? letter, high with
      | some character, none => string none (character :: read) rest
      | _, _ => .error .malformed
  | read, '"' :: rest =>
      if high.isNone then .ok (String.ofList read.reverse, rest) else .error .malformed
  | read, character :: rest =>
      if high.isNone ∧ ' ' ≤ character ∧ character ≠ '\\' then
        string none (character :: read) rest
      else .error .malformed
  | _, [] => .error .malformed

/-- The digits of a whole part: a single zero, or digits that do not start with one. -/
def wholeDigits : List Char → Except TextFault (List Char × List Char)
  | '0' :: rest => .ok (['0'], rest)
  | text =>
      let digits := text.takeWhile Char.isDigit
      if digits.isEmpty then .error .malformed else .ok (digits, text.dropWhile Char.isDigit)

def someDigits (text : List Char) : Except TextFault (List Char × List Char) :=
  let digits := text.takeWhile Char.isDigit
  if digits.isEmpty then .error .malformed else .ok (digits, text.dropWhile Char.isDigit)

def fractionDigits : List Char → Except TextFault (Option (List Char) × List Char)
  | '.' :: rest => do
      let (digits, rest) ← someDigits rest
      return (some digits, rest)
  | text => .ok (none, text)

def exponentValue : List Char → Except TextFault (Option Int × List Char)
  | mark :: rest =>
      if mark = 'e' ∨ mark = 'E' then do
        let (negative, rest) :=
          match rest with
          | '-' :: rest => (true, rest)
          | '+' :: rest => (false, rest)
          | rest => (false, rest)
        let (digits, rest) ← someDigits rest
        let value : Int := Decimal.ofDigits digits
        return (some (if negative then -value else value), rest)
      else .ok (none, mark :: rest)
  | [] => .ok (none, [])

def ofDecimal (negative : Bool) (count : Nat) (place : Int) : Except TextFault Json :=
  match Decimal.nearest? count place with
  | some value => .ok (.double (if negative then -value else value))
  | none => .error .numberTooLarge

def fitsInteger (negative : Bool) (count : Nat) : Bool :=
  if negative then count ≤ Word.signedLimit.toNat else count < Word.modulus

/-- Reads a number behind its sign. Whole numbers that fit 64 bits are integers. -/
def number (negative : Bool) (text : List Char) : Except TextFault (Json × List Char) := do
  let (whole, rest) ← wholeDigits text
  let (fraction, rest) ← fractionDigits rest
  let (exponent, rest) ← exponentValue rest
  let digits := fraction.getD []
  let count := Decimal.ofDigits (whole ++ digits)
  if fraction.isNone ∧ exponent.isNone ∧ fitsInteger negative count then
    return (.int (if negative then -(count : Int) else count), rest)
  else
    return (← ofDecimal negative count (exponent.getD 0 - digits.length), rest)

mutual

/-- Reads one value. The fuel bounds the depth and length of what is read: every two
steps take a character, so twice the number of characters is always enough. -/
def value : Nat → List Char → Except TextFault (Json × List Char)
  | 0, _ => .error .malformed
  | fuel + 1, text =>
      match skipSpace text with
      | 'n' :: 'u' :: 'l' :: 'l' :: rest => .ok (.null, rest)
      | 't' :: 'r' :: 'u' :: 'e' :: rest => .ok (.bool true, rest)
      | 'f' :: 'a' :: 'l' :: 's' :: 'e' :: rest => .ok (.bool false, rest)
      | '"' :: rest => do
          let (read, rest) ← string none [] rest
          return (.str read, rest)
      | '[' :: rest =>
          match skipSpace rest with
          | ']' :: rest => .ok (.arr [], rest)
          | rest => items fuel [] rest
      | '\x7b' :: rest =>
          match skipSpace rest with
          | '\x7d' :: rest => .ok (.obj [], rest)
          | rest => members fuel [] rest
      | '-' :: rest => number true rest
      | rest => number false rest

/-- Reads the items of an array up to its closing bracket; `read` holds them in reverse. -/
def items : Nat → List Json → List Char → Except TextFault (Json × List Char)
  | 0, _, _ => .error .malformed
  | fuel + 1, read, text => do
      let (item, rest) ← value fuel text
      match skipSpace rest with
      | ',' :: rest => items fuel (item :: read) rest
      | ']' :: rest => return (.arr (item :: read).reverse, rest)
      | _ => throw .malformed

def members : Nat → List (String × Json) → List Char → Except TextFault (Json × List Char)
  | 0, _, _ => .error .malformed
  | fuel + 1, read, text =>
      match skipSpace text with
      | '"' :: rest => do
          let (name, rest) ← string none [] rest
          match skipSpace rest with
          | ':' :: rest =>
              let (member, rest) ← value fuel rest
              match skipSpace rest with
              | ',' :: rest => members fuel ((name, member) :: read) rest
              | '\x7d' :: rest => return (Json.object ((name, member) :: read).reverse, rest)
              | _ => throw .malformed
          | _ => throw .malformed
      | _ => .error .malformed

end

end Json.Reader

def Json.ofChars (text : List Char) : Except TextFault Json := do
  let text :=
    match text with
    | '\ufeff' :: rest => rest
    | text => text
  let (json, _) ← Reader.value (2 * (text.length + 1)) text
  return json

def Json.parse (text : String) : Except TextFault Json := Json.ofChars text.toList

end Featurize
