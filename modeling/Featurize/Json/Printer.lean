import Featurize.Decimal.Text
import Featurize.Json.Basic

/-!
Written JSON. Every item and member stands on a line of its own, two blanks
further in than what holds it. Doubles have the fewest digits that read back;
those that are not finite numbers are written as null.
-/

namespace Featurize.Json

def hexDigit (digit : Nat) : Char :=
  if digit < 10 then Char.ofNat ('0'.toNat + digit) else Char.ofNat ('a'.toNat + (digit - 10))

def escape (character : Char) : List Char :=
  match character with
  | '"' => ['\\', '"']
  | '\\' => ['\\', '\\']
  | '\x08' => ['\\', 'b']
  | '\x0c' => ['\\', 'f']
  | '\n' => ['\\', 'n']
  | '\r' => ['\\', 'r']
  | '\t' => ['\\', 't']
  | character =>
      if character < ' ' then
        ['\\', 'u', '0', '0', hexDigit (character.toNat / 16), hexDigit (character.toNat % 16)]
      else [character]

def quote (text : String) : String :=
  "\"" ++ String.ofList (text.toList.flatMap escape) ++ "\""

def newLine (depth : Nat) : String := "\n" ++ "".pushn ' ' (2 * depth)

mutual

/-- The text of a value that stands at a depth. -/
def renderAt (depth : Nat) : Json → String
  | .null => "null"
  | .bool true => "true"
  | .bool false => "false"
  | .int value => toString value
  | .double value => (Decimal.roundTrip? value).getD "null"
  | .str text => quote text
  | .arr [] => "[]"
  | .arr (item :: items) =>
      "[" ++ newLine (depth + 1) ++ renderAt (depth + 1) item ++ renderItems (depth + 1) items ++
        newLine depth ++ "]"
  | .obj [] => "\x7b\x7d"
  | .obj ((name, value) :: members) =>
      "\x7b" ++ newLine (depth + 1) ++ quote name ++ ": " ++ renderAt (depth + 1) value ++
        renderMembers (depth + 1) members ++ newLine depth ++ "\x7d"

def renderItems (depth : Nat) : List Json → String
  | [] => ""
  | item :: items => "," ++ newLine depth ++ renderAt depth item ++ renderItems depth items

def renderMembers (depth : Nat) : List (String × Json) → String
  | [] => ""
  | (name, value) :: members =>
      "," ++ newLine depth ++ quote name ++ ": " ++ renderAt depth value ++
        renderMembers depth members

end

def render (json : Json) : String := json.renderAt 0

end Featurize.Json
