/-!
Texts as they are shown to the outside. What the program makes of names and numbers is
Unicode text; what a function of a caller says of itself may be any bytes. A text ends before
its first NUL where it is shown, and only one that is UTF-8 can stand in a log line.
-/

namespace Featurize

/-- Characters, or bytes that encode none. -/
inductive Text where
  | utf8 (text : String)
  | bytes (raw : ByteArray) (illFormed : ¬ raw.IsValidUTF8)

instance : Coe String Text := ⟨.utf8⟩

def upToNul (text : String) : String := String.ofList (text.toList.takeWhile (· != '\x00'))

namespace Text

def ofBytes (raw : ByteArray) : Text :=
  if wellFormed : raw.IsValidUTF8 then .utf8 (String.fromUTF8 raw wellFormed)
  else .bytes raw wellFormed

def toBytes : Text → ByteArray
  | .utf8 text => text.toUTF8
  | .bytes raw _ => raw

/-- The characters of a text that has some. -/
def utf8? : Text → Option String
  | .utf8 text => some text
  | .bytes _ _ => none

instance : Append Text where
  append
    | .utf8 first, .utf8 later => .utf8 (first ++ later)
    | first, later => ofBytes (first.toBytes ++ later.toBytes)

def upToNul : Text → Text
  | .utf8 text => .utf8 (Featurize.upToNul text)
  | .bytes raw _ => ofBytes (raw.toList.takeWhile (· != 0)).toByteArray

def leadingFrom (raw : ByteArray) (start : Nat) (read : String) : String :=
  match _decoded : raw.utf8DecodeChar? start with
  | none => read
  | some character => leadingFrom raw (start + character.utf8Size) (read.push character)
termination_by raw.size - start
decreasing_by
  have within := ByteArray.le_size_of_utf8DecodeChar?_eq_some _decoded
  have positive := character.utf8Size_pos
  omega

/-- The characters in front of the first byte that belongs to none. -/
def leading (raw : ByteArray) : String := leadingFrom raw 0 ""

end Text

end Featurize
