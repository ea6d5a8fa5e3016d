import Featurize.Json.Reader
import Featurize.Proofs.Outcome

/-!
What reading leaves of a text. Every reader takes characters from the front and leaves an end of
the text. It is stopped for the sake of a number only by a number that stands in the text and
that no finite double can hold; whatever else is wrong with a text makes it malformed.
-/

namespace Featurize

namespace Json.Reader

variable {Value Next : Type} {text rest : List Char}

def HoldsTooLarge (text : List Char) : Prop :=
  ∃ numeral negative, numeral <:+ text ∧ number negative numeral = .error .numberTooLarge

theorem HoldsTooLarge.of_suffix (ending : rest <:+ text) (held : HoldsTooLarge rest) :
    HoldsTooLarge text := by
  obtain ⟨numeral, negative, inside, large⟩ := held
  exact ⟨numeral, negative, inside.trans ending, large⟩

/-- What a reader may make of a text: it leaves an end of the text, or it is stopped by a number
that is too large and that stands there, or the text is malformed. -/
def Follows (text : List Char) : Except TextFault (Value × List Char) → Prop
  | .ok (_, rest) => rest <:+ text
  | .error .malformed => True
  | .error .numberTooLarge => HoldsTooLarge text

theorem Follows.of_suffix {outcome : Except TextFault (Value × List Char)}
    (ending : rest <:+ text) (follows : Follows rest outcome) : Follows text outcome := by
  cases outcome with
  | ok read => exact List.IsSuffix.trans follows ending
  | error fault =>
      cases fault with
      | malformed => trivial
      | numberTooLarge => exact HoldsTooLarge.of_suffix ending follows

theorem Follows.bind {first : Except TextFault (Value × List Char)}
    {next : Value × List Char → Except TextFault (Next × List Char)}
    (follows : Follows text first)
    (later : ∀ read rest, first = .ok (read, rest) → Follows rest (next (read, rest))) :
    Follows text (first >>= next) := by
  cases first with
  | ok read => exact (later read.1 read.2 rfl).of_suffix follows
  | error fault =>
      cases fault with
      | malformed => trivial
      | numberTooLarge => exact follows

theorem Follows.suffix {outcome : Except TextFault (Value × List Char)} {read : Value}
    (follows : Follows text outcome) (succeeded : outcome = .ok (read, rest)) : rest <:+ text := by
  rw [succeeded] at follows
  exact follows

theorem skipSpace_suffix (text : List Char) : skipSpace text <:+ text :=
  List.dropWhile_suffix isSpace

theorem suffix_behind (met : List Char) (found : skipSpace text = met ++ rest) : rest <:+ text :=
  (found ▸ List.suffix_append met rest : rest <:+ skipSpace text).trans (skipSpace_suffix text)

/-! ### Strings and numbers -/

theorem follows_string (high : Option Nat) (read text : List Char) :
    Follows text (string high read text) := by
  fun_induction string high read text with
  | case2 read first second third fourth rest unit upper _unit _low ih =>
      exact ih.of_suffix ⟨['\\', 'u', first, second, third, fourth], rfl⟩
  | case4 read first second third fourth rest unit _unit _high ih =>
      exact ih.of_suffix ⟨['\\', 'u', first, second, third, fourth], rfl⟩
  | case6 read first second third fourth rest unit _unit _high _low ih =>
      exact ih.of_suffix ⟨['\\', 'u', first, second, third, fourth], rfl⟩
  | case7 read letter rest _unit character _escaped ih =>
      exact ih.of_suffix ⟨['\\', letter], rfl⟩
  | case9 high read rest _closed => exact List.suffix_cons '"' rest
  | case11 high read character rest _unit _letter _quote _plain ih =>
      exact ih.of_suffix (List.suffix_cons character rest)
  | _ => trivial

theorem follows_someDigits (text : List Char) : Follows text (someDigits text) := by
  unfold someDigits
  dsimp only
  split
  · trivial
  · exact List.dropWhile_suffix Char.isDigit

theorem follows_wholeDigits (text : List Char) : Follows text (wholeDigits text) := by
  unfold wholeDigits
  split
  · exact List.suffix_cons '0' _
  · exact follows_someDigits text

theorem follows_fractionDigits (text : List Char) : Follows text (fractionDigits text) := by
  unfold fractionDigits
  split
  · rename_i rest
    refine Follows.of_suffix (List.suffix_cons '.' rest) ?_
    exact (follows_someDigits rest).bind (fun digits rest _found => List.suffix_refl rest)
  · exact List.suffix_refl text

theorem follows_exponentValue (text : List Char) : Follows text (exponentValue text) := by
  unfold exponentValue
  split
  · rename_i mark rest
    split
    · refine Follows.of_suffix (List.suffix_cons mark rest) ?_
      split
      rename_i negative unsigned met
      have signed : unsigned <:+ rest := by
        split at met
        · cases met
          exact List.suffix_cons '-' unsigned
        · cases met
          exact List.suffix_cons '+' unsigned
        · cases met
          exact List.suffix_refl _
      refine Follows.of_suffix signed ?_
      exact (follows_someDigits unsigned).bind (fun digits rest _found => List.suffix_refl rest)
    · exact List.suffix_refl _
  · exact List.suffix_refl []

theorem follows_number (negative : Bool) (text : List Char) :
    Follows text (number negative text) := by
  cases outcome : number negative text with
  | error fault =>
      cases fault with
      | malformed => trivial
      | numberTooLarge => exact ⟨text, negative, List.suffix_refl text, outcome⟩
  | ok found =>
      unfold number at outcome
      simp only [Outcome.bind_eq_ok_iff] at outcome
      obtain ⟨⟨whole, behindWhole⟩, wholeRead, ⟨fraction, behindFraction⟩, fractionRead,
        ⟨exponent, behindExponent⟩, exponentRead, made⟩ := outcome
      have ending : behindExponent <:+ text :=
        ((follows_exponentValue behindFraction).suffix exponentRead).trans
          (((follows_fractionDigits behindWhole).suffix fractionRead).trans
            ((follows_wholeDigits text).suffix wholeRead))
      dsimp only at made
      split at made
      · cases made
        exact ending
      · obtain ⟨value, _made, same⟩ := Outcome.bind_eq_ok_iff.mp made
        cases same
        exact ending

/-! ### Values -/

variable {fuel : Nat}

private theorem follows_value_succ
    (followsItems : ∀ read text, Follows text (items fuel read text))
    (followsMembers : ∀ read text, Follows text (members fuel read text)) (text : List Char) :
    Follows text (value (fuel + 1) text) := by
  unfold value
  split
  · rename_i met
    exact suffix_behind ['n', 'u', 'l', 'l'] met
  · rename_i met
    exact suffix_behind ['t', 'r', 'u', 'e'] met
  · rename_i met
    exact suffix_behind ['f', 'a', 'l', 's', 'e'] met
  · rename_i rest met
    refine Follows.of_suffix (suffix_behind ['"'] met) ?_
    exact (follows_string none [] rest).bind (fun read rest _read => List.suffix_refl rest)
  · rename_i rest met
    refine Follows.of_suffix (suffix_behind ['['] met) ?_
    split
    · rename_i closed
      exact suffix_behind [']'] closed
    · exact (followsItems [] _).of_suffix (skipSpace_suffix rest)
  · rename_i rest met
    refine Follows.of_suffix (suffix_behind ['\x7b'] met) ?_
    split
    · rename_i closed
      exact suffix_behind ['\x7d'] closed
    · exact (followsMembers [] _).of_suffix (skipSpace_suffix rest)
  · rename_i rest met
    exact (follows_number true rest).of_suffix (suffix_behind ['-'] met)
  · exact (follows_number false _).of_suffix (skipSpace_suffix text)

private theorem follows_items_succ (followsValue : ∀ text, Follows text (value fuel text))
    (followsItems : ∀ read text, Follows text (items fuel read text)) (read : List Json)
    (text : List Char) : Follows text (items (fuel + 1) read text) := by
  unfold items
  refine (followsValue text).bind (fun item rest _read => ?_)
  dsimp only
  split
  · rename_i met
    exact (followsItems _ _).of_suffix (suffix_behind [','] met)
  · rename_i met
    exact suffix_behind [']'] met
  · trivial

private theorem follows_members_succ (followsValue : ∀ text, Follows text (value fuel text))
    (followsMembers : ∀ read text, Follows text (members fuel read text))
    (read : List (String × Json)) (text : List Char) :
    Follows text (members (fuel + 1) read text) := by
  unfold members
  split
  · rename_i rest met
    refine Follows.of_suffix (suffix_behind ['"'] met) ?_
    refine (follows_string none [] rest).bind (fun name rest _read => ?_)
    dsimp only
    split
    · rename_i rest met
      refine Follows.of_suffix (suffix_behind [':'] met) ?_
      refine (followsValue rest).bind (fun member rest _read => ?_)
      dsimp only
      split
      · rename_i met
        exact (followsMembers _ _).of_suffix (suffix_behind [','] met)
      · rename_i met
        exact suffix_behind ['\x7d'] met
      · trivial
    · trivial
  · trivial

/-- The three readers call each other with less fuel, so one induction carries all of them. -/
private theorem follows_all (fuel : Nat) :
    (∀ text, Follows text (value fuel text)) ∧
      (∀ read text, Follows text (items fuel read text)) ∧
      ∀ read text, Follows text (members fuel read text) := by
  induction fuel with
  | zero => exact ⟨fun _text => trivial, fun _read _text => trivial, fun _read _text => trivial⟩
  | succ fuel ih =>
      obtain ⟨followsValue, followsItems, followsMembers⟩ := ih
      exact ⟨follows_value_succ followsItems followsMembers,
        follows_items_succ followsValue followsItems,
        follows_members_succ followsValue followsMembers⟩

theorem follows_value (fuel : Nat) (text : List Char) : Follows text (value fuel text) :=
  (follows_all fuel).1 text

end Json.Reader

namespace Json

theorem exists_value_of_ofChars (text : List Char) :
    ∃ fuel inner, inner <:+ text ∧
      ofChars text = (Reader.value fuel inner >>= fun (json, _) => pure json) := by
  unfold ofChars
  dsimp only
  split
  · rename_i rest
    exact ⟨_, rest, List.suffix_cons '\ufeff' rest, rfl⟩
  · exact ⟨_, text, List.suffix_refl text, rfl⟩

/-- A text that gives no value for the sake of a number holds a number that is too large. -/
theorem holdsTooLarge_of_parse {text : String}
    (stopped : parse text = .error .numberTooLarge) : Reader.HoldsTooLarge text.toList := by
  obtain ⟨fuel, inner, ending, read⟩ := exists_value_of_ofChars text.toList
  rw [parse, read] at stopped
  rcases Outcome.bind_eq_error_iff.mp stopped with failed | ⟨_read, _succeeded, ended⟩
  · have follows := Reader.follows_value fuel inner
    rw [failed] at follows
    exact Reader.HoldsTooLarge.of_suffix ending follows
  · cases ended

end Json

end Featurize
