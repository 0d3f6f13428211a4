/-
# Writing JSON

A value is written in one of two layouts. The compact one has no blanks; the pretty one puts every
item and member on a line of its own, indented by two blanks a level, with a blank after each
colon. Strings escape the quote, the backslash and the control characters, and nothing else.
-/
import Bookmarks.Json.Basic

namespace Bookmarks

/-- How a JSON text is laid out. -/
inductive Layout where
  | pretty
  | compact
  deriving DecidableEq, Repr

namespace Layout

/-- What comes before a line at some nesting depth. -/
def newline (layout : Layout) (depth : Nat) : List Char :=
  match layout with
  | .pretty => '\n' :: List.replicate (2 * depth) ' '
  | .compact => []

/-- What separates a key from its value. -/
def colon : Layout → List Char
  | .pretty => [':', ' ']
  | .compact => [':']

/-- Parts between an opening and a closing bracket. -/
def enclose (layout : Layout) (depth : Nat) (opening closing : Char) :
    List (List Char) → List Char
  | [] => [opening, closing]
  | first :: others =>
      opening :: (layout.newline (depth + 1) ++ first
        ++ others.flatMap (fun part => ',' :: (layout.newline (depth + 1) ++ part))
        ++ layout.newline depth ++ [closing])

end Layout

namespace Numeral

/-- The characters of a number. -/
def spell (n : Numeral) : List Char :=
  (if n.negative then ['-'] else []) ++ n.whole
    ++ (if n.fraction.isEmpty then [] else '.' :: n.fraction)
    ++ match n.exponent with
      | none => []
      | some (negative, digits) => 'e' :: (if negative then '-' else '+') :: digits

end Numeral

namespace Json

/-- A hexadecimal digit in lower case. -/
def hexDigit (n : Nat) : Char :=
  if n < 10 then Char.ofNat ('0'.toNat + n) else Char.ofNat ('a'.toNat + (n - 10))

/-- One character inside a string. -/
def escapeChar (c : Char) : List Char :=
  match letterOf? c with
  | some letter => ['\\', letter]
  | none =>
      if c.toNat < 0x20 then
        ['\\', 'u', '0', '0', hexDigit (c.toNat / 16), hexDigit (c.toNat % 16)]
      else [c]

/-- The characters of a quoted string. -/
def quote (text : String) : List Char :=
  '"' :: (text.toList.flatMap escapeChar ++ ['"'])

mutual

/-- The characters of a value that stands at some nesting depth. -/
def spell (layout : Layout) (depth : Nat) : Json → List Char
  | .null => ['n', 'u', 'l', 'l']
  | .bool true => ['t', 'r', 'u', 'e']
  | .bool false => ['f', 'a', 'l', 's', 'e']
  | .number value => value.spell
  | .string value => quote value
  | .array items => layout.enclose depth '[' ']' (spellItems layout (depth + 1) items)
  | .object members =>
      layout.enclose depth '\x7b' '\x7d' (spellMembers layout (depth + 1) members)

/-- The characters of each item of an array. -/
def spellItems (layout : Layout) (depth : Nat) : List Json → List (List Char)
  | [] => []
  | item :: items => item.spell layout depth :: spellItems layout depth items

/-- The characters of each member of an object. -/
def spellMembers (layout : Layout) (depth : Nat) : List (String × Json) → List (List Char)
  | [] => []
  | (key, value) :: members =>
      (quote key ++ layout.colon ++ value.spell layout depth)
        :: spellMembers layout depth members

end

/-- The text of a value. -/
def write (layout : Layout) (value : Json) : String :=
  String.ofList (value.spell layout 0)

end Json

end Bookmarks
