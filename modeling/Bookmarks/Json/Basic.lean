/-
# JSON values

A JSON value keeps its object members in order and its numbers as they are spelled, because the
precision of a number is the business of whoever reads it.
-/

namespace Bookmarks

/-- A decimal number as spelled in a JSON text. -/
structure Numeral where
  /-- A minus sign comes first. -/
  negative : Bool
  /-- The digits before the point. -/
  whole : List Char
  /-- The digits after the point; without any there is no point. -/
  fraction : List Char
  /-- The power of ten, as its sign and digits. -/
  exponent : Option (Bool × List Char)
  deriving DecidableEq, Repr

/-- The digits of a natural number. -/
def Numeral.digitsOf (n : Nat) : List Char :=
  Nat.toDigits 10 n

/-- The number that decimal digits stand for. -/
def Numeral.valueOf (digits : List Char) : Nat :=
  digits.foldl (fun value digit => value * 10 + (digit.toNat - '0'.toNat)) 0

/-- An integer, spelled out. -/
def Numeral.ofInt (i : Int) : Numeral :=
  ⟨i < 0, digitsOf i.natAbs, [], none⟩

/-- A JSON value. -/
inductive Json where
  | null
  | bool (value : Bool)
  | number (value : Numeral)
  | string (value : String)
  | array (items : List Json)
  | object (members : List (String × Json))
  deriving Repr

namespace Json

mutual

/-- How deeply arrays and objects are nested in a value. -/
def depth : Json → Nat
  | .array items => depthItems items + 1
  | .object members => depthMembers members + 1
  | _ => 0

/-- The greatest depth among the items of an array. -/
def depthItems : List Json → Nat
  | [] => 0
  | item :: items => max item.depth (depthItems items)

/-- The greatest depth among the members of an object. -/
def depthMembers : List (String × Json) → Nat
  | [] => 0
  | (_, value) :: members => max value.depth (depthMembers members)

end

mutual

/-- The numbers in a value, in the order of the text. -/
def numerals : Json → List Numeral
  | .number value => [value]
  | .array items => numeralsItems items
  | .object members => numeralsMembers members
  | _ => []

/-- The numbers in the items of an array. -/
def numeralsItems : List Json → List Numeral
  | [] => []
  | item :: items => item.numerals ++ numeralsItems items

/-- The numbers in the members of an object. -/
def numeralsMembers : List (String × Json) → List Numeral
  | [] => []
  | (_, value) :: members => value.numerals ++ numeralsMembers members

end

/-- The letters that stand for a character after a backslash, each with its character. -/
def escapes : List (Char × Char) :=
  [('"', '"'), ('\\', '\\'), ('b', '\x08'), ('f', '\x0c'), ('n', '\n'), ('r', '\r'),
    ('t', '\t')]

/-- The letter that stands for a character, if there is one. -/
def letterOf? (c : Char) : Option Char :=
  (escapes.find? fun escape => escape.2 = c).map Prod.fst

/-- The character that a letter stands for. A slash stands for itself, though it need not. -/
def ofLetter? (letter : Char) : Option Char :=
  if letter = '/' then some letter else escapes.lookup letter

/-- An integer as a JSON number. -/
def ofInt (i : Int) : Json :=
  .number (Numeral.ofInt i)

end Json

end Bookmarks
