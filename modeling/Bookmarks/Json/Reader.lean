/-
# Reading JSON

`Json.read` accepts exactly one value with blanks around it. Every step of the reader takes
characters from the front of the text, so the length of the text bounds its work.
-/
import Bookmarks.Json.Basic
import Bookmarks.Text.Utf16

namespace Bookmarks

namespace Json

/-- The blanks that may stand around any part of a JSON text. -/
def isBlank (c : Char) : Bool :=
  c = ' ' || c = '\n' || c = '\r' || c = '\t'

/-- The text after its leading blanks. -/
def skipBlanks (text : List Char) : List Char :=
  text.dropWhile isBlank

/-- The value of a hexadecimal digit. -/
def hexValue? (c : Char) : Option Nat :=
  if '0' ≤ c && c ≤ '9' then some (c.toNat - '0'.toNat)
  else if 'a' ≤ c && c ≤ 'f' then some (c.toNat - 'a'.toNat + 10)
  else if 'A' ≤ c && c ≤ 'F' then some (c.toNat - 'A'.toNat + 10)
  else none

/-- The unit that four hexadecimal digits stand for. -/
def hexUnit? (a b c d : Char) : Option UInt16 := do
  let a ← hexValue? a
  let b ← hexValue? b
  let c ← hexValue? c
  let d ← hexValue? d
  some (UInt16.ofNat (a * 4096 + b * 256 + c * 16 + d))

/-- The rest of a string after its opening quote, and the text after its closing one. A surrogate
outside a pair, an unknown escape and a raw control character are refused. -/
def readString : List Char → Option (List Char × List Char)
  | [] => none
  | '"' :: rest => some ([], rest)
  | '\\' :: 'u' :: a :: b :: c :: d :: rest => do
      let unit ← hexUnit? a b c d
      if Utf16.isLowSurrogate unit then none
      else if Utf16.isHighSurrogate unit then
        match rest with
        | '\\' :: 'u' :: a :: b :: c :: d :: rest => do
            let low ← hexUnit? a b c d
            if Utf16.isLowSurrogate low then do
              let (text, rest) ← readString rest
              some (Utf16.pair unit low :: text, rest)
            else none
        | _ => none
      else do
        let (text, rest) ← readString rest
        some (Char.ofNat unit.toNat :: text, rest)
  | '\\' :: letter :: rest => do
      let c ← ofLetter? letter
      let (text, rest) ← readString rest
      some (c :: text, rest)
  | c :: rest =>
      if c = '\\' || c.toNat < 0x20 then none
      else do
        let (text, rest) ← readString rest
        some (c :: text, rest)

/-- One digit or more, and the text after them. -/
def readDigits (text : List Char) : Option (List Char × List Char) :=
  match text.takeWhile Char.isDigit with
  | [] => none
  | digits => some (digits, text.dropWhile Char.isDigit)

/-- The digits before the point: a leading zero stands alone. -/
def readWhole (text : List Char) : Option (List Char × List Char) := do
  let (digits, rest) ← readDigits text
  if digits.head? = some '0' && 1 < digits.length then none else some (digits, rest)

/-- The point and the digits after it, if there is a point. -/
def readFraction : List Char → Option (List Char × List Char)
  | '.' :: rest => readDigits rest
  | text => some ([], text)

/-- The sign of a power of ten, a missing one being positive. -/
def readSign : List Char → Bool × List Char
  | '-' :: rest => (true, rest)
  | '+' :: rest => (false, rest)
  | text => (false, text)

/-- The power of ten, if there is one. -/
def readExponent : List Char → Option (Option (Bool × List Char) × List Char)
  | c :: rest =>
      if c = 'e' || c = 'E' then do
        let (negative, rest) := readSign rest
        let (digits, rest) ← readDigits rest
        some (some (negative, digits), rest)
      else some (none, c :: rest)
  | [] => some (none, [])

/-- A number that has lost its sign. -/
def readUnsigned (negative : Bool) (text : List Char) : Option (Numeral × List Char) := do
  let (whole, rest) ← readWhole text
  let (fraction, rest) ← readFraction rest
  let (exponent, rest) ← readExponent rest
  some (⟨negative, whole, fraction, exponent⟩, rest)

/-- A number. -/
def readNumber : List Char → Option (Numeral × List Char)
  | '-' :: rest => readUnsigned true rest
  | text => readUnsigned false text

/-- The items of an array up to its closing bracket, one item at least. -/
def readItems (value : List Char → Option (Json × List Char)) :
    Nat → List Char → Option (List Json × List Char)
  | 0, _ => none
  | bound + 1, text => do
      let (item, rest) ← value text
      match skipBlanks rest with
      | ',' :: rest => do
          let (items, rest) ← readItems value bound rest
          some (item :: items, rest)
      | ']' :: rest => some ([item], rest)
      | _ => none

/-- The members of an object up to its closing brace, one member at least. -/
def readMembers (value : List Char → Option (Json × List Char)) :
    Nat → List Char → Option (List (String × Json) × List Char)
  | 0, _ => none
  | bound + 1, text =>
      match skipBlanks text with
      | '"' :: rest => do
          let (key, rest) ← readString rest
          match skipBlanks rest with
          | ':' :: rest => do
              let (item, rest) ← value rest
              match skipBlanks rest with
              | ',' :: rest => do
                  let (members, rest) ← readMembers value bound rest
                  some ((String.ofList key, item) :: members, rest)
              | '\x7d' :: rest => some ([(String.ofList key, item)], rest)
              | _ => none
          | _ => none
      | _ => none

/-- One value and the text after it, nested fewer than `bound` levels deep. -/
def readValue : Nat → List Char → Option (Json × List Char)
  | 0, _ => none
  | bound + 1, text =>
      match skipBlanks text with
      | 'n' :: 'u' :: 'l' :: 'l' :: rest => some (.null, rest)
      | 't' :: 'r' :: 'u' :: 'e' :: rest => some (.bool true, rest)
      | 'f' :: 'a' :: 'l' :: 's' :: 'e' :: rest => some (.bool false, rest)
      | '"' :: rest => do
          let (value, rest) ← readString rest
          some (.string (String.ofList value), rest)
      | '[' :: rest =>
          match skipBlanks rest with
          | ']' :: rest => some (.array [], rest)
          | _ => do
              let (items, rest) ← readItems (readValue bound) (rest.length + 1) rest
              some (.array items, rest)
      | '\x7b' :: rest =>
          match skipBlanks rest with
          | '\x7d' :: rest => some (.object [], rest)
          | _ => do
              let (members, rest) ← readMembers (readValue bound) (rest.length + 1) rest
              some (.object members, rest)
      | text => do
          let (value, rest) ← readNumber text
          some (.number value, rest)

/-- The one value that a text consists of. -/
def read (text : String) : Option Json :=
  match readValue (text.toList.length + 1) text.toList with
  | some (value, rest) => if (skipBlanks rest).isEmpty then some value else none
  | none => none

end Json

end Bookmarks
