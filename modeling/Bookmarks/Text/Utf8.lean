/-
# UTF-8 with damage

Text in a file is a list of bytes. `Utf8.decode?` reads it only if it is sound UTF-8;
`Utf8.decodeLossy` reads any bytes and puts one replacement character in the place of each longest
run of bytes that begins a character but cannot end it.
-/

namespace Bookmarks

/-- Raw bytes of a file. -/
abbrev Bytes := List UInt8

/-- The character that stands for something unreadable. -/
def replacementChar : Char := '\uFFFD'

namespace Utf8

/-- The text of sound UTF-8. -/
def decode? (bytes : Bytes) : Option String :=
  String.fromUTF8? (ByteArray.mk bytes.toArray)

/-- The bytes of a text. -/
def encode (text : String) : Bytes :=
  text.toUTF8.data.toList

/-- A character whose first bytes have been read. -/
structure Pending where
  /-- Bytes still to come after the next one. -/
  more : Nat
  /-- The least value the next byte may have. -/
  low : UInt8
  /-- The greatest value the next byte may have. -/
  high : UInt8
  /-- The bits collected so far. -/
  bits : Nat
  deriving DecidableEq, Repr

/-- How a character of several bytes begins. Overlong forms, surrogates and values past the last
code point are kept out by the range of the second byte. -/
def Pending.start? (byte : UInt8) : Option Pending :=
  let value := byte.toNat
  if 0xC2 ≤ byte && byte ≤ 0xDF then some ⟨0, 0x80, 0xBF, value - 0xC0⟩
  else if byte = 0xE0 then some ⟨1, 0xA0, 0xBF, value - 0xE0⟩
  else if byte = 0xED then some ⟨1, 0x80, 0x9F, value - 0xE0⟩
  else if 0xE1 ≤ byte && byte ≤ 0xEF then some ⟨1, 0x80, 0xBF, value - 0xE0⟩
  else if byte = 0xF0 then some ⟨2, 0x90, 0xBF, value - 0xF0⟩
  else if 0xF1 ≤ byte && byte ≤ 0xF3 then some ⟨2, 0x80, 0xBF, value - 0xF0⟩
  else if byte = 0xF4 then some ⟨2, 0x80, 0x8F, value - 0xF0⟩
  else none

/-- A byte where a character may begin: what it shows at once, and what it leaves pending. -/
def begin (byte : UInt8) : List Char × Option Pending :=
  if byte < 0x80 then ([Char.ofNat byte.toNat], none)
  else match Pending.start? byte with
    | some pending => ([], some pending)
    | none => ([replacementChar], none)

/-- One more byte. A byte that cannot continue the pending character ends it unread and is looked
at afresh. -/
def advance (state : Option Pending) (byte : UInt8) : List Char × Option Pending :=
  match state with
  | none => begin byte
  | some pending =>
      if pending.low ≤ byte && byte ≤ pending.high then
        let bits := pending.bits * 64 + (byte.toNat - 0x80)
        match pending.more with
        | 0 => ([Char.ofNat bits], none)
        | more + 1 => ([], some ⟨more, 0x80, 0xBF, bits⟩)
      else
        let (shown, state) := begin byte
        (replacementChar :: shown, state)

/-- The characters of the bytes that follow, given what is pending. -/
def decodeFrom : Option Pending → Bytes → List Char
  | none, [] => []
  | some _, [] => [replacementChar]
  | state, byte :: rest =>
      let (shown, state) := advance state byte
      shown ++ decodeFrom state rest

/-- Read any bytes, with replacement characters for what is not UTF-8. -/
def decodeLossy (bytes : Bytes) : String :=
  String.ofList (decodeFrom none bytes)

end Utf8

end Bookmarks
