/-
# Text strings

Titles in a PDF file are text strings: bytes that begin with a byte-order mark are UTF-16, other
bytes are UTF-8 where that is possible, and otherwise every byte is the character of that code.
-/
import Bookmarks.Text.Utf16

namespace Bookmarks.TextString

/-- The two bytes that announce big-endian UTF-16. -/
def byteOrderMark : Bytes := [0xFE, 0xFF]

/-- The text of bytes that are one character each. -/
def decodeLatin1 (bytes : Bytes) : String :=
  String.ofList (bytes.map fun byte => Char.ofNat byte.toNat)

/-- The text of a text string. -/
def decode : Bytes → String
  | 0xFE :: 0xFF :: units => String.ofList (Utf16.decodeLossy (Utf16.ofBytes units))
  | bytes => (Utf8.decode? bytes).getD (decodeLatin1 bytes)

/-- A text as UTF-16 with a byte-order mark. -/
def encode (text : String) : Bytes :=
  byteOrderMark ++ Utf16.toBytes (Utf16.encode text.toList)

end Bookmarks.TextString
