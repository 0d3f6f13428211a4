/-
# UTF-16

A text in UTF-16 is a list of 16-bit units. A character past the first plane is written as a high
surrogate followed by a low one; a surrogate without its partner stands for nothing and is read
as the replacement character.
-/
import Bookmarks.Text.Utf8

namespace Bookmarks.Utf16

/-- A unit that can begin a pair. -/
def isHighSurrogate (unit : UInt16) : Bool :=
  0xD800 ≤ unit && unit ≤ 0xDBFF

/-- A unit that can end a pair. -/
def isLowSurrogate (unit : UInt16) : Bool :=
  0xDC00 ≤ unit && unit ≤ 0xDFFF

/-- The character that a surrogate pair stands for. -/
def pair (high low : UInt16) : Char :=
  Char.ofNat (0x10000 + (high.toNat - 0xD800) * 0x400 + (low.toNat - 0xDC00))

/-- Read units, each surrogate without its partner as a replacement character. -/
def decodeLossy : List UInt16 → List Char
  | [] => []
  | [unit] =>
      if isHighSurrogate unit || isLowSurrogate unit then [replacementChar]
      else [Char.ofNat unit.toNat]
  | unit :: next :: rest =>
      if isHighSurrogate unit && isLowSurrogate next then pair unit next :: decodeLossy rest
      else if isHighSurrogate unit || isLowSurrogate unit then
        replacementChar :: decodeLossy (next :: rest)
      else Char.ofNat unit.toNat :: decodeLossy (next :: rest)

/-- The units of one character. -/
def encodeChar (c : Char) : List UInt16 :=
  let code := c.toNat
  if code < 0x10000 then [UInt16.ofNat code]
  else
    [UInt16.ofNat (0xD800 + (code - 0x10000) / 0x400),
      UInt16.ofNat (0xDC00 + (code - 0x10000) % 0x400)]

/-- The units of a text. -/
def encode (text : List Char) : List UInt16 :=
  text.flatMap encodeChar

/-- The units in big-endian bytes. A last byte without its partner belongs to no unit. -/
def ofBytes : Bytes → List UInt16
  | high :: low :: rest => UInt16.ofNat (high.toNat * 256 + low.toNat) :: ofBytes rest
  | _ => []

/-- The big-endian bytes of units. -/
def toBytes (units : List UInt16) : Bytes :=
  units.flatMap fun unit => [UInt8.ofNat (unit.toNat / 256), UInt8.ofNat (unit.toNat % 256)]

end Bookmarks.Utf16
