/-
# Single-precision numbers

Coordinates in a PDF file are single-precision numbers. A `Binary32` is its bit pattern, so two of
them are equal exactly when every bit agrees: the two zeros differ, and a NaN equals itself.
-/
import Bookmarks.Number.BinaryFormat

namespace Bookmarks

/-- A single-precision number, given by its bits. -/
structure Binary32 where
  bits : UInt32
  deriving DecidableEq, Repr

namespace Binary32

/-- The bit that marks a negative number. -/
def signBit : Nat := Nat.pow 2 31

/-- The sign bit is set. -/
def isNegative (x : Binary32) : Bool :=
  signBit ≤ x.bits.toNat

/-- The bits below the sign. -/
def magnitude (x : Binary32) : Nat :=
  x.bits.toNat % signBit

/-- The number of the given sign and magnitude. -/
def ofMagnitude (negative : Bool) (magnitude : Nat) : Binary32 :=
  ⟨UInt32.ofNat (if negative then signBit + magnitude else magnitude)⟩

/-- A quiet NaN. -/
def nan : Binary32 := ⟨0x7fc00000⟩

/-- The infinity of the given sign. -/
def infinity (negative : Bool) : Binary32 :=
  ofMagnitude negative binary32.infinity

/-- Neither infinite nor a NaN. -/
def isFinite (x : Binary32) : Bool :=
  x.magnitude < binary32.infinity

/-- Not a number at all. -/
def isNaN (x : Binary32) : Bool :=
  binary32.infinity < x.magnitude

/-- The number nearest to an integer. -/
def ofInt (i : Int) : Binary32 :=
  ofMagnitude (i < 0) (binary32.round i.natAbs 1)

/-- The number nearest to `± digits · 10 ^ exponent`. -/
def ofDecimal (negative : Bool) (digits : Nat) (exponent : Int) : Binary32 :=
  ofMagnitude negative (binary32.ofDecimal digits exponent)

/-- The number nearest to a double-precision one of the given sign and magnitude. -/
def ofDouble (negative : Bool) (magnitude : Nat) : Binary32 :=
  ofMagnitude negative (binary64.convert binary32 magnitude)

/-- The integer part as a signed 32-bit integer: the fraction is dropped, a number out of range
becomes the nearest bound, and a NaN becomes zero. -/
def truncate (x : Binary32) : Int :=
  if x.isNaN then 0
  else
    let whole :=
      if x.isFinite then
        let (num, den) := binary32.ratio x.magnitude
        num / den
      else signBit
    if x.isNegative then -(min whole signBit : Nat) else (min whole (signBit - 1) : Nat)

end Binary32

end Bookmarks
