/-
# Numbers of JSON in single precision

How a spelled number becomes a `Binary32`, and how a `Binary32` is spelled.

Reading knows two kinds of number. An integer that fits into 64 bits is rounded to single precision
at once. Any other number is rounded to a double first and then once more to single precision; a
number too large for a double has no value.

Writing uses the fewest digits that round back to the number. They stand with a point as long as
the number is neither very large nor very small, and with a power of ten otherwise.
-/
import Bookmarks.Json.Basic
import Bookmarks.Number.Binary32
import Bookmarks.Number.Shortest

namespace Bookmarks

namespace Numeral

/-- The power of ten at the end of the number. -/
def exponentValue (n : Numeral) : Int :=
  match n.exponent with
  | none => 0
  | some (true, digits) => -(valueOf digits : Int)
  | some (false, digits) => valueOf digits

/-- The value of a number without fraction and power of ten that fits into 64 bits, where a
negative number has to fit together with its sign. A negative zero is no integer. -/
def toInt64? (n : Numeral) : Option Int :=
  if n.fraction.isEmpty && n.exponent.isNone then
    let value := valueOf n.whole
    if n.negative then
      if 1 ≤ value && value ≤ Nat.pow 2 63 then some (-(value : Int)) else none
    else if value < Nat.pow 2 64 then some value else none
  else none

/-- The magnitude of a number as a double, which may be infinite. -/
def toDouble (n : Numeral) : Nat :=
  binary64.ofDecimal (valueOf (n.whole ++ n.fraction)) (n.exponentValue - n.fraction.length)

/-- The value of a number in single precision, unless it is too large for a double. -/
def toBinary32? (n : Numeral) : Option Binary32 :=
  match n.toInt64? with
  | some i => some (Binary32.ofInt i)
  | none =>
      let double := n.toDouble
      if double < binary64.infinity then some (Binary32.ofDouble n.negative double) else none

end Numeral

/-- How decimals are laid out. -/
structure DecimalLayout where
  /-- The least power of ten of the first digit that is written with a point alone. -/
  leastPlain : Int
  /-- The greatest power of ten of the first digit that is written with a point alone. -/
  greatestPlain : Int
  deriving DecidableEq, Repr

/-- JSON numbers have a plain point from a millionth up to, but not including, `10 ^ 13`. -/
def jsonDecimal : DecimalLayout := ⟨-6, 12⟩

/-- A decimal in a layout. Plain numbers have a digit on either side of the point; others have one
digit before the point, and a point only if more digits follow. -/
def DecimalLayout.spell (layout : DecimalLayout) (negative : Bool) (decimal : Decimal) :
    Numeral :=
  let digits := Numeral.digitsOf decimal.digits
  let top : Int := decimal.exponent + digits.length - 1
  if decimal.digits = 0 then ⟨negative, ['0'], ['0'], none⟩
  else if layout.leastPlain ≤ top ∧ top ≤ layout.greatestPlain then
    if top < 0 then
      ⟨negative, ['0'], List.replicate (top.natAbs - 1) '0' ++ digits, none⟩
    else if decimal.exponent < 0 then
      let places := top.toNat + 1
      ⟨negative, digits.take places, digits.drop places, none⟩
    else
      ⟨negative, digits ++ List.replicate decimal.exponent.toNat '0', ['0'], none⟩
  else
    ⟨negative, digits.take 1, digits.drop 1,
      some (top < 0, Numeral.digitsOf top.natAbs)⟩

/-- A finite number in the fewest digits that round back to it. -/
def Numeral.ofBinary32? (x : Binary32) : Option Numeral :=
  if x.isFinite then
    some (jsonDecimal.spell x.isNegative (binary32.shortest x.magnitude))
  else none

end Bookmarks
