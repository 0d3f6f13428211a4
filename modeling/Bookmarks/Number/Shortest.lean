/-
# Shortest decimals

A finite magnitude stands for every real number that rounds to it. `BinaryFormat.shortest` finds,
among the decimals in that interval, those with the fewest digits, and of those the nearest to the
magnitude itself. On each grid of decimals only the two neighbours of the magnitude need to be
tried: if the interval holds any point of the grid, it holds one of them.
-/
import Bookmarks.Number.BinaryFormat

namespace Bookmarks

/-- The decimal number `digits · 10 ^ exponent`. -/
structure Decimal where
  digits : Nat
  exponent : Int
  deriving DecidableEq, Repr

namespace Decimal

/-- Decimal digits of a positive number. -/
def length (n : Nat) : Nat :=
  (Nat.toDigits 10 n).length

/-- Drop up to `n` zeros at the end of the digits. -/
def trim : Nat → Decimal → Decimal
  | 0, decimal => decimal
  | n + 1, decimal =>
      if decimal.digits % 10 = 0 ∧ decimal.digits ≠ 0 then
        trim n ⟨decimal.digits / 10, decimal.exponent + 1⟩
      else decimal

end Decimal

/-- The exponent of the highest power of ten that is at most `num / den`, both being positive. -/
def topDecimalExponent (num den : Nat) : Int :=
  let guess : Int := (Decimal.length num : Int) - Decimal.length den
  let below :=
    if guess < 0 then num * Nat.pow 10 guess.natAbs < den
    else num < den * Nat.pow 10 guess.natAbs
  if below then guess - 1 else guess

/-- The reals that round to one magnitude, measured in a unit that makes both ends integers. -/
structure RoundingInterval where
  /-- The magnitude itself. -/
  centre : Nat
  lower : Nat
  upper : Nat
  /-- The ends themselves round to the magnitude. -/
  closed : Bool
  /-- The unit as a ratio. -/
  unitNum : Nat
  unitDen : Nat
  deriving DecidableEq, Repr

namespace RoundingInterval

/-- The interval of a positive finite magnitude. The gap below a power of two is half the gap
above it, except at the bottom of the format. -/
def of (format : BinaryFormat) (magnitude : Nat) : RoundingInterval :=
  let (significand, exponent) := format.parts magnitude
  let quarter := exponent - 2
  let gap := if significand = format.binade ∧ format.leastExponent < exponent then 1 else 2
  { centre := 4 * significand
    lower := 4 * significand - gap
    upper := 4 * significand + 2
    closed := significand % 2 = 0
    unitNum := if quarter < 0 then 1 else Nat.pow 2 quarter.natAbs
    unitDen := if quarter < 0 then Nat.pow 2 quarter.natAbs else 1 }

/-- Both sides of a comparison with `digits · 10 ^ exponent`, over a common denominator: the
decimal, and one unit of the interval. -/
def scale (interval : RoundingInterval) (digits : Nat) (exponent : Int) : Nat × Nat :=
  if exponent < 0 then
    (digits * interval.unitDen, interval.unitNum * Nat.pow 10 exponent.natAbs)
  else
    (digits * Nat.pow 10 exponent.natAbs * interval.unitDen, interval.unitNum)

/-- The decimal rounds to the magnitude. -/
def holds (interval : RoundingInterval) (decimal : Decimal) : Bool :=
  let (value, unit) := interval.scale decimal.digits decimal.exponent
  if interval.closed then
    interval.lower * unit ≤ value && value ≤ interval.upper * unit
  else
    interval.lower * unit < value && value < interval.upper * unit

/-- The best decimal with its last digit at `10 ^ exponent`, if one rounds to the magnitude: the
nearer of the two neighbours, or the even one of two that are equally near. -/
def onGrid (interval : RoundingInterval) (exponent : Int) : Option Decimal :=
  let num := interval.centre * interval.unitNum
  let den := interval.unitDen
  let (num, den) :=
    if exponent < 0 then (num * Nat.pow 10 exponent.natAbs, den)
    else (num, den * Nat.pow 10 exponent.natAbs)
  let below : Decimal := ⟨num / den, exponent⟩
  let above : Decimal := ⟨num / den + 1, exponent⟩
  let best := roundHalfEven num den
  match interval.holds below, interval.holds above with
  | true, true => some ⟨best, exponent⟩
  | true, false => some below
  | false, true => some above
  | false, false => none

/-- Try grids of `digits`, `digits + 1`, … places in turn, `tries` of them at most. -/
def firstHit (interval : RoundingInterval) (top : Int) : Nat → Nat → Option Decimal
  | 0, _ => none
  | tries + 1, digits =>
      match interval.onGrid (top - (digits - 1 : Nat)) with
      | some decimal => some decimal
      | none => interval.firstHit top tries (digits + 1)

end RoundingInterval

namespace BinaryFormat

/-- Digits that are always enough to tell two magnitudes apart. -/
def enoughDigits (format : BinaryFormat) : Nat :=
  format.precision * 30103 / 100000 + 2

/-- The shortest decimal that rounds to a finite magnitude, without zeros at its end. -/
def shortest (format : BinaryFormat) (magnitude : Nat) : Decimal :=
  if magnitude = 0 then ⟨0, 0⟩
  else
    let interval := RoundingInterval.of format magnitude
    let (num, den) := format.ratio magnitude
    let found :=
      interval.firstHit (topDecimalExponent num den) format.enoughDigits 1
    let decimal := found.getD ⟨0, 0⟩
    decimal.trim (Decimal.length decimal.digits)

end BinaryFormat

end Bookmarks
