/-
# Binary floating-point formats

A format of `precision` significant bits and `exponentBits` exponent bits numbers its magnitudes
`0, 1, 2, …` in increasing order, infinity being the last. Such a number is the bit pattern of the
magnitude without its sign. `BinaryFormat.round` picks the magnitude nearest to a ratio of natural
numbers and, between two that are equally near, the even one; everything else in this family is
said through it, so every operation here is exact up to that one rounding.
-/

namespace Bookmarks

/-- The natural number nearest to `num / den`, a half going to the even neighbour. -/
def roundHalfEven (num den : Nat) : Nat :=
  let quotient := num / den
  let twice := 2 * (num % den)
  if twice < den then quotient
  else if den < twice then quotient + 1
  else quotient + quotient % 2

/-- How a binary floating-point format lays out its bits. -/
structure BinaryFormat where
  /-- Significant bits, the leading one included. -/
  precision : Nat
  /-- Bits of the exponent field. -/
  exponentBits : Nat
  deriving DecidableEq, Repr

/-- Single precision: 24 significant bits in 32. -/
def binary32 : BinaryFormat := ⟨24, 8⟩

/-- Double precision: 53 significant bits in 64. -/
def binary64 : BinaryFormat := ⟨53, 11⟩

namespace BinaryFormat

/-- Magnitudes that share one exponent. -/
def binade (format : BinaryFormat) : Nat :=
  Nat.pow 2 (format.precision - 1)

/-- The magnitude of infinity; every smaller one is finite. -/
def infinity (format : BinaryFormat) : Nat :=
  (Nat.pow 2 format.exponentBits - 1) * format.binade

/-- The distance between the smallest magnitudes is two to this power. -/
def leastExponent (format : BinaryFormat) : Int :=
  3 - (Nat.pow 2 (format.exponentBits - 1) : Nat) - format.precision

/-- A finite magnitude as an integer times a power of two. -/
def parts (format : BinaryFormat) (magnitude : Nat) : Nat × Int :=
  let exponent := magnitude / format.binade
  let fraction := magnitude % format.binade
  if exponent = 0 then (fraction, format.leastExponent)
  else (fraction + format.binade, format.leastExponent + (exponent - 1 : Nat))

/-- A finite magnitude as a ratio of natural numbers. -/
def ratio (format : BinaryFormat) (magnitude : Nat) : Nat × Nat :=
  let (significand, exponent) := format.parts magnitude
  if exponent < 0 then (significand, Nat.pow 2 exponent.natAbs)
  else (significand * Nat.pow 2 exponent.natAbs, 1)

/-- The exponent of the highest power of two that is at most `num / den`, both being positive. -/
def topExponent (num den : Nat) : Int :=
  let guess : Int := (num.log2 : Int) - den.log2
  let below :=
    if guess < 0 then num * Nat.pow 2 guess.natAbs < den
    else num < den * Nat.pow 2 guess.natAbs
  if below then guess - 1 else guess

/-- The magnitude nearest to `num / den`: ties go to the even magnitude, and what is too large for
the finite ones becomes infinity. -/
def round (format : BinaryFormat) (num den : Nat) : Nat :=
  if num = 0 then 0
  else
    let exponent :=
      max (topExponent num den - (format.precision - 1 : Nat)) format.leastExponent
    let significand :=
      if exponent < 0 then roundHalfEven (num * Nat.pow 2 exponent.natAbs) den
      else roundHalfEven num (den * Nat.pow 2 exponent.natAbs)
    min ((exponent - format.leastExponent).toNat * format.binade + significand) format.infinity

/-- The magnitude of `digits · 10 ^ exponent`, rounded once. Powers of ten that settle the matter by
themselves are not multiplied out: from `2 ^ -leastExponent` on everything is infinite, and a number
below half the smallest magnitude is zero. The latter is read off
`10 ^ exponent ≤ 2 ^ (3 * exponent)`, which holds for negative exponents. -/
def ofDecimal (format : BinaryFormat) (digits : Nat) (exponent : Int) : Nat :=
  if digits = 0 then 0
  else if -format.leastExponent < exponent then format.infinity
  else if exponent < 0 then
    if digits.log2 + 3 * exponent < format.leastExponent - 1 then 0
    else format.round digits (Nat.pow 10 exponent.natAbs)
  else format.round (digits * Nat.pow 10 exponent.natAbs) 1

/-- The nearest magnitude of another format. -/
def convert (source target : BinaryFormat) (magnitude : Nat) : Nat :=
  if source.infinity ≤ magnitude then target.infinity
  else
    let (num, den) := source.ratio magnitude
    target.round num den

end BinaryFormat

end Bookmarks
