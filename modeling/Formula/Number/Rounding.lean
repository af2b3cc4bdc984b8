/-
Rounding an exact value to the nearest binary floating-point number.

The unit of the result is the power of two that leaves fifty-three significant bits, or the
smallest unit there is for values too small for that many.  Counting the value in that unit
and rounding to a whole number, with a half going to the even neighbour, gives the
significand.  Adding it to the pattern of the unit gives the pattern of the result, also
when the significand was rounded up to the next power of two.
-/
import Formula.Number.Binary64

namespace Formula

/-- The nearest whole number, and of two equally near ones the even one. -/
def roundHalfEven (x : Rat) : Int :=
  let low := x.floor
  let rest := x - low
  if rest < 1 / 2 then low
  else if rest = 1 / 2 then (if low % 2 = 0 then low else low + 1)
  else low + 1

/-- The exponent of the greatest power of two that is at most `x`, for `x` above zero. -/
def floorLog2 (x : Rat) : Int :=
  let estimate : Int := (Nat.log2 x.num.natAbs : Int) - Nat.log2 x.den
  if (2 : Rat) ^ estimate ≤ x then estimate else estimate - 1

namespace Binary64

/-- The exponent of the unit in which a magnitude is counted: fifty-three significant bits
where the exponents reach that far down, and the smallest unit otherwise. -/
def unitFor (magnitude : Rat) : Int :=
  max (floorLog2 magnitude - 52) (-1074)

/-- The pattern of the number nearest to a magnitude above zero.  It may lie above the
patterns of the finite numbers. -/
def nearestPattern (magnitude : Rat) : Nat :=
  let unit := unitFor magnitude
  let significand := (roundHalfEven (magnitude / (2 : Rat) ^ unit)).toNat
  (unit + 1074).toNat * fractions + significand

/-- The number with the given sign that is nearest to `magnitude`; infinity above the range
of the finite numbers. -/
def nearest (negative : Bool) (magnitude : Rat) : Binary64 :=
  let pattern := if magnitude = 0 then 0 else nearestPattern magnitude
  ofPattern negative (min pattern infinityPattern)

end Binary64

end Formula
