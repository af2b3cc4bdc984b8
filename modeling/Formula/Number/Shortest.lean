/-
The shortest decimal that reads back as a given number.

A finite number stands for an interval of values: all that round to it.  The interval
reaches half a unit to either side, or only a quarter of one downwards at a power of two,
where the numbers below are twice as dense.  Its ends belong to it if the significand is
even, because a half is rounded to the even neighbour.

The decimals with `n` digits form a grid.  If any point of the grid lies in the interval,
one of the two grid points next to the number itself does, so trying `n` from one upwards
and looking at these two finds the shortest decimal, and the nearest among those of its
length.  Seventeen digits are always enough.
-/
import Formula.Number.Decimal

namespace Formula

/-- Which of two equally near neighbours on a grid is taken. -/
inductive Tie where
  /-- The greater one. -/
  | up
  /-- The one with an even last digit. -/
  | even
  deriving DecidableEq

/-- The number of decimal digits. -/
def digitCount (n : Nat) : Nat := (Nat.toDigits 10 n).length

/-- The exponent of the greatest power of ten that is at most `x`, for `x` above zero. -/
def floorLog10 (x : Rat) : Int :=
  let estimate : Int := (digitCount x.num.natAbs : Int) - digitCount x.den
  if (10 : Rat) ^ estimate ≤ x then estimate else estimate - 1

namespace Binary64

/-- The unit that the magnitude is counted in. -/
def unit (x : Binary64) : Rat := (2 : Rat) ^ x.unitExponent

/-- Whether the numbers just below the magnitude are twice as dense as those above it. -/
def isBinade (x : Binary64) : Bool :=
  x.pattern % fractions == 0 && fractions < x.pattern

/-- The lower end of the interval of values that round to the magnitude. -/
def lowerEnd (x : Binary64) : Rat :=
  x.magnitude - x.unit / (if x.isBinade then 4 else 2)

/-- The upper end of the interval of values that round to the magnitude. -/
def upperEnd (x : Binary64) : Rat := x.magnitude + x.unit / 2

/-- Whether a value lies in the interval of values that round to the magnitude. -/
def roundsTo (x : Binary64) (value : Rat) : Bool :=
  if x.significand % 2 = 0 then x.lowerEnd ≤ value && value ≤ x.upperEnd
  else x.lowerEnd < value && value < x.upperEnd

/-- The coefficient of the best decimal for the magnitude of `x` among the multiples of ten
to the power `place`, if one of them rounds to it. -/
def onGrid? (tie : Tie) (x : Binary64) (place : Int) : Option Nat :=
  let grid := (10 : Rat) ^ place
  let scaled := x.magnitude / grid
  let low := scaled.floor.toNat
  let fromLow := scaled - low
  let upIsNearer := 1 / 2 < fromLow ||
    (fromLow == 1 / 2 && (match tie with | .up => true | .even => low % 2 == 1))
  match x.roundsTo (low * grid), x.roundsTo ((low + 1 : Nat) * grid) with
  | true, true => some (if upIsNearer then low + 1 else low)
  | true, false => some low
  | false, true => some (low + 1)
  | false, false => none

/-- The decimal with the sign of `x`, written without a zero at its end. -/
def decimalOf (x : Binary64) (coefficient : Nat) (place : Int) : Decimal :=
  if coefficient % 10 = 0 then ⟨x.isNegative, coefficient / 10, place + 1⟩
  else ⟨x.isNegative, coefficient, place⟩

/-- The best decimal of at most `digits + more` digits that needs more than `digits` digits. -/
def shortestFrom (tie : Tie) (x : Binary64) (top : Int) : (digits more : Nat) → Decimal
  | _, 0 => ⟨x.isNegative, 0, 0⟩
  | digits, more + 1 =>
    let place := top - digits
    match x.onGrid? tie place with
    | some coefficient => x.decimalOf coefficient place
    | none => shortestFrom tie x top (digits + 1) more

/-- The shortest decimal that reads back as the finite number `x`, and the nearest to it of
that length. -/
def shortest (tie : Tie) (x : Binary64) : Decimal :=
  if x.pattern = 0 then ⟨x.isNegative, 0, 0⟩
  else shortestFrom tie x (floorLog10 x.magnitude) 0 17

end Binary64

end Formula
