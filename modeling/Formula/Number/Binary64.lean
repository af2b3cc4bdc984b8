/-
Binary floating-point numbers of 64 bits.

A number is its bit pattern: one sign bit, eleven bits of exponent and fifty-two of
fraction.  Below the sign bit the patterns of the finite magnitudes count upwards in the
order of their values, from zero to the largest finite one; the pattern after that one is
infinity, and the patterns above infinity are not numbers.

`magnitude` gives the exact value of a finite pattern as a rational, so that reading and
writing numbers need no floating-point arithmetic at all.
-/

namespace Formula

/-- A binary floating-point number of 64 bits, by its bit pattern. -/
structure Binary64 where
  /-- The sign bit, the exponent and the fraction, from the highest bit to the lowest. -/
  bits : UInt64
  deriving DecidableEq, Inhabited

namespace Binary64

/-- The weight of the lowest bit of the exponent: the number of fractions. -/
def fractions : Nat := Nat.pow 2 52

/-- The pattern of positive infinity, which is above that of every finite magnitude. -/
def infinityPattern : Nat := 2047 * fractions

/-- The weight of the sign bit. -/
def signWeight : Nat := Nat.pow 2 63

/-- The pattern without its sign bit. -/
def pattern (x : Binary64) : Nat := x.bits.toNat % signWeight

/-- Whether the sign bit is set. -/
def isNegative (x : Binary64) : Bool := signWeight ≤ x.bits.toNat

/-- Whether the pattern stands for no number. -/
def isNaN (x : Binary64) : Bool := infinityPattern < x.pattern

/-- Whether the pattern stands for a number that is not infinite. -/
def isFinite (x : Binary64) : Bool := x.pattern < infinityPattern

/-- The number with the given sign and pattern. -/
def ofPattern (negative : Bool) (pattern : Nat) : Binary64 :=
  ⟨UInt64.ofNat (if negative then signWeight + pattern else pattern)⟩

/-- The whole number of units that makes up a finite magnitude: the fraction, and above the
smallest exponent also the bit that the pattern leaves out. -/
def significand (x : Binary64) : Nat :=
  if x.pattern < fractions then x.pattern else fractions + x.pattern % fractions

/-- The exponent of two of the unit that a finite magnitude is counted in. -/
def unitExponent (x : Binary64) : Int :=
  (max (x.pattern / fractions) 1 : Nat) - 1075

/-- The exact magnitude of a finite number. -/
def magnitude (x : Binary64) : Rat := x.significand * (2 : Rat) ^ x.unitExponent

/-- Equality of numbers rather than of patterns: both zeros are equal, and a pattern that
stands for no number equals nothing, itself included. -/
def equals (x y : Binary64) : Bool :=
  !x.isNaN && !y.isNaN && (x.bits == y.bits || (x.pattern == 0 && y.pattern == 0))

end Binary64

end Formula
