/-
Decimal literals: what a number looks like in a formula.

A literal has an optional sign, digits with at most one point among them and at least one
digit, and an optional exponent of ten with a sign of its own.  It is read as a whole number
times a power of ten.  All digits of the number count, however many there are; the digits of
an exponent count until it has reached a limit.  `Decimal.toBinary64?` rounds the value, and
refuses what is too large for a finite number.
-/
import Formula.Number.Rounding

namespace Formula

/-- A decimal number: a sign, and `coefficient` times ten to the power `exponent`. -/
structure Decimal where
  negative : Bool
  coefficient : Nat
  exponent : Int
  deriving DecidableEq

namespace Decimal

/-- The value of a decimal digit. -/
def digitValue (c : Char) : Nat := c.toNat - 48

/-- The whole number that a sequence of digits spells. -/
def natOfDigits (digits : List Char) : Nat :=
  digits.foldl (fun n c => 10 * n + digitValue c) 0

/-- The number that a sequence of digits spells, put together from its two halves, which are
halved again `depth` times.  A long sequence takes a few large multiplications this way
rather than one for each digit. -/
def natOfHalves : (depth : Nat) → List Char → Nat
  | 0, digits => natOfDigits digits
  | depth + 1, digits =>
    let low := digits.length / 2
    let high := digits.length - low
    natOfHalves depth (digits.take high) * Nat.pow 10 low + natOfHalves depth (digits.drop high)

theorem foldl_digits (n : Nat) (digits : List Char) :
    digits.foldl (fun n c => 10 * n + digitValue c) n =
      n * Nat.pow 10 digits.length + natOfDigits digits := by
  induction digits generalizing n with
  | nil => simp [natOfDigits]
  | cons c digits ih =>
    simp only [natOfDigits, List.foldl_cons, List.length_cons] at ih ⊢
    rw [ih, ih (10 * 0 + digitValue c), Nat.pow]
    grind

/-- Digits are worth more by a power of ten for each digit after them. -/
theorem natOfDigits_append (first last : List Char) :
    natOfDigits (first ++ last) =
      natOfDigits first * Nat.pow 10 last.length + natOfDigits last := by
  rw [natOfDigits, List.foldl_append, foldl_digits]
  rfl

/-- Halving does not change the number. -/
theorem natOfHalves_eq (depth : Nat) (digits : List Char) :
    natOfHalves depth digits = natOfDigits digits := by
  induction depth generalizing digits with
  | zero => rfl
  | succ depth ih =>
    have hlow : digits.length - (digits.length - digits.length / 2) = digits.length / 2 := by
      omega
    rw [natOfHalves, ih, ih]
    conv => rhs; rw [← List.take_append_drop (digits.length - digits.length / 2) digits]
    rw [natOfDigits_append, List.length_drop, hlow]

/-- The coefficient that digits spell, halved until the pieces are short. -/
def coefficientOf (digits : List Char) : Nat :=
  natOfHalves (Nat.log2 (digits.length / 64)) digits

/-- The size from which on an exponent takes no more digits. -/
def exponentLimit : Nat := 65536

/-- The size of the exponent that a sequence of digits spells.  Digits count until the limit
is reached, and those after that are passed over: an exponent of that size is beyond the
range of numbers unless tens of thousands of digits balance it. -/
def exponentOf (digits : List Char) : Nat :=
  digits.foldl (fun n c => if n < exponentLimit then 10 * n + digitValue c else n) 0

/-- Splits off a sign: whether it was a minus, and the rest of the text. -/
def splitSign : List Char → Bool × List Char
  | '-' :: rest => (true, rest)
  | '+' :: rest => (false, rest)
  | text => (false, text)

/-- Splits the digits of a literal from what follows them: the digits before the point, the
digits after it, and the rest of the text. -/
def splitDigits (text : List Char) : List Char × List Char × List Char :=
  let whole := text.takeWhile Char.isDigit
  match text.dropWhile Char.isDigit with
  | '.' :: rest => (whole, rest.takeWhile Char.isDigit, rest.dropWhile Char.isDigit)
  | rest => (whole, [], rest)

/-- The exponent that ends a literal: zero if nothing is left of the text, and otherwise the
letter `e` or `E`, an optional sign and at least one digit. -/
def exponent? : List Char → Option Int
  | [] => some 0
  | c :: rest =>
    let (negative, digits) := splitSign rest
    if (c = 'e' || c = 'E') && !digits.isEmpty && digits.all Char.isDigit then
      let n : Int := exponentOf digits
      some (if negative then -n else n)
    else none

/-- Reads a literal. -/
def ofText? (text : List Char) : Option Decimal :=
  let (negative, unsigned) := splitSign text
  let (whole, fraction, rest) := splitDigits unsigned
  if whole.isEmpty && fraction.isEmpty then none
  else (exponent? rest).map fun exponent =>
    ⟨negative, coefficientOf (whole ++ fraction), exponent - fraction.length⟩

/-- The exact magnitude. -/
def magnitude (d : Decimal) : Rat := d.coefficient * (10 : Rat) ^ d.exponent

/-- Whether the exponent alone puts a coefficient above zero out of the finite range. -/
def isHuge (d : Decimal) : Bool := d.coefficient ≠ 0 && 309 ≤ d.exponent

/-- Whether the exponent alone brings the magnitude to zero, or below half of the smallest
number above zero: a coefficient of `b` bits times ten to the power `-n` is less than two to
the power `b - 3 * n`. -/
def isTiny (d : Decimal) : Bool :=
  d.coefficient = 0 || (d.exponent < 0 && Nat.log2 d.coefficient + 1077 ≤ 3 * d.exponent.natAbs)

/-- The nearest finite number, if there is one.  Exponents far out of range are decided
without writing their power of ten down. -/
def toBinary64? (d : Decimal) : Option Binary64 :=
  if d.isHuge then none
  else
    let x := Binary64.nearest d.negative (if d.isTiny then 0 else d.magnitude)
    if x.isFinite then some x else none

end Decimal

/-- The finite number that a literal stands for. -/
def Binary64.ofText? (text : String) : Option Binary64 :=
  (Decimal.ofText? text.toList).bind Decimal.toBinary64?

end Formula
