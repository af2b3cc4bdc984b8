/-
The text of finite numbers.

All styles show the digits of the shortest decimal that reads back.  They differ in the
sizes that are written positionally rather than with an exponent, in whether a whole number
keeps a fraction, and in how a tie between two shortest decimals is broken.
-/
import Formula.Number.Shortest

namespace Formula

/-- How finite numbers are written. -/
structure NumberStyle where
  /-- Which of two equally near shortest decimals is written. -/
  tie : Tie
  /-- Whether a number is written without an exponent, by the place of its point: the number
  of digits before the point, or minus the number of zeros after it. -/
  positional : Int → Bool
  /-- Whether a whole number is written with the fraction `.0`. -/
  keepsFraction : Bool

namespace NumberStyle

/-- Digits with the point at a given place and no exponent. -/
def positionalText (style : NumberStyle) (digits : List Char) (point : Int) : List Char :=
  if point ≤ 0 then '0' :: '.' :: (List.replicate point.natAbs '0' ++ digits)
  else if digits.length ≤ point then
    digits ++ List.replicate (point.toNat - digits.length) '0' ++
      (if style.keepsFraction then ['.', '0'] else [])
  else digits.take point.toNat ++ '.' :: digits.drop point.toNat

/-- The first digit, a point and the other digits if there are any, and an exponent of ten
that always shows its sign. -/
def scientificText (digits : List Char) (point : Int) : List Char :=
  let exponent := point - 1
  digits.take 1 ++ (if digits.length ≤ 1 then [] else '.' :: digits.drop 1) ++
    'e' :: (if exponent < 0 then '-' else '+') :: Nat.toDigits 10 exponent.natAbs

/-- The text of a finite number. -/
def write (style : NumberStyle) (x : Binary64) : List Char :=
  let decimal := x.shortest style.tie
  let digits := Nat.toDigits 10 decimal.coefficient
  let point := digits.length + decimal.exponent
  let magnitude :=
    if style.positional point then style.positionalText digits point
    else scientificText digits point
  if x.isNegative then '-' :: magnitude else magnitude

end NumberStyle

end Formula
