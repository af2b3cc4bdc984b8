/-
How far literals and names reach.

A scanner in front of a number, a name or quoted text passes the longest piece of text that
looks like one.  Whether a number is well formed is decided afterwards, so that `1.2.3` is
one bad number rather than several good ones.
-/
import Formula.Source.Lexeme
import Formula.Source.Scanner

namespace Formula.Scanner

/-- Whether the next character has a property. -/
def nextIs (p : Char → Bool) (s : Scanner) : Bool := s.peek.any p

/-- Passes a sign, if one comes next. -/
def passSign (s : Scanner) : Scanner :=
  if s.nextIs fun c => c = '+' || c = '-' then s.advance else s

/-- Passes an exponent, if one comes next: the letter, a sign and any number of digits. -/
def passExponent (s : Scanner) : Scanner :=
  if s.nextIs fun c => c = 'e' || c = 'E' then s.advance.passSign.advanceWhile Char.isDigit else s

/-- Passes a number: digits and points, and an exponent. -/
def passNumber (s : Scanner) : Scanner := (s.advanceWhile continuesNumber).passExponent

/-- Passes a name. -/
def passIdentifier (s : Scanner) : Scanner := s.advance.advanceWhile continuesIdentifier

/-- Drops the quote that comes next and passes the text up to the same quote. -/
def passQuoted (quote : Char) (s : Scanner) : Scanner :=
  s.advance.ignore.advanceWhile (· ≠ quote)

end Formula.Scanner
