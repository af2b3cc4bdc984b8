/-
What kind of lexeme a character starts.

The kinds are tried in a fixed order, so a character that would fit several belongs to the
first.  Names start with a letter or an underscore; numbers start with a digit or a point.
-/
import Formula.Operator
import Formula.Text.Blank
import Formula.Text.Letter
import Formula.Text.Numeral

namespace Formula

/-- The kinds of lexemes, by the character that starts them. -/
inductive Lexeme where
  | number
  | identifier
  | operator (op : Operator)
  | openBracket
  | closeBracket
  | separator
  | quote
  | blank
  | endOfText
  | unknown (c : Char)
  deriving DecidableEq

/-- Whether a name can start with the character. -/
def startsIdentifier (c : Char) : Bool := Text.isLetter c || c = '_'

/-- Whether a name can have the character after its first one. -/
def continuesIdentifier (c : Char) : Bool := Text.isLetter c || Text.isNumeral c || c = '_'

/-- Whether the mantissa of a number can have the character. -/
def continuesNumber (c : Char) : Bool := c.isDigit || c = '.'

/-- Whether the character is a mark around quoted text. -/
def isQuoteMark (c : Char) : Bool := c = '\x22' || c = '\x27'

namespace Lexeme

/-- The kind of lexeme that a character starts, operators apart. -/
def ofOther (c : Char) : Lexeme :=
  if continuesNumber c then .number
  else if c = '(' then .openBracket
  else if c = ')' then .closeBracket
  else if c = ',' then .separator
  else if isQuoteMark c then .quote
  else if startsIdentifier c then .identifier
  else if Text.isBlank c then .blank
  else .unknown c

/-- The kind of lexeme that starts with the next character of a text, if there is one. -/
def starting : Option Char → Lexeme
  | none => .endOfText
  | some c =>
    match Operator.ofSymbol? c with
    | some op => .operator op
    | none => ofOther c

end Lexeme

end Formula
