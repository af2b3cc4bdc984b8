/-
Positions in a text.
-/
import Formula.Json

namespace Formula

/-- A position in a text, counted in three ways. -/
structure Position where
  /-- The number of bytes before the position, in UTF-8. -/
  byte : Nat
  /-- The number of line breaks before the position. -/
  line : Nat
  /-- The number of characters since the last line break. -/
  column : Nat
  deriving DecidableEq

namespace Position

/-- The start of a text. -/
def start : Position := ⟨0, 0, 0⟩

/-- The position after the character `c`. -/
def after (p : Position) (c : Char) : Position :=
  if c = '\n' then ⟨p.byte + c.utf8Size, p.line + 1, 0⟩
  else ⟨p.byte + c.utf8Size, p.line, p.column + 1⟩

/-- The number of the line for a reader, who counts from one. -/
def lineNumber (p : Position) : Nat := p.line + 1

/-- The position as JSON. -/
def json (p : Position) : Json :=
  .object [("byte", .count p.byte), ("line", .count p.line), ("column", .count p.column)]

end Position

end Formula
