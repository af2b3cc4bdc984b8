/-
Blanks: the characters with the Unicode property White_Space.

Blanks separate lexemes and mean nothing themselves.
-/
import Formula.Text.Ranges

namespace Formula.Text

/-- The code points with the property White_Space, as increasing inclusive ranges. -/
def blanks : Ranges :=
  [(0x09, 0x0D), (0x20, 0x20), (0x85, 0x85), (0xA0, 0xA0), (0x1680, 0x1680), (0x2000, 0x200A),
   (0x2028, 0x2029), (0x202F, 0x202F), (0x205F, 0x205F), (0x3000, 0x3000)]

theorem blanks_increasing : increasingFrom 0 blanks = true := by decide +kernel

/-- Whether a character is a blank. -/
def isBlank (c : Char) : Bool := covers blanks c.toNat

end Formula.Text
