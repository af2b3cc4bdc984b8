/-
Text shown between quotes, so that a reader can see every character of it.

The quote mark itself, the backslash and the four common controls have short escapes.  A
character that would not show on its own, because it attaches to its neighbour, is ignored
or prints nothing, is written as its code point in hexadecimal.  All others stand for themselves.
-/
import Formula.Text.Combining
import Formula.Text.Ignorable
import Formula.Text.Unprintable

namespace Formula.Text

/-- The mark around quoted text. -/
def doubleQuote : Char := '\x22'

/-- The mark around a single quoted character. -/
def singleQuote : Char := '\x27'

/-- The escape of a character by its code point: lower-case hexadecimal, not padded. -/
def codePointEscape (c : Char) : List Char :=
  ['\\', 'u', '\x7b'] ++ Nat.toDigits 16 c.toNat ++ ['\x7d']

/-- How the character `c` is written between two `quote` marks. -/
def escape (quote c : Char) : List Char :=
  if c = '\x00' then ['\\', '0']
  else if c = '\t' then ['\\', 't']
  else if c = '\r' then ['\\', 'r']
  else if c = '\n' then ['\\', 'n']
  else if c = '\\' || c = quote then ['\\', c]
  else if isCombining c || isIgnorable c || isUnprintable c then codePointEscape c
  else [c]

/-- The characters of `text`, each as it is written between two `quote` marks, with the marks. -/
def quoted (quote : Char) (text : List Char) : List Char :=
  quote :: (text.flatMap (escape quote) ++ [quote])

/-- A text between double quotes. -/
def quotedText (text : String) : String :=
  String.ofList (quoted doubleQuote text.toList)

/-- A character between single quotes. -/
def quotedChar (c : Char) : String :=
  String.ofList (quoted singleQuote [c])

end Formula.Text
