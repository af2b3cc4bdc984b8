/-
Putting several lines of text on one.
-/
import Formula.Text.Blank

namespace Formula.Text

/-- A line without the blanks at its start and at its end. -/
def trim (line : List Char) : List Char :=
  ((line.dropWhile isBlank).reverse.dropWhile isBlank).reverse

/-- The lines of a text, each without the blanks around it. -/
def trimmedLines (text : String) : List String :=
  (text.toList.splitOn '\n').map fun line => String.ofList (trim line)

/-- All lines of some rows of text on one line, with commas between them. -/
def onOneLine (rows : List String) : String :=
  ",".intercalate (rows.flatMap trimmedLines)

end Formula.Text
