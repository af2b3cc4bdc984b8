/-
A scanner cuts a text into lexemes.

It is a cursor with a mark behind it.  The characters between the mark and the cursor are
pending: committing them takes them as a lexeme, ignoring them drops them, and both move the
mark to the cursor.  If a step back has put the cursor before the mark, nothing is pending.
-/
import Formula.Source.Cursor
import Formula.Text.Blank

namespace Formula

/-- A cursor together with the place where the pending lexeme starts. -/
structure Scanner where
  /-- Where the scanner has got to. -/
  cursor : Cursor
  /-- Where the pending lexeme starts. -/
  mark : Place
  deriving DecidableEq

namespace Scanner

/-- The scanner at the start of a text. -/
def ofText (text : String) : Scanner := ⟨.ofText text, .ofText text⟩

/-- The characters that have not been passed. -/
def rest (s : Scanner) : List Char := s.cursor.here.rest

/-- The next character. -/
def peek (s : Scanner) : Option Char := s.cursor.peek

/-- Whether the scanner is at the end of the text. -/
def atEnd (s : Scanner) : Bool := s.cursor.atEnd

/-- The number of the line that the scanner is on, counted from one. -/
def lineNumber (s : Scanner) : Nat := s.cursor.position.lineNumber

/-- Passes the next character, the one that `peek` shows. -/
def advance (s : Scanner) : Scanner := { s with cursor := s.cursor.advance }

/-- Takes the last step back. -/
def backup (s : Scanner) : Scanner := { s with cursor := s.cursor.backup }

/-- The characters from the mark to the cursor. -/
def pending (s : Scanner) : String :=
  String.ofList (s.mark.rest.take (s.cursor.here.offset - s.mark.offset))

/-- Moves the mark to the cursor. -/
def ignore (s : Scanner) : Scanner := { s with mark := s.cursor.here }

/-- Takes the pending characters as a lexeme. -/
def commit (s : Scanner) : String × Scanner := (s.pending, s.ignore)

/-- Passes `n` characters, or all that are left if there are fewer. -/
def advanceBy : Nat → Scanner → Scanner
  | 0, s => s
  | n + 1, s => if s.atEnd then s else advanceBy n s.advance

/-- Passes the longest run of characters that all have the property `p`. -/
def advanceWhile (p : Char → Bool) (s : Scanner) : Scanner :=
  advanceBy (s.rest.takeWhile p).length s

/-- Drops the pending characters and the blanks that follow. -/
def skipBlanks (s : Scanner) : Scanner := (s.advanceWhile Text.isBlank).ignore

/-! ### What is left to read -/

@[simp] theorem rest_advance (s : Scanner) : s.advance.rest = s.rest.tail :=
  s.cursor.rest_advance

@[simp] theorem rest_ignore (s : Scanner) : s.ignore.rest = s.rest := rfl

@[simp] theorem rest_advanceBy (n : Nat) (s : Scanner) :
    (advanceBy n s).rest = s.rest.drop n := by
  induction n generalizing s with
  | zero => rfl
  | succ n ih =>
    rw [advanceBy]
    split
    · next h =>
      have hnil : s.rest = [] := List.isEmpty_iff.mp h
      simp [hnil]
    · rw [ih, rest_advance, List.drop_tail]

/-- After the longest run of characters with a property comes one without it. -/
@[simp] theorem rest_advanceWhile (p : Char → Bool) (s : Scanner) :
    (s.advanceWhile p).rest = s.rest.dropWhile p := by
  rw [advanceWhile, rest_advanceBy]
  conv => lhs; rhs; rw [← List.takeWhile_append_dropWhile (p := p) (l := s.rest)]
  exact List.drop_left

end Scanner

end Formula
