/-
A cursor in a text: the character to come can be looked at and passed, and the last step can
be taken back.

Only one step back is remembered.  Taking it uses it up, and so does trying to advance at
the end of the text.
-/
import Formula.Source.Position

namespace Formula

/-- A place in a text together with the text from there on. -/
structure Place where
  /-- The position of the place. -/
  position : Position
  /-- The number of characters before the place. -/
  offset : Nat
  /-- The characters after the place. -/
  rest : List Char
  deriving DecidableEq

namespace Place

/-- The start of a text. -/
def ofText (text : String) : Place := ⟨.start, 0, text.toList⟩

/-- The place after the next character; the end of the text stays where it is. -/
def next (p : Place) : Place :=
  match p.rest with
  | [] => p
  | c :: rest => ⟨p.position.after c, p.offset + 1, rest⟩

end Place

/-- A cursor in a text. -/
structure Cursor where
  /-- Where the cursor is. -/
  here : Place
  /-- Where the cursor was before its last step, unless that has been taken back. -/
  previous : Option Place
  deriving DecidableEq

namespace Cursor

/-- The cursor at the start of a text. -/
def ofText (text : String) : Cursor := ⟨.ofText text, none⟩

/-- The position of the cursor. -/
def position (c : Cursor) : Position := c.here.position

/-- The next character. -/
def peek (c : Cursor) : Option Char := c.here.rest.head?

/-- Whether the cursor is at the end of the text. -/
def atEnd (c : Cursor) : Bool := c.here.rest.isEmpty

/-- Passes the next character, the one that `peek` shows.  At the end of the text the cursor
stays, and forgets its last step. -/
def advance (c : Cursor) : Cursor :=
  if c.atEnd then ⟨c.here, none⟩ else ⟨c.here.next, some c.here⟩

/-- Takes the last step back, if it is remembered. -/
def backup (c : Cursor) : Cursor :=
  match c.previous with
  | some place => ⟨place, none⟩
  | none => c

/-- Advancing passes one character, if there is one. -/
@[simp] theorem rest_advance (c : Cursor) : c.advance.here.rest = c.here.rest.tail := by
  unfold advance atEnd
  split
  · next h => rw [List.isEmpty_iff.mp h]; rfl
  · next h =>
    cases hrest : c.here.rest with
    | nil => simp [hrest] at h
    | cons => simp [Place.next, hrest]

end Cursor

end Formula
