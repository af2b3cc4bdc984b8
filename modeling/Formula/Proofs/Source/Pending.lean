/-
What a scanner holds.

A scanner that has been started in front of a text is described by three things: the
characters that are pending, the characters that are still to come, and the number of the
line.  `Scanner.Holds` says so, and every move of a scanner changes the three in a way that
does not depend on anything else.  Steps back are not needed for reading formulas.
-/
import Formula.Source.Literal

namespace Formula

/-- The number of line breaks in a text. -/
def lineBreaks (text : List Char) : Nat := text.count '\n'

@[simp] theorem lineBreaks_nil : lineBreaks [] = 0 := rfl

@[simp] theorem lineBreaks_append (first last : List Char) :
    lineBreaks (first ++ last) = lineBreaks first + lineBreaks last :=
  List.count_append

theorem lineBreaks_cons (c : Char) (text : List Char) :
    lineBreaks (c :: text) = lineBreaks [c] + lineBreaks text :=
  lineBreaks_append [c] text

theorem lineBreaks_singleton (c : Char) : lineBreaks [c] = if c = '\n' then 1 else 0 := by
  by_cases h : c = '\n' <;> simp [lineBreaks, h]

/-- Text without blanks is on one line. -/
theorem lineBreaks_of_forall {text : List Char} (h : ∀ c ∈ text, Text.isBlank c = false) :
    lineBreaks text = 0 := by
  refine List.count_eq_zero.mpr fun hmem => ?_
  exact absurd (h '\n' hmem) (by decide)

/-- The longest run of characters with a property, by its length. -/
theorem drop_length_takeWhile {α : Type} (p : α → Bool) (text : List α) :
    text.drop (text.takeWhile p).length = text.dropWhile p := by
  conv => lhs; rhs; rw [← List.takeWhile_append_dropWhile (p := p) (l := text)]
  exact List.drop_left

theorem take_length_takeWhile {α : Type} (p : α → Bool) (text : List α) :
    text.take (text.takeWhile p).length = text.takeWhile p := by
  conv => lhs; rhs; rw [← List.takeWhile_append_dropWhile (p := p) (l := text)]
  exact List.take_left

/-! ### How far a number reaches -/

/-- The sign that a text starts with. -/
def signSpan : List Char → List Char
  | c :: _ => if c = '+' || c = '-' then [c] else []
  | [] => []

/-- The exponent that a text starts with: the letter, a sign and any number of digits. -/
def exponentSpan : List Char → List Char
  | c :: text =>
    if c = 'e' || c = 'E' then
      c :: (signSpan text ++ (text.drop (signSpan text).length).takeWhile Char.isDigit)
    else []
  | [] => []

/-- The number that a text starts with: the longest run of digits and points, and an
exponent. -/
def numberSpan (text : List Char) : List Char :=
  text.takeWhile continuesNumber ++ exponentSpan (text.dropWhile continuesNumber)

/-- What a text goes on with after something that it starts with. -/
theorem signSpan_append_drop (text : List Char) :
    signSpan text ++ text.drop (signSpan text).length = text := by
  cases text with
  | nil => rfl
  | cons c text => rw [signSpan]; split <;> simp

theorem exponentSpan_append_drop (text : List Char) :
    exponentSpan text ++ text.drop (exponentSpan text).length = text := by
  cases text with
  | nil => rfl
  | cons c text =>
      rw [exponentSpan]
      split
      · rw [List.length_cons, List.drop_succ_cons, List.cons_append, List.length_append,
          ← List.drop_drop, List.append_assoc, drop_length_takeWhile,
          List.takeWhile_append_dropWhile, signSpan_append_drop]
      · simp

/-- Behind the mantissa and the exponent is behind the number. -/
theorem drop_exponentSpan (text : List Char) :
    (text.dropWhile continuesNumber).drop
        (exponentSpan (text.dropWhile continuesNumber)).length =
      text.drop (numberSpan text).length := by
  rw [numberSpan, List.length_append, ← List.drop_drop, drop_length_takeWhile]

theorem numberSpan_append_drop (text : List Char) :
    numberSpan text ++ text.drop (numberSpan text).length = text := by
  rw [← drop_exponentSpan, numberSpan, List.append_assoc, exponentSpan_append_drop,
    List.takeWhile_append_dropWhile]

namespace Scanner

/-- The scanner is in front of `rest` on the line `line`, and `pending` is what it has passed
since the mark. -/
structure Holds (s : Scanner) (pending rest : List Char) (line : Nat) : Prop where
  rest_eq : s.rest = rest
  mark_rest : s.mark.rest = pending ++ rest
  offset_eq : s.cursor.here.offset = s.mark.offset + pending.length
  line_eq : s.lineNumber = line

theorem holds_ofText (text : String) : (ofText text).Holds [] text.toList 1 :=
  ⟨rfl, rfl, rfl, rfl⟩

namespace Holds

variable {s : Scanner} {pending rest : List Char} {line : Nat}

/-! ### Looking -/

theorem peek_eq (h : s.Holds pending rest line) : s.peek = rest.head? := by
  rw [← h.rest_eq]
  rfl

theorem atEnd_eq (h : s.Holds pending rest line) : s.atEnd = rest.isEmpty := by
  rw [← h.rest_eq]
  rfl

theorem pending_eq (h : s.Holds pending rest line) : s.pending = String.ofList pending := by
  rw [Scanner.pending, h.offset_eq, h.mark_rest, Nat.add_sub_cancel_left, List.take_left']
  rfl

/-! ### Moving -/

theorem ignore (h : s.Holds pending rest line) : s.ignore.Holds [] rest line :=
  ⟨h.rest_eq, h.rest_eq, rfl, h.line_eq⟩

theorem advance {c : Char} (h : s.Holds pending (c :: rest) line) :
    s.advance.Holds (pending ++ [c]) rest (line + lineBreaks [c]) := by
  have hhere : s.cursor.here.rest = c :: rest := h.rest_eq
  have hnext : s.advance.cursor.here =
      ⟨s.cursor.here.position.after c, s.cursor.here.offset + 1, rest⟩ := by
    simp [Scanner.advance, Cursor.advance, Cursor.atEnd, Place.next, hhere]
  refine ⟨?_, ?_, ?_, ?_⟩
  · rw [rest_advance, h.rest_eq]
    rfl
  · have hmark : s.advance.mark = s.mark := rfl
    rw [hmark, h.mark_rest, List.append_assoc]
    rfl
  · have hoffset := h.offset_eq
    have hmark : s.advance.mark = s.mark := rfl
    rw [hnext, hmark, List.length_append, List.length_singleton]
    show s.cursor.here.offset + 1 = _
    omega
  · have hline : s.cursor.here.position.line + 1 = line := h.line_eq
    rw [lineNumber, Cursor.position, hnext, Position.lineNumber, Position.after,
      lineBreaks_singleton]
    split
    · rw [← hline]
    · exact hline

theorem advance_nil (h : s.Holds pending [] line) : s.advance.Holds pending [] line := by
  have hhere : s.cursor.here.rest = [] := h.rest_eq
  have hstay : s.advance.cursor.here = s.cursor.here := by
    simp [Scanner.advance, Cursor.advance, Cursor.atEnd, hhere]
  refine ⟨?_, h.mark_rest, ?_, ?_⟩
  · rw [Scanner.rest, hstay]
    exact hhere
  · rw [hstay]
    exact h.offset_eq
  · rw [lineNumber, Cursor.position, hstay]
    exact h.line_eq

theorem advanceBy (n : Nat) (h : s.Holds pending rest line) :
    (Scanner.advanceBy n s).Holds (pending ++ rest.take n) (rest.drop n)
      (line + lineBreaks (rest.take n)) := by
  induction n generalizing s pending rest line with
  | zero => simpa [Scanner.advanceBy] using h
  | succ n ih =>
      rw [Scanner.advanceBy, h.atEnd_eq]
      cases rest with
      | nil => simpa using h
      | cons c rest =>
          have hmoved := ih h.advance
          rw [List.take_succ_cons, lineBreaks_cons, List.drop_succ_cons]
          simpa [Nat.add_assoc] using hmoved

theorem advanceWhile (p : Char → Bool) (h : s.Holds pending rest line) :
    (s.advanceWhile p).Holds (pending ++ rest.takeWhile p) (rest.dropWhile p)
      (line + lineBreaks (rest.takeWhile p)) := by
  have hmoved := h.advanceBy (rest.takeWhile p).length
  rw [take_length_takeWhile, drop_length_takeWhile] at hmoved
  rw [Scanner.advanceWhile, h.rest_eq]
  exact hmoved

theorem skipBlanks (h : s.Holds pending rest line) :
    s.skipBlanks.Holds [] (rest.dropWhile Text.isBlank)
      (line + lineBreaks (rest.takeWhile Text.isBlank)) :=
  (h.advanceWhile Text.isBlank).ignore

/-! ### Passing literals and names -/

theorem passSign (h : s.Holds pending rest line) :
    s.passSign.Holds (pending ++ signSpan rest) (rest.drop (signSpan rest).length)
      (line + lineBreaks (signSpan rest)) := by
  rw [Scanner.passSign, nextIs, h.peek_eq]
  cases rest with
  | nil => simpa [signSpan] using h
  | cons c rest =>
      by_cases hc : c = '+' || c = '-'
      · simpa [signSpan, hc] using h.advance
      · simpa [signSpan, hc] using h

theorem passExponent (h : s.Holds pending rest line) :
    s.passExponent.Holds (pending ++ exponentSpan rest) (rest.drop (exponentSpan rest).length)
      (line + lineBreaks (exponentSpan rest)) := by
  rw [Scanner.passExponent, nextIs, h.peek_eq]
  cases rest with
  | nil => simpa [exponentSpan] using h
  | cons c rest =>
      by_cases hc : c = 'e' || c = 'E'
      · have hmoved := (h.advance.passSign).advanceWhile Char.isDigit
        simp only [exponentSpan, hc, if_true, List.length_cons, List.drop_succ_cons,
          List.length_append, ← List.drop_drop, drop_length_takeWhile]
        rw [lineBreaks_cons, lineBreaks_append]
        simpa [hc, Nat.add_assoc] using hmoved
      · simpa [exponentSpan, hc] using h

theorem passNumber (h : s.Holds pending rest line) :
    s.passNumber.Holds (pending ++ numberSpan rest) (rest.drop (numberSpan rest).length)
      (line + lineBreaks (numberSpan rest)) := by
  have hmoved := (h.advanceWhile continuesNumber).passExponent
  rw [drop_exponentSpan] at hmoved
  simpa [numberSpan, Scanner.passNumber, Nat.add_assoc] using hmoved

theorem passIdentifier {c : Char} (h : s.Holds pending (c :: rest) line) :
    s.passIdentifier.Holds (pending ++ c :: rest.takeWhile continuesIdentifier)
      (rest.dropWhile continuesIdentifier)
      (line + lineBreaks (c :: rest.takeWhile continuesIdentifier)) := by
  have hmoved := h.advance.advanceWhile continuesIdentifier
  rw [lineBreaks_cons]
  simpa [Scanner.passIdentifier, Nat.add_assoc] using hmoved

theorem passQuoted {quote : Char} (h : s.Holds pending (quote :: rest) line) :
    (s.passQuoted quote).Holds (rest.takeWhile (· ≠ quote)) (rest.dropWhile (· ≠ quote))
      (line + lineBreaks (quote :: rest.takeWhile (· ≠ quote))) := by
  have hmoved := h.advance.ignore.advanceWhile (· ≠ quote)
  rw [lineBreaks_cons]
  simpa [Scanner.passQuoted, Nat.add_assoc] using hmoved

end Holds

end Scanner

end Formula
