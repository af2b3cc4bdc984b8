/-
The places that a scanner gets to.

Whatever a scanner passes or drops, its mark and its cursor stay places of the text, and the
mark stays in front of the cursor: `Inside`.  The same holds if it looks at a character by
passing it and taking the step back.  So both are boundaries of characters, and what is pending
and what is still to come are what the text has there: `Within`.
-/
import Formula.Source.Literal

namespace Formula

/-! ### The places of a text -/

/-- The place behind the first `n` characters of a text. -/
def Place.after (text : String) : (n : Nat) → Place
  | 0 => .ofText text
  | n + 1 => (after text n).next

namespace Place

theorem rest_next (p : Place) : p.next.rest = p.rest.tail := by
  rw [next]
  split
  · next h => rw [h]; rfl
  · next h => rw [h]; rfl

theorem rest_after (text : String) (n : Nat) : (after text n).rest = text.toList.drop n := by
  induction n with
  | zero => rfl
  | succ n ih => rw [after, rest_next, ih, List.tail_drop]

/-- Behind a place at which there is a character. -/
theorem next_after {text : String} {n : Nat} (h : n < text.toList.length) :
    (after text n).next = ⟨(after text n).position.after text.toList[n],
      (after text n).offset + 1, text.toList.drop (n + 1)⟩ := by
  have hrest : (after text n).rest = text.toList[n] :: text.toList.drop (n + 1) := by
    rw [rest_after, List.drop_eq_getElem_cons h]
  simp only [next, hrest]

theorem offset_after {text : String} {n : Nat} (h : n ≤ text.toList.length) :
    (after text n).offset = n := by
  induction n with
  | zero => rfl
  | succ n ih => rw [after, next_after h, ih (Nat.le_of_succ_le h)]

/-- A place is as many bytes into the text as the characters before it have. -/
theorem byte_after {text : String} {n : Nat} (h : n ≤ text.toList.length) :
    (after text n).position.byte = (String.ofList (text.toList.take n)).utf8ByteSize := by
  induction n with
  | zero => rfl
  | succ n ih =>
      rw [after, next_after h, Position.after, List.take_succ_eq_append_getElem h,
        String.ofList_append, String.utf8ByteSize_append, ← String.singleton_eq_ofList,
        String.utf8ByteSize_singleton, ← ih (Nat.le_of_succ_le h)]
      split <;> rfl

/-- A place is on the line that the line breaks before it lead to. -/
theorem line_after {text : String} {n : Nat} (h : n ≤ text.toList.length) :
    (after text n).position.line = (text.toList.take n).count '\n' := by
  induction n with
  | zero => rfl
  | succ n ih =>
      rw [after, next_after h, Position.after, List.take_succ_eq_append_getElem h,
        List.count_append, ← ih (Nat.le_of_succ_le h)]
      split
      · next heq => rw [heq]; rfl
      · next hne => rw [List.count_singleton, if_neg (by simpa using hne)]; rfl

/-- A place is in the column that the characters behind the last line break before it lead to. -/
theorem column_after {text : String} {n : Nat} (h : n ≤ text.toList.length) :
    (after text n).position.column =
      ((text.toList.take n).reverse.takeWhile (· ≠ '\n')).length := by
  induction n with
  | zero => rfl
  | succ n ih =>
      rw [after, next_after h, Position.after, List.take_succ_eq_append_getElem h,
        List.reverse_append, List.reverse_singleton, List.singleton_append, List.takeWhile_cons]
      split
      · next heq => simp [heq]
      · next hne =>
          rw [if_pos (by simpa using hne), List.length_cons, ← ih (Nat.le_of_succ_le h)]

end Place

namespace Scanner

/-! ### Moving -/

/-- A scanner gets from one place to another by passing characters, by moving its mark to its
cursor, and by looking at a character that it passes and takes back. -/
inductive Passes (s : Scanner) : Scanner → Prop
  | refl : Passes s s
  | advance {t : Scanner} (h : Passes s t) : Passes s t.advance
  | ignore {t : Scanner} (h : Passes s t) : Passes s t.ignore
  | takeBack {t : Scanner} (h : Passes s t) : Passes s t.advance.backup

namespace Passes

variable {s t u : Scanner}

theorem trans (h : s.Passes t) (hbehind : t.Passes u) : s.Passes u := by
  induction hbehind with
  | refl => exact h
  | advance _ ih => exact ih.advance
  | ignore _ ih => exact ih.ignore
  | takeBack _ ih => exact ih.takeBack

theorem advanceBy (n : Nat) (h : s.Passes t) : s.Passes (t.advanceBy n) := by
  induction n generalizing t with
  | zero => exact h
  | succ n ih =>
      rw [Scanner.advanceBy]
      split
      · exact h
      · exact ih h.advance

theorem advanceWhile (p : Char → Bool) (h : s.Passes t) : s.Passes (t.advanceWhile p) :=
  h.advanceBy _

theorem skipBlanks (h : s.Passes t) : s.Passes t.skipBlanks := (h.advanceWhile _).ignore

theorem passSign (h : s.Passes t) : s.Passes t.passSign := by
  rw [Scanner.passSign]
  split
  · exact h.advance
  · exact h

theorem passNumber (h : s.Passes t) : s.Passes t.passNumber := by
  rw [Scanner.passNumber, passExponent]
  split
  · exact (h.advanceWhile _).advance.passSign.advanceWhile _
  · exact h.advanceWhile _

theorem passIdentifier (h : s.Passes t) : s.Passes t.passIdentifier := h.advance.advanceWhile _

theorem passQuoted (quote : Char) (h : s.Passes t) : s.Passes (t.passQuoted quote) :=
  h.advance.ignore.advanceWhile _

end Passes

/-- A look at the next character leaves the scanner in front of it. -/
theorem here_takeBack (s : Scanner) : s.advance.backup.cursor.here = s.cursor.here := by
  rw [backup, advance, Cursor.backup, Cursor.advance]
  by_cases h : s.cursor.atEnd
  · rw [if_pos h]
  · rw [if_neg h]

/-- Nothing that has been passed comes back. -/
theorem Passes.length_rest_le {s t : Scanner} (h : s.Passes t) :
    t.rest.length ≤ s.rest.length := by
  induction h with
  | refl => exact Nat.le_refl _
  | advance _ ih =>
      rw [rest_advance, List.length_tail]
      omega
  | ignore _ ih => exact ih
  | takeBack _ ih =>
      rw [rest, here_takeBack]
      exact ih

/-! ### Where a scanner is -/

/-- The mark and the cursor of the scanner are places of the text, in this order. -/
def Inside (text : String) (s : Scanner) : Prop :=
  ∃ m n, m ≤ n ∧ n ≤ text.toList.length ∧ s.mark = .after text m ∧ s.cursor.here = .after text n

/-- The mark and the cursor of the scanner are boundaries of characters, the mark not behind the
cursor.  The text consists of what is in front of the mark, what is pending and what is still to
come. -/
structure Within (text : String) (s : Scanner) : Prop where
  mark_isValid : (String.Pos.Raw.mk s.mark.position.byte).IsValid text
  cursor_isValid : (String.Pos.Raw.mk s.cursor.position.byte).IsValid text
  mark_le_cursor : s.mark.position.byte ≤ s.cursor.position.byte
  parts : ∃ before, text = before ++ s.pending ++ String.ofList s.rest ∧
    before.rawEndPos = ⟨s.mark.position.byte⟩ ∧
    (before ++ s.pending).rawEndPos = ⟨s.cursor.position.byte⟩

namespace Inside

variable {text : String} {s t : Scanner}

theorem ofText (text : String) : (Scanner.ofText text).Inside text :=
  ⟨0, 0, Nat.le_refl _, Nat.zero_le _, rfl, rfl⟩

theorem ignore (h : s.Inside text) : s.ignore.Inside text := by
  obtain ⟨-, n, -, hn, -, hhere⟩ := h
  exact ⟨n, n, Nat.le_refl n, hn, hhere, hhere⟩

theorem advance (h : s.Inside text) : s.advance.Inside text := by
  obtain ⟨m, n, hmn, hn, hmark, hhere⟩ := h
  rw [Scanner.advance, Cursor.advance]
  by_cases hend : s.cursor.atEnd
  · rw [if_pos hend]
    exact ⟨m, n, hmn, hn, hmark, hhere⟩
  · rw [if_neg hend]
    have hlt : n < text.toList.length := by
      rw [Cursor.atEnd, hhere, Place.rest_after, List.isEmpty_iff, List.drop_eq_nil_iff] at hend
      omega
    refine ⟨m, n + 1, by omega, hlt, hmark, ?_⟩
    rw [Place.after, ← hhere]

theorem takeBack (h : s.Inside text) : s.advance.backup.Inside text := by
  obtain ⟨m, n, hmn, hn, hmark, hhere⟩ := h
  exact ⟨m, n, hmn, hn, hmark, s.here_takeBack.trans hhere⟩

/-- **No move takes a scanner out of the text.** -/
theorem passes (h : s.Inside text) (hpasses : s.Passes t) : t.Inside text := by
  induction hpasses with
  | refl => exact h
  | advance _ ih => exact ih.advance
  | ignore _ ih => exact ih.ignore
  | takeBack _ ih => exact ih.takeBack

/-- What is pending is what the text has between the mark and the cursor. -/
theorem pending_eq {m n : Nat} (hmn : m ≤ n) (hn : n ≤ text.toList.length)
    (hmark : s.mark = .after text m) (hhere : s.cursor.here = .after text n) :
    s.pending = String.ofList ((text.toList.drop m).take (n - m)) := by
  rw [pending, hmark, hhere, Place.rest_after, Place.offset_after hn,
    Place.offset_after (Nat.le_trans hmn hn)]

theorem within (h : s.Inside text) : s.Within text := by
  obtain ⟨m, n, hmn, hn, hmark, hhere⟩ := h
  have hpending := pending_eq hmn hn hmark hhere
  have hmarkByte : (String.ofList (text.toList.take m)).rawEndPos =
      ⟨s.mark.position.byte⟩ := by
    rw [hmark, Place.byte_after (Nat.le_trans hmn hn)]
    rfl
  have hcut : String.ofList (text.toList.take m) ++ s.pending =
      String.ofList (text.toList.take n) := by
    rw [hpending, ← String.ofList_append, ← List.take_add]
    congr 2
    omega
  have hcursorByte : (String.ofList (text.toList.take m) ++ s.pending).rawEndPos =
      ⟨s.cursor.position.byte⟩ := by
    rw [hcut, Cursor.position, hhere, Place.byte_after hn]
    rfl
  have htext : text = String.ofList (text.toList.take m) ++ s.pending ++
      String.ofList s.rest := by
    rw [hcut, rest, hhere, Place.rest_after, ← String.ofList_append, List.take_append_drop,
      String.ofList_toList]
  refine ⟨?_, ?_, ?_, _, htext, hmarkByte, hcursorByte⟩
  · refine String.Pos.Raw.isValid_iff_exists_append.mpr
      ⟨_, s.pending ++ String.ofList s.rest, ?_, hmarkByte.symm⟩
    rw [← String.append_assoc]
    exact htext
  · exact String.Pos.Raw.isValid_iff_exists_append.mpr ⟨_, _, htext, hcursorByte.symm⟩
  · have hsize : (String.ofList (text.toList.take m)).utf8ByteSize = s.mark.position.byte :=
      congrArg String.Pos.Raw.byteIdx hmarkByte
    have hsizes : (String.ofList (text.toList.take m) ++ s.pending).utf8ByteSize =
        s.cursor.position.byte := congrArg String.Pos.Raw.byteIdx hcursorByte
    rw [String.utf8ByteSize_append] at hsizes
    omega

end Inside

/-- **Wherever a scanner gets to in a text, it is within the text.** -/
theorem Passes.within {text : String} {s t : Scanner} (h : (ofText text).Passes s)
    (hpasses : s.Passes t) : t.Within text :=
  ((Inside.ofText text).passes (h.trans hpasses)).within

end Scanner

end Formula
