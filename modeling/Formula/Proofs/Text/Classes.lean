/-
Classes of characters that have nothing in common.

Two classes have no character in common if no range of the one table touches a range of the
other, and that can be computed: `not_covers_of_apart`.  So a blank belongs to no number and to
no name, and every character that a name can start with does start a name:
`starting_of_isBlank` and `starting_of_startsIdentifier`.
-/
import Formula.Source.Lexeme

namespace Formula

namespace Text

/-- Whether no range of the one table touches a range of the other. -/
def apart (first second : Ranges) : Bool :=
  first.all fun range => second.all fun other => range.2 < other.1 || other.2 < range.1

/-- Tables that are apart have no code point in common. -/
theorem not_covers_of_apart {first second : Ranges} (hfirst : increasingFrom 0 first = true)
    (hsecond : increasingFrom 0 second = true) (hapart : apart first second = true) {n : Nat}
    (hn : covers first n = true) : covers second n = false := by
  obtain ⟨range, hrange, hlow, hhigh⟩ := (covers_iff hfirst n).mp hn
  refine Bool.eq_false_iff.mpr fun hother => ?_
  obtain ⟨other, hmem, hlow', hhigh'⟩ := (covers_iff hsecond n).mp hother
  have hboth := List.all_eq_true.mp (List.all_eq_true.mp hapart range hrange) other hmem
  rw [Bool.or_eq_true, decide_eq_true_eq, decide_eq_true_eq] at hboth
  omega

/-- The code points of the digits, the operators, the brackets, the quotes, the comma and the
point. -/
def marks : Ranges := [(0x22, 0x22), (0x27, 0x39)]

/-- Whether the character is one of these. -/
def isMark (c : Char) : Bool := covers marks c.toNat

theorem blanks_apart_marks : apart blanks marks = true := by decide

theorem blanks_apart_letters : apart blanks letters = true := by decide +kernel

theorem blanks_apart_numerals : apart blanks numerals = true := by decide +kernel

theorem letters_apart_marks : apart letters marks = true := by decide +kernel

section

variable {c : Char}

theorem isMark_of_isBlank (h : isBlank c = true) : isMark c = false :=
  not_covers_of_apart blanks_increasing (by decide) blanks_apart_marks h

theorem isMark_of_isLetter (h : isLetter c = true) : isMark c = false :=
  not_covers_of_apart letters_increasing (by decide) letters_apart_marks h

theorem isLetter_of_isBlank (h : isBlank c = true) : isLetter c = false :=
  not_covers_of_apart blanks_increasing letters_increasing blanks_apart_letters h

theorem isNumeral_of_isBlank (h : isBlank c = true) : isNumeral c = false :=
  not_covers_of_apart blanks_increasing numerals_increasing blanks_apart_numerals h

/-- A character that is no mark is another one than any mark. -/
theorem ne_of_isMark {d : Char} (hd : isMark d = true) (h : isMark c = false) : c ≠ d := by
  rintro rfl
  rw [hd] at h
  cases h

theorem isDigit_of_not_isMark (h : isMark c = false) : c.isDigit = false := by
  refine Bool.eq_false_iff.mpr fun hdigit => ?_
  obtain ⟨hlow, hhigh⟩ := Char.isDigit_iff_toNat.mp hdigit
  have hincreasing : increasingFrom 0 marks = true := by decide
  have hmark : isMark c = true := by
    refine (covers_iff hincreasing _).mpr ⟨(0x27, 0x39), by simp [marks], ?_, hhigh⟩
    exact Nat.le_trans (by decide) hlow
  rw [hmark] at h
  cases h

end

end Text

/-! ### What a character starts -/

section

variable {c : Char}

theorem continuesNumber_of_not_isMark (h : Text.isMark c = false) : continuesNumber c = false := by
  have hpoint := Text.ne_of_isMark (d := '.') (by decide) h
  simp [continuesNumber, Text.isDigit_of_not_isMark h, hpoint]

theorem ofSymbol?_of_not_isMark (h : Text.isMark c = false) : Operator.ofSymbol? c = none := by
  unfold Operator.ofSymbol?
  split
  all_goals first | rfl | exact absurd h (by decide)

/-- A character that is no mark starts a name or nothing. -/
theorem starting_of_not_isMark (h : Text.isMark c = false) : Lexeme.starting (some c) =
    if startsIdentifier c then .identifier else if Text.isBlank c then .blank else .unknown c := by
  have hopening := Text.ne_of_isMark (d := '(') (by decide) h
  have hclosing := Text.ne_of_isMark (d := ')') (by decide) h
  have hcomma := Text.ne_of_isMark (d := ',') (by decide) h
  have hdouble := Text.ne_of_isMark (d := '\x22') (by decide) h
  have hsingle := Text.ne_of_isMark (d := '\x27') (by decide) h
  simp [Lexeme.starting, Lexeme.ofOther, ofSymbol?_of_not_isMark h,
    continuesNumber_of_not_isMark h, isQuoteMark, hopening, hclosing, hcomma, hdouble, hsingle]

theorem continuesIdentifier_of_isBlank (h : Text.isBlank c = true) :
    continuesIdentifier c = false := by
  have hunderscore : c ≠ '_' := by
    rintro rfl
    exact absurd h (by decide)
  simp [continuesIdentifier, Text.isLetter_of_isBlank h, Text.isNumeral_of_isBlank h, hunderscore]

/-- A blank starts no lexeme. -/
theorem starting_of_isBlank (h : Text.isBlank c = true) :
    Lexeme.starting (some c) = .blank := by
  have hcontinues := continuesIdentifier_of_isBlank h
  have hname : startsIdentifier c = false := by
    simp only [continuesIdentifier, Bool.or_eq_false_iff] at hcontinues
    simp [startsIdentifier, hcontinues]
  rw [starting_of_not_isMark (Text.isMark_of_isBlank h), if_neg (by simp [hname]), if_pos h]

/-- A character that a name can start with starts a name. -/
theorem starting_of_startsIdentifier (h : startsIdentifier c = true) :
    Lexeme.starting (some c) = .identifier := by
  have hmark : Text.isMark c = false := by
    simp only [startsIdentifier, Bool.or_eq_true, decide_eq_true_eq] at h
    rcases h with hletter | rfl
    · exact Text.isMark_of_isLetter hletter
    · decide
  rw [starting_of_not_isMark hmark, if_pos h]

end

end Formula
