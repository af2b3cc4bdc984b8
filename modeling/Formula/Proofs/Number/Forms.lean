/-
What looks like a number, and which of that is one.

A scanner takes the longest piece of text that looks like a number, `prefix_numberSpan`: digits
and points, and maybe an exponent.  It is a number if it has at most one point, a digit in front
of the exponent, and a digit in the exponent if there is one, `ofText?_isSome_iff`.
-/
import Formula.Proofs.Number.Text

namespace Formula

open Decimal

/-! ### How far a scanner goes -/

/-- An exponent or nothing: the letter, maybe a sign, and any number of digits. -/
inductive ExponentLike : List Char → Prop
  | absent : ExponentLike []
  | present {letter : Char} {sign digits : List Char} (hletter : letter = 'e' ∨ letter = 'E')
      (hsign : sign = [] ∨ sign = ['+'] ∨ sign = ['-']) (hdigits : IsDigits digits) :
      ExponentLike (letter :: (sign ++ digits))

/-- Digits and points, and maybe an exponent. -/
inductive NumberLike : List Char → Prop
  | intro {mantissa tail : List Char} (hne : mantissa ≠ [])
      (hmantissa : ∀ c ∈ mantissa, continuesNumber c = true) (htail : ExponentLike tail) :
      NumberLike (mantissa ++ tail)

theorem exponentLike_exponentSpan (text : List Char) : ExponentLike (exponentSpan text) := by
  cases text with
  | nil => exact .absent
  | cons c text =>
      rw [exponentSpan]
      split
      · next hletter =>
          refine .present (by simpa using hletter) ?_ (List.all_eq_true.mp List.all_takeWhile)
          cases text with
          | nil => exact .inl rfl
          | cons d text =>
              rw [signSpan]
              split
              · next hsign =>
                  rcases (by simpa using hsign : d = '+' ∨ d = '-') with rfl | rfl
                  · exact .inr (.inl rfl)
                  · exact .inr (.inr rfl)
              · exact .inl rfl
      · exact .absent

/-- What a scanner takes looks like a number. -/
theorem numberLike_numberSpan {text : List Char}
    (h : ∃ c ∈ text.head?, continuesNumber c = true) : NumberLike (numberSpan text) := by
  obtain ⟨c, hc, hnumber⟩ := h
  obtain ⟨rest, rfl⟩ := List.head?_eq_some_iff.mp hc
  refine .intro ?_ (List.all_eq_true.mp List.all_takeWhile) (exponentLike_exponentSpan _)
  simp [hnumber]

/-- No letter, sign or digit is in front of the exponent. -/
theorem ExponentLike.stops {tail : List Char} (h : ExponentLike tail) :
    ∀ c ∈ tail.head?, continuesNumber c = false := by
  cases h with
  | absent => simp
  | present hletter =>
      intro c hc
      obtain rfl := Option.mem_some_iff.mp hc
      rcases hletter with rfl | rfl <;> decide

/-- An exponent is taken as a whole. -/
theorem prefix_exponentSpan {tail rest : List Char} (h : ExponentLike tail) :
    tail <+: exponentSpan (tail ++ rest) := by
  cases h with
  | absent => exact List.nil_prefix
  | @present letter sign digits hletter hsign hdigits =>
      have hdigits' : digits <+: (digits ++ rest).takeWhile Char.isDigit := by
        rw [List.takeWhile_append_of_pos hdigits]
        exact List.prefix_append _ _
      rw [List.cons_append, exponentSpan, if_pos (by simpa using hletter),
        List.prefix_cons_inj, List.append_assoc]
      rcases hsign with rfl | rfl | rfl
      · cases digits with
        | nil => exact List.nil_prefix
        | cons d digits =>
            have hd : d.isDigit = true := hdigits d (by simp)
            have hsign : signSpan (d :: digits ++ rest) = [] := by
              refine signSpan_eq_nil.mpr fun c hc => ?_
              obtain rfl := Option.mem_some_iff.mp hc
              have hplus : d ≠ '+' := by rintro rfl; cases hd
              have hminus : d ≠ '-' := by rintro rfl; cases hd
              simp [hplus, hminus]
            simp only [List.nil_append]
            rw [hsign]
            exact hdigits'
      · exact (List.prefix_cons_inj '+').mpr hdigits'
      · exact (List.prefix_cons_inj '-').mpr hdigits'

/-- **A scanner takes the longest piece of text that looks like a number.** -/
theorem prefix_numberSpan {other text : List Char} (h : NumberLike other)
    (hother : other <+: text) : other <+: numberSpan text := by
  obtain ⟨rest, rfl⟩ := hother
  obtain @⟨mantissa, tail, -, hmantissa, htail⟩ := h
  rw [List.append_assoc, numberSpan, List.takeWhile_append_of_pos hmantissa,
    List.dropWhile_append_of_pos hmantissa, List.append_assoc, List.prefix_append_right_inj]
  cases tail with
  | nil => exact List.nil_prefix
  | cons letter tail =>
      have hletter : ¬continuesNumber letter = true := by simp [htail.stops letter rfl]
      have hexponent : letter :: tail <+: exponentSpan (letter :: tail ++ rest) :=
        prefix_exponentSpan htail
      rw [List.cons_append] at hexponent ⊢
      rw [List.takeWhile_cons_of_neg hletter, List.dropWhile_cons_of_neg hletter]
      exact hexponent

/-- Of what looks like a number as a whole, a scanner takes everything. -/
theorem numberSpan_of_numberLike {text : List Char} (h : NumberLike text) :
    numberSpan text = text := by
  have hprefix := (prefix_numberSpan h (List.prefix_refl text)).length_le
  have hsplit := numberSpan_append_drop text
  have hrest : (text.drop (numberSpan text).length) = [] := List.drop_eq_nil_of_le hprefix
  rw [hrest, List.append_nil] at hsplit
  exact hsplit

/-- No blank is in an exponent. -/
theorem ExponentLike.isBlank_of_mem {tail : List Char} {c : Char} (h : ExponentLike tail)
    (hc : c ∈ tail) : Text.isBlank c = false := by
  cases h with
  | absent => cases hc
  | @present letter sign digits hletter hsign hdigits =>
      rcases List.mem_cons.mp hc with rfl | hc
      · rcases hletter with rfl | rfl <;> decide
      · rcases List.mem_append.mp hc with hc | hc
        · rcases hsign with rfl | rfl | rfl
          · cases hc
          · rw [List.mem_singleton.mp hc]
            decide
          · rw [List.mem_singleton.mp hc]
            decide
        · refine Bool.eq_false_iff.mpr fun hblank => ?_
          have hdigit := hdigits c hc
          rw [Text.isDigit_of_not_isMark (Text.isMark_of_isBlank hblank)] at hdigit
          cases hdigit

/-- No blank is in what a scanner takes. -/
theorem isBlank_of_mem_numberSpan {text : List Char} {c : Char} (h : c ∈ numberSpan text) :
    Text.isBlank c = false := by
  rcases List.mem_append.mp h with hmantissa | hexponent
  · refine Bool.eq_false_iff.mpr fun hblank => ?_
    have hnumber := List.all_eq_true.mp List.all_takeWhile c hmantissa
    rw [continuesNumber_of_not_isMark (Text.isMark_of_isBlank hblank)] at hnumber
    cases hnumber
  · exact (exponentLike_exponentSpan _).isBlank_of_mem hexponent

/-! ### Which of that is a number -/

/-- The literal is a number: it has at most one point, a digit in front of the exponent, and a
digit in the exponent if there is one. -/
structure IsNumeral (literal : List Char) : Prop where
  one_point : literal.count '.' ≤ 1
  mantissa : ∃ c ∈ literal.takeWhile continuesNumber, c.isDigit = true
  exponent : literal.dropWhile continuesNumber ≠ [] →
    ∃ c ∈ literal.dropWhile continuesNumber, c.isDigit = true

section

variable {mantissa tail literal : List Char}

/-- Where the exponent begins. -/
theorem cut_mantissa (hmantissa : ∀ c ∈ mantissa, continuesNumber c = true)
    (htail : ExponentLike tail) : (mantissa ++ tail).takeWhile continuesNumber = mantissa ∧
      (mantissa ++ tail).dropWhile continuesNumber = tail :=
  cut_run hmantissa htail.stops

theorem ExponentLike.count_point (h : ExponentLike tail) : tail.count '.' = 0 := by
  refine List.count_eq_zero.mpr fun hmem => ?_
  cases h with
  | absent => cases hmem
  | present hletter hsign hdigits =>
      rcases List.mem_cons.mp hmem with rfl | hmem
      · rcases hletter with h | h <;> cases h
      · rcases List.mem_append.mp hmem with hmem | hmem
        · rcases hsign with rfl | rfl | rfl <;> simp at hmem
        · cases hdigits '.' hmem

/-- Without a sign in front, nothing is split off. -/
theorem splitSign_of_head {text : List Char} (h : ∀ c ∈ text.head?, c ≠ '-' ∧ c ≠ '+') :
    splitSign text = (false, text) := by
  unfold splitSign
  split
  · exact absurd rfl (h '-' rfl).1
  · exact absurd rfl (h '+' rfl).2
  · rfl

/-- The sign of an exponent is split off. -/
theorem splitSign_append {sign digits : List Char}
    (hsign : sign = [] ∨ sign = ['+'] ∨ sign = ['-']) (hdigits : IsDigits digits) :
    splitSign (sign ++ digits) = (decide (sign = ['-']), digits) := by
  rcases hsign with rfl | rfl | rfl
  · refine splitSign_of_head fun c hc => ?_
    have hdigit := hdigits c (List.mem_of_mem_head? hc)
    constructor
    · rintro rfl
      cases hdigit
    · rintro rfl
      cases hdigit
  · rfl
  · rfl

/-- An exponent has to have a digit. -/
theorem exponent?_isSome_iff (h : ExponentLike tail) :
    (exponent? tail).isSome = true ↔ (tail ≠ [] → ∃ c ∈ tail, c.isDigit = true) := by
  cases h with
  | absent => simp [exponent?]
  | @present letter sign digits hletter hsign hdigits =>
      have hdigit : (∃ c ∈ letter :: (sign ++ digits), c.isDigit = true) ↔ digits ≠ [] := by
        constructor
        · rintro ⟨c, hc, hdigit⟩ rfl
          rw [List.append_nil, List.mem_cons] at hc
          rcases hc with rfl | hc
          · rcases hletter with rfl | rfl <;> cases hdigit
          · rcases hsign with rfl | rfl | rfl
            · cases hc
            · obtain rfl := List.mem_singleton.mp hc
              cases hdigit
            · obtain rfl := List.mem_singleton.mp hc
              cases hdigit
        · intro hne
          obtain ⟨d, digits, rfl⟩ := List.exists_cons_of_ne_nil hne
          exact ⟨d, by simp, hdigits d (by simp)⟩
      have hall : digits.all Char.isDigit = true := List.all_eq_true.mpr hdigits
      rw [hdigit, exponent?, splitSign_append hsign hdigits]
      simp [hletter, hall]

/-- A mantissa is a number of digits, or has a point behind some digits. -/
theorem digits_or_point (hmantissa : ∀ c ∈ mantissa, continuesNumber c = true) :
    IsDigits mantissa ∨ ∃ whole rest, mantissa = whole ++ '.' :: rest ∧ IsDigits whole ∧
      ∀ c ∈ rest, continuesNumber c = true := by
  induction mantissa with
  | nil => exact .inl (by simp [IsDigits])
  | cons c mantissa ih =>
      obtain ⟨hc, hmore⟩ := List.forall_mem_cons.mp hmantissa
      rcases (by simpa [continuesNumber] using hc : c.isDigit = true ∨ c = '.') with hdigit | rfl
      · rcases ih hmore with hdigits | ⟨whole, rest, rfl, hwhole, hrest⟩
        · exact .inl (List.forall_mem_cons.mpr ⟨hdigit, hdigits⟩)
        · exact .inr ⟨c :: whole, rest, rfl, List.forall_mem_cons.mpr ⟨hdigit, hwhole⟩, hrest⟩
      · exact .inr ⟨[], mantissa, rfl, by simp [IsDigits], hmore⟩

theorem count_point_of_isDigits (h : IsDigits literal) : literal.count '.' = 0 := by
  refine List.count_eq_zero.mpr fun hmem => ?_
  cases h '.' hmem

/-- A literal has no sign. -/
theorem splitSign_literal (h : NumberLike literal) : splitSign literal = (false, literal) := by
  obtain @⟨mantissa, tail, hne, hmantissa, -⟩ := h
  obtain ⟨c, mantissa, rfl⟩ := List.exists_cons_of_ne_nil hne
  have hc := hmantissa c (by simp)
  refine splitSign_of_head fun d hd => ?_
  obtain rfl := Option.mem_some_iff.mp hd
  constructor
  · rintro rfl
    cases hc
  · rintro rfl
    cases hc

/-- A literal is read exactly if it has a digit and its exponent is well formed. -/
theorem ofText?_isSome_of_split {whole fraction rest : List Char} (h : NumberLike literal)
    (hsplit : splitDigits literal = (whole, fraction, rest)) :
    (Decimal.ofText? literal).isSome = true ↔
      (whole ≠ [] ∨ fraction ≠ []) ∧ (exponent? rest).isSome = true := by
  rw [Decimal.ofText?, splitSign_literal h]
  simp only [hsplit]
  by_cases hempty : whole = [] ∧ fraction = []
  · simp [hempty]
  · have hdigit : whole ≠ [] ∨ fraction ≠ [] := not_and_or.mp hempty
    rw [if_neg (by simpa using hempty), Option.isSome_map]
    simp [hdigit]

theorem isNumeral_append (hmantissa : ∀ c ∈ mantissa, continuesNumber c = true)
    (htail : ExponentLike tail) : IsNumeral (mantissa ++ tail) ↔
      mantissa.count '.' ≤ 1 ∧ (∃ c ∈ mantissa, c.isDigit = true) ∧
        (exponent? tail).isSome = true := by
  obtain ⟨htake, hdrop⟩ := cut_mantissa hmantissa htail
  have hcount : (mantissa ++ tail).count '.' = mantissa.count '.' := by
    rw [List.count_append, htail.count_point, Nat.add_zero]
  rw [exponent?_isSome_iff htail]
  constructor
  · rintro ⟨hpoint, hdigit, hexponent⟩
    rw [hcount] at hpoint
    rw [htake] at hdigit
    rw [hdrop] at hexponent
    exact ⟨hpoint, hdigit, hexponent⟩
  · rintro ⟨hpoint, hdigit, hexponent⟩
    exact ⟨by rw [hcount]; exact hpoint, by rw [htake]; exact hdigit,
      by rw [hdrop]; exact hexponent⟩

/-- Digits, if there are any. -/
theorem exists_isDigit_iff {digits : List Char} (h : IsDigits digits) :
    (∃ c ∈ digits, c.isDigit = true) ↔ digits ≠ [] := by
  constructor
  · rintro ⟨c, hc, -⟩ rfl
    cases hc
  · intro hne
    obtain ⟨c, digits, rfl⟩ := List.exists_cons_of_ne_nil hne
    exact ⟨c, by simp, h c (by simp)⟩

/-- **A literal is read exactly if it is a number.** -/
theorem ofText?_isSome_iff (h : NumberLike literal) :
    (Decimal.ofText? literal).isSome = true ↔ IsNumeral literal := by
  have hliteral := h
  obtain @⟨mantissa, tail, hne, hmantissa, htail⟩ := h
  have hends : EndsDigits tail := by
    intro c hc
    have hstop := htail.stops c hc
    simp only [continuesNumber, Bool.or_eq_false_iff] at hstop
    exact hstop.1
  rw [isNumeral_append hmantissa htail]
  rcases digits_or_point hmantissa with hdigits | ⟨whole, rest, rfl, hwhole, hrest⟩
  · -- Digits without a point.
    have hpoint : tail.head? ≠ some '.' := fun hhead => by cases htail.stops '.' hhead
    rw [ofText?_isSome_of_split hliteral (splitDigits_whole hdigits hends hpoint),
      exists_isDigit_iff hdigits, count_point_of_isDigits hdigits]
    simp [hne]
  · rcases digits_or_point hrest with hfraction | ⟨fraction, more, rfl, hfraction, -⟩
    · -- One point.
      have hsplit := splitDigits_point hwhole hfraction hends
      have hdigit : (∃ c ∈ whole ++ '.' :: rest, c.isDigit = true) ↔ whole ≠ [] ∨ rest ≠ [] := by
        rw [← exists_isDigit_iff hwhole, ← exists_isDigit_iff hfraction]
        simp [or_and_right, exists_or, show ('.' : Char).isDigit = false from rfl]
      have hpoint : (whole ++ '.' :: rest).count '.' = 1 := by
        rw [List.count_append, count_point_of_isDigits hwhole, List.count_cons_self,
          count_point_of_isDigits hfraction]
      rw [hdigit, hpoint]
      simp only [List.append_assoc, List.cons_append] at hliteral ⊢
      rw [ofText?_isSome_of_split hliteral hsplit]
      simp
    · -- Two points: the second one is where an exponent would have to be.
      have hsecond : EndsDigits ('.' :: (more ++ tail)) := by
        intro c hc
        obtain rfl := Option.mem_some_iff.mp hc
        decide
      have hsplit := splitDigits_point hwhole hfraction hsecond
      have hpoint : ¬(whole ++ '.' :: (fraction ++ '.' :: more)).count '.' ≤ 1 := by
        simp only [List.count_append, List.count_cons_self]
        omega
      have hexponent : exponent? ('.' :: (more ++ tail)) = none := by simp [exponent?]
      simp only [hpoint, false_and, iff_false]
      simp only [List.append_assoc, List.cons_append] at hliteral ⊢
      rw [ofText?_isSome_of_split hliteral hsplit, hexponent]
      simp

end

end Formula
