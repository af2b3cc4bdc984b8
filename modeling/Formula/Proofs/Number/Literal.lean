/-
The numbers of a formula.

A number in a formula starts with a digit or a point.  A sign before it is an operator, and a
literal that is too large for a finite number is refused.  So every number that is read is
finite and has no sign: `lex_number_isPlain`.
-/
import Formula.Proofs.Grammar.Words

namespace Formula

/-- The number is finite and has no sign. -/
def Binary64.IsPlain (x : Binary64) : Prop := x.isFinite = true ∧ x.isNegative = false

namespace Binary64

theorem toNat_ofPattern {pattern : Nat} (h : pattern ≤ infinityPattern) :
    (ofPattern false pattern).bits.toNat = pattern := by
  have hinfinity : infinityPattern < UInt64.size := by decide
  rw [ofPattern, if_neg (by decide)]
  exact UInt64.toNat_ofNat_of_lt' (Nat.lt_of_le_of_lt h hinfinity)

/-- Rounding gives no sign to what has none. -/
theorem isNegative_nearest (magnitude : Rat) : (nearest false magnitude).isNegative = false := by
  have hsign : infinityPattern < signWeight := by decide
  rw [nearest, isNegative, toNat_ofPattern (Nat.min_le_right _ _)]
  exact decide_eq_false (by omega)

end Binary64

theorem Decimal.isPlain_of_toBinary64? {d : Decimal} {x : Binary64} (hd : d.negative = false)
    (h : d.toBinary64? = some x) : x.IsPlain := by
  unfold toBinary64? at h
  split at h
  · cases h
  · rw [hd] at h
    generalize (if d.isTiny then 0 else d.magnitude) = magnitude at h
    simp only at h
    split at h
    · next hfinite =>
        obtain rfl := Option.some.inj h
        exact ⟨hfinite, Binary64.isNegative_nearest _⟩
    · cases h

/-- A literal that starts with anything but a minus has no sign. -/
theorem Decimal.negative_of_ofText? {c : Char} {text : List Char} {d : Decimal} (hc : c ≠ '-')
    (h : Decimal.ofText? (c :: text) = some d) : d.negative = false := by
  have hsign : (splitSign (c :: text)).1 = false := by
    unfold splitSign
    split
    · next heq => exact absurd (List.cons.inj heq).1 hc
    · rfl
    · rfl
  unfold ofText? at h
  simp only at h
  split at h
  · cases h
  · obtain ⟨exponent, -, rfl⟩ := Option.map_eq_some_iff.mp h
    exact hsign

/-- **A number that is taken from a text is finite and has no sign.** -/
theorem lex_number_isPlain {text lexeme rest : List Char} {x : Binary64}
    (h : lex text = .word (.number x) lexeme rest) : x.IsPlain := by
  cases text with
  | nil => cases h
  | cons c text =>
      rw [lex] at h
      cases hc : Lexeme.starting (some c) with
      | number =>
          rw [hc] at h
          obtain ⟨value, hvalue, hword, -, -⟩ := lexNumber_word h
          obtain rfl := Word.number.inj hword
          have hdigit := continuesNumber_of_starting hc
          have hminus : c ≠ '-' := by
            rintro rfl
            revert hdigit
            decide
          obtain ⟨d, hd, hx⟩ := Option.bind_eq_some_iff.mp hvalue
          rw [String.toList_ofList, numberSpan, List.takeWhile_cons, if_pos hdigit,
            List.cons_append] at hd
          exact Decimal.isPlain_of_toBinary64? (Decimal.negative_of_ofText? hminus hd) hx
      | identifier =>
          rw [hc] at h
          simp only [lexAs, lexName] at h
          split at h <;> simp at h
      | quote =>
          rw [hc] at h
          simp only [lexAs, lexText] at h
          split at h <;> simp at h
      | operator | openBracket | closeBracket | separator | unknown | blank | endOfText =>
          rw [hc] at h
          simp [lexAs] at h

end Formula
