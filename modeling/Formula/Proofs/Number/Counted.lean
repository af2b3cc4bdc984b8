/-
The number that a literal is read as.

The digits of an exponent count until they have reached `exponentLimit`.  So a literal stands for
its `textValue`, but is read as its `countedValue`: `ofText?_literal`.

A mantissa can balance an exponent of that size only if it is nearly as long.  For all others the
two values round to the same number, or neither does: `nearest?_countedValue`.  But zeros behind
the point may bring back to one what is far out of range, `countedValue_balanced`.
-/
import Formula.Proofs.Number.Forms
import Formula.Proofs.Number.Overflow

namespace Formula

namespace Binary64

/-- The nearest number to a value without a sign, if it is finite. -/
def nearest? (v : Rat) : Option Binary64 :=
  if v < overflow then some (nearest false v) else none

variable {v w : Rat} {x : Binary64}

theorem nearest?_eq_some_iff : nearest? v = some x ↔ v < overflow ∧ nearest false v = x := by
  simp [nearest?]

theorem lt_overflow_of_nearest? (h : nearest? v = some x) : v < overflow :=
  (nearest?_eq_some_iff.mp h).1

/-- What rounds to the same number is on the same side of the middle. -/
theorem eq_of_nearest? (h : nearest? v = nearest? w) : (v < overflow ↔ w < overflow) ∧
    (w < overflow → nearest false v = nearest false w) := by
  have hall := fun x => (h ▸ Iff.rfl : nearest? v = some x ↔ nearest? w = some x)
  simp only [nearest?_eq_some_iff] at hall
  constructor
  · constructor
    · intro hv
      exact ((hall _).mp ⟨hv, rfl⟩).1
    · intro hw
      exact ((hall _).mpr ⟨hw, rfl⟩).1
  · intro hw
    exact ((hall _).mpr ⟨hw, rfl⟩).2

end Binary64

namespace Decimal

/-! ### Counting digits up to a limit -/

theorem natOfDigits_concat (digits : List Char) (c : Char) :
    natOfDigits (digits ++ [c]) = 10 * natOfDigits digits + digitValue c := by
  rw [natOfDigits, List.foldl_append]
  rfl

theorem exponentOf_concat (digits : List Char) (c : Char) : exponentOf (digits ++ [c]) =
    if exponentOf digits < exponentLimit then 10 * exponentOf digits + digitValue c
    else exponentOf digits := by
  rw [exponentOf, List.foldl_append]
  rfl

theorem natOfDigits_lt {digits : List Char} (h : IsDigits digits) :
    natOfDigits digits < 10 ^ digits.length := by
  induction digits using List.reverseRecOn with
  | nil => decide
  | append_singleton digits c ih =>
      have hdigits := ih fun d hd => h d (List.mem_append_left _ hd)
      have hc : digitValue c < 10 := by
        have hdigit := h c (by simp)
        simp only [Char.isDigit, Bool.and_eq_true, decide_eq_true_eq] at hdigit
        have hle : c.toNat ≤ 57 := hdigit.2
        rw [digitValue]
        omega
      rw [natOfDigits_concat, List.length_append, List.length_singleton, Nat.pow_succ]
      omega

/-- All digits count, or the limit is reached and passed. -/
theorem exponentOf_cases (digits : List Char) : exponentOf digits = natOfDigits digits ∨
    (exponentLimit ≤ exponentOf digits ∧ 10 * exponentLimit ≤ natOfDigits digits) := by
  induction digits using List.reverseRecOn with
  | nil => exact .inl rfl
  | append_singleton digits c ih =>
      rw [exponentOf_concat, natOfDigits_concat]
      rcases ih with heq | ⟨hcounted, hall⟩
      · rw [heq]
        split
        · exact .inl rfl
        · exact .inr ⟨by omega, by omega⟩
      · rw [if_neg (not_lt.mpr hcounted)]
        exact .inr ⟨hcounted, by omega⟩

/-- The exponent at the end of a text, as far as its digits count. -/
def countedExponent (text : List Char) : Int :=
  let (negative, digits) := splitSign text
  if negative then -exponentOf digits else exponentOf digits

/-- The value that a text is read as. -/
def countedValue (text : List Char) : Rat :=
  let (whole, fraction, rest) := splitDigits text
  natOfDigits (whole ++ fraction) * (10 : Rat) ^ (countedExponent (rest.drop 1) - fraction.length)

theorem countedValue_nonneg (text : List Char) : 0 ≤ countedValue text := by
  rw [countedValue]
  positivity

/-- An exponent is counted as it is, or both are beyond the limit to the same side. -/
theorem countedExponent_cases (text : List Char) : countedExponent text = endExponent text ∨
    (exponentLimit ≤ countedExponent text ∧ 10 * exponentLimit ≤ endExponent text) ∨
    (countedExponent text ≤ -exponentLimit ∧ endExponent text ≤ -(10 * exponentLimit)) := by
  rw [countedExponent, endExponent]
  obtain ⟨negative, digits⟩ := splitSign text
  simp only
  rcases exponentOf_cases digits with heq | ⟨hcounted, hall⟩
  · rw [heq]
    exact .inl rfl
  · refine .inr ?_
    cases negative
    · simp only [Bool.false_eq_true, if_false]
      omega
    · simp only [if_true]
      omega

/-! ### Reading a literal -/

theorem countedExponent_of_exponent? {rest : List Char} {e : Int} (h : exponent? rest = some e) :
    countedExponent (rest.drop 1) = e := by
  cases rest with
  | nil => exact Option.some.inj h
  | cons c rest =>
      rw [exponent?] at h
      simp only at h
      split at h
      · exact Option.some.inj h
      · cases h

variable {literal : List Char}

/-- A literal has no sign, and is read as what its digits count. -/
theorem magnitude_of_ofText? {d : Decimal} (h : NumberLike literal)
    (hd : Decimal.ofText? literal = some d) :
    d.negative = false ∧ d.magnitude = countedValue literal := by
  rcases hsplit : splitDigits literal with ⟨whole, fraction, rest⟩
  rw [Decimal.ofText?, splitSign_literal h] at hd
  rw [countedValue]
  simp only [hsplit] at hd ⊢
  split at hd
  · cases hd
  · obtain ⟨e, he, rfl⟩ := Option.map_eq_some_iff.mp hd
    refine ⟨rfl, ?_⟩
    rw [magnitude, coefficientOf, natOfHalves_eq, countedExponent_of_exponent? he]

/-- **What looks like a number is read as the nearest number to its counted value**, if it is a
number and that is finite. -/
theorem ofText?_literal (h : NumberLike literal) {x : Binary64} :
    Binary64.ofText? (String.ofList literal) = some x ↔
      IsNumeral literal ∧ Binary64.nearest? (countedValue literal) = some x := by
  rw [← ofText?_isSome_iff h, Binary64.ofText?, String.toList_ofList]
  cases hd : Decimal.ofText? literal with
  | none => simp
  | some d =>
      obtain ⟨hsign, hvalue⟩ := magnitude_of_ofText? h hd
      rw [Option.bind_some, toBinary64?_eq hsign, hvalue, Binary64.nearest?]
      simp

/-! ### The value of a literal -/

open Binary64

/-- The digits of a text are digits, and are part of its mantissa. -/
theorem splitDigits_spec {text whole fraction rest : List Char}
    (h : splitDigits text = (whole, fraction, rest)) : IsDigits (whole ++ fraction) ∧
      (whole ++ fraction).length ≤ (text.takeWhile continuesNumber).length := by
  have hdigits : IsDigits (text.takeWhile Char.isDigit) :=
    List.all_eq_true.mp List.all_takeWhile
  have hnumber : ∀ c, c.isDigit = true → continuesNumber c = true := by
    intro c hc
    simp [continuesNumber, hc]
  have htext := List.takeWhile_append_dropWhile (p := Char.isDigit) (l := text)
  rw [splitDigits] at h
  split at h
  · next rest' hpoint =>
      obtain ⟨rfl, hparts⟩ := Prod.mk.inj h
      obtain ⟨rfl, rfl⟩ := Prod.mk.inj hparts
      have hfraction : IsDigits (rest'.takeWhile Char.isDigit) :=
        List.all_eq_true.mp List.all_takeWhile
      refine ⟨isDigits_append hdigits hfraction, ?_⟩
      have hmantissa : ∀ c ∈ text.takeWhile Char.isDigit ++ '.' :: rest'.takeWhile Char.isDigit,
          continuesNumber c = true := by
        intro c hc
        rcases List.mem_append.mp hc with hc | hc
        · exact hnumber c (hdigits c hc)
        · rcases List.mem_cons.mp hc with rfl | hc
          · decide
          · exact hnumber c (hfraction c hc)
      have hsplit : text = text.takeWhile Char.isDigit ++ '.' :: rest'.takeWhile Char.isDigit ++
          rest'.dropWhile Char.isDigit := by
        rw [List.append_assoc, List.cons_append, List.takeWhile_append_dropWhile, ← hpoint, htext]
      conv => rhs; rw [hsplit, List.takeWhile_append_of_pos hmantissa]
      simp only [List.length_append, List.length_cons]
      omega
  · obtain ⟨rfl, hparts⟩ := Prod.mk.inj h
    obtain ⟨rfl, rfl⟩ := Prod.mk.inj hparts
    rw [List.append_nil]
    refine ⟨hdigits, ?_⟩
    conv => rhs; rw [← htext, List.takeWhile_append_of_pos fun c hc => hnumber c (hdigits c hc)]
    rw [List.length_append]
    exact Nat.le_add_right _ _

/-- The exponent brings a value out of range. -/
theorem nearest?_of_huge {n : Nat} {e : Int} (hn : n ≠ 0) (he : 309 ≤ e) :
    nearest? (n * (10 : Rat) ^ e) = none := by
  have hhuge : (Decimal.mk false n e).isHuge = true := by simp [isHuge, hn, he]
  exact if_neg (not_lt.mpr (overflow_le_of_isHuge hhuge))

/-- The exponent brings a value to zero. -/
theorem nearest?_of_tiny {n k : Nat} {e : Int} (hn : n < 10 ^ k) (he : k + e ≤ -324) :
    nearest? (n * (10 : Rat) ^ e) = nearest? 0 := by
  have hpowers : (2 : Nat) ^ 1075 ≤ 10 ^ 324 := by decide +kernel
  have hcoefficient : (n : Rat) < (10 : Rat) ^ k := by exact_mod_cast hn
  have hsmall : n * (10 : Rat) ^ e < (2 : Rat) ^ (-1075 : Int) :=
    calc n * (10 : Rat) ^ e < (10 : Rat) ^ k * (10 : Rat) ^ e :=
          mul_lt_mul_of_pos_right hcoefficient (by positivity)
      _ = (10 : Rat) ^ (k + e) := by rw [zpow_add₀ (by norm_num), zpow_natCast]
      _ ≤ (10 : Rat) ^ (-(324 : Nat) : Int) := zpow_le_zpow_right₀ (by norm_num) he
      _ ≤ (2 : Rat) ^ (-(1075 : Nat) : Int) := by
          rw [zpow_neg, zpow_neg, zpow_natCast, zpow_natCast]
          exact inv_anti₀ (by positivity) (by exact_mod_cast hpowers)
  have hlt : n * (10 : Rat) ^ e < overflow :=
    calc n * (10 : Rat) ^ e < (2 : Rat) ^ (-1075 : Int) := hsmall
      _ ≤ 1 := zpow_le_one_of_nonpos₀ (by norm_num) (by norm_num)
      _ ≤ overflow := one_lt_overflow.le
  rw [nearest?, nearest?, if_pos hlt, if_pos overflow_pos,
    nearest_of_lt_half (by positivity) hsmall]

/-- The exponent of the text counts as it is, or its mantissa is too short to balance it. -/
def CountsExactly (text : List Char) : Prop :=
  (endExponent ((splitDigits text).2.2.drop 1)).natAbs < 10 * exponentLimit ∨
    (text.takeWhile continuesNumber).length + 324 ≤ exponentLimit

/-- **A text is read as the nearest number to the value it stands for**, unless its exponent is
huge and its mantissa is nearly as long as that. -/
theorem nearest?_countedValue {text : List Char} (h : CountsExactly text) :
    nearest? (countedValue text) = nearest? (textValue text) := by
  rw [CountsExactly] at h
  rw [countedValue, textValue]
  rcases hsplit : splitDigits text with ⟨whole, fraction, rest⟩
  obtain ⟨hdigits, hmantissa⟩ := splitDigits_spec hsplit
  have hcoefficient := natOfDigits_lt hdigits
  simp only [hsplit] at h ⊢
  generalize natOfDigits (whole ++ fraction) = n at hcoefficient ⊢
  rw [List.length_append] at hcoefficient hmantissa
  rcases countedExponent_cases (rest.drop 1) with heq | ⟨hcounted, hall⟩ | ⟨hcounted, hall⟩
  · rw [heq]
  · -- Both values are too large, or zero.
    by_cases hn : n = 0
    · simp [hn]
    · rw [nearest?_of_huge hn (by omega), nearest?_of_huge hn (by omega)]
  · -- Both values are too small.
    rw [nearest?_of_tiny hcoefficient (by push_cast; omega),
      nearest?_of_tiny hcoefficient (by push_cast; omega)]

/-! ### A mantissa that balances its exponent -/

/-- Zeros behind the point, a one and an exponent. -/
def balanced (zeros : Nat) (exponent : List Char) : List Char :=
  ['0'] ++ '.' :: (List.replicate zeros '0' ++ ['1'] ++ 'e' :: exponent)

theorem splitDigits_balanced (zeros : Nat) (exponent : List Char) :
    splitDigits (balanced zeros exponent) =
      (['0'], List.replicate zeros '0' ++ ['1'], 'e' :: exponent) :=
  splitDigits_point (isDigits_zeros 1)
    (isDigits_append (isDigits_zeros zeros) (by simp [IsDigits])) (by simp [EndsDigits])

theorem natOfDigits_balanced (zeros : Nat) :
    natOfDigits (['0'] ++ (List.replicate zeros '0' ++ ['1'])) = 1 := by
  have hzero := natOfDigits_zeros_append 1 (List.replicate zeros '0' ++ ['1'])
  rw [List.replicate_one] at hzero
  rw [hzero, natOfDigits_zeros_append]
  rfl

/-- The exponent that is counted is balanced. -/
theorem countedValue_balanced {zeros : Nat} {exponent : List Char}
    (h : countedExponent exponent = (zeros + 1 : Nat)) :
    countedValue (balanced zeros exponent) = 1 := by
  rw [countedValue, splitDigits_balanced]
  simp only [natOfDigits_balanced, List.length_append, List.length_replicate, List.length_singleton,
    List.drop_succ_cons, List.drop_zero, h, sub_self, zpow_zero, Nat.cast_one, one_mul]

/-- The exponent that is meant may be far from balanced. -/
theorem overflow_le_textValue_balanced {zeros : Nat} {exponent : List Char}
    (h : zeros + 310 ≤ endExponent exponent) :
    overflow ≤ textValue (balanced zeros exponent) := by
  have hhuge : (Decimal.mk false 1 (endExponent exponent - (zeros + 1 : Nat))).isHuge = true := by
    simp only [isHuge, Bool.and_eq_true, decide_eq_true_eq]
    omega
  rw [textValue, splitDigits_balanced]
  simp only [natOfDigits_balanced, List.length_append, List.length_replicate, List.length_singleton,
    List.drop_succ_cons, List.drop_zero]
  exact overflow_le_of_isHuge hhuge

theorem exponentLike_unsigned {digits : List Char} (h : IsDigits digits) :
    ExponentLike ('e' :: digits) :=
  have hunsigned : ExponentLike ('e' :: ([] ++ digits)) := .present (.inl rfl) (.inl rfl) h
  hunsigned

theorem numberLike_balanced (zeros : Nat) {digits : List Char} (h : IsDigits digits) :
    NumberLike (balanced zeros digits) := by
  have hdigits : IsDigits (List.replicate zeros '0' ++ ['1']) :=
    isDigits_append (isDigits_zeros zeros) (by simp [IsDigits])
  have hmantissa : ∀ c ∈ ['0'] ++ '.' :: (List.replicate zeros '0' ++ ['1']),
      continuesNumber c = true := by
    intro c hc
    rw [List.mem_append, List.mem_singleton, List.mem_cons] at hc
    rcases hc with rfl | rfl | hc
    · decide
    · decide
    · simp [continuesNumber, hdigits c hc]
  have hliteral := NumberLike.intro (by simp) hmantissa (exponentLike_unsigned h)
  rw [List.append_assoc, List.cons_append] at hliteral
  exact hliteral

theorem isNumeral_balanced (zeros : Nat) {digits : List Char} (h : IsDigits digits)
    (hne : digits ≠ []) : IsNumeral (balanced zeros digits) := by
  have hliteral := numberLike_balanced zeros h
  have hsplit := splitDigits_balanced zeros digits
  have hexponent := exponent?_isSome_iff (exponentLike_unsigned h)
  rw [← ofText?_isSome_iff hliteral, ofText?_isSome_of_split hliteral hsplit, hexponent]
  obtain ⟨d, digits, rfl⟩ := List.exists_cons_of_ne_nil hne
  exact ⟨.inl (by simp), fun _ => ⟨d, by simp, h d (by simp)⟩⟩

end Decimal

end Formula
