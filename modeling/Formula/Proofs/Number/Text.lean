/-
Numbers are known from their texts.

A text of digits, a point and an exponent stands for a value, whichever of its forms it has.
The text of a number stands for its shortest decimal (`textValue_write`), and that rounds to no
other number, so different numbers have different texts (`write_injective`).
-/
import Formula.Number.Style
import Formula.Proofs.Grammar.Cuts
import Formula.Proofs.Number.Shortest

namespace Formula

/-! ### Digits -/

namespace Decimal

theorem natOfDigits_toDigits (n : Nat) : natOfDigits (Nat.toDigits 10 n) = n :=
  Nat.ofDigitChars_ten_toDigits

theorem natOfDigits_zeros (k : Nat) : natOfDigits (List.replicate k '0') = 0 := by
  induction k with
  | zero => rfl
  | succ k ih => rw [List.replicate_succ', natOfDigits_append, ih]; rfl

/-- Zeros in front of digits are worth nothing. -/
theorem natOfDigits_zeros_append (k : Nat) (digits : List Char) :
    natOfDigits (List.replicate k '0' ++ digits) = natOfDigits digits := by
  rw [natOfDigits_append, natOfDigits_zeros, Nat.zero_mul, Nat.zero_add]

/-- A zero behind digits is worth a power of ten. -/
theorem natOfDigits_append_zeros (digits : List Char) (k : Nat) :
    natOfDigits (digits ++ List.replicate k '0') = natOfDigits digits * 10 ^ k := by
  rw [natOfDigits_append, natOfDigits_zeros, Nat.add_zero, List.length_replicate]
  rfl

/-- Counts are known from their digits. -/
theorem toDigits_injective {m n : Nat} (h : Nat.toDigits 10 m = Nat.toDigits 10 n) : m = n := by
  rw [← natOfDigits_toDigits m, h, natOfDigits_toDigits]

/-! ### The value of a text -/

/-- All characters are digits. -/
def IsDigits (digits : List Char) : Prop := ∀ c ∈ digits, c.isDigit = true

/-- The text does not go on with a digit. -/
def EndsDigits (rest : List Char) : Prop := ∀ c ∈ rest.head?, c.isDigit = false

theorem isDigits_append {first last : List Char} (hfirst : IsDigits first) (hlast : IsDigits last) :
    IsDigits (first ++ last) := by
  intro c hc
  rcases List.mem_append.mp hc with hmem | hmem
  · exact hfirst c hmem
  · exact hlast c hmem

theorem isDigits_zeros (k : Nat) : IsDigits (List.replicate k '0') := by
  intro c hc
  rw [List.eq_of_mem_replicate hc]
  rfl

theorem isDigits_toDigits (n : Nat) : IsDigits (Nat.toDigits 10 n) :=
  fun _ hc => Nat.isDigit_of_mem_toDigits (by decide) (by decide) hc

/-- The exponent at the end of a text, without the letter in front of it. -/
def endExponent (text : List Char) : Int :=
  let (negative, digits) := splitSign text
  if negative then -natOfDigits digits else natOfDigits digits

/-- The value that a text stands for: digits with at most one point among them, and maybe an
exponent. -/
def textValue (text : List Char) : Rat :=
  let (whole, fraction, rest) := splitDigits text
  natOfDigits (whole ++ fraction) * (10 : Rat) ^ (endExponent (rest.drop 1) - fraction.length)

variable {whole fraction rest : List Char}

/-- Digits with a point among them. -/
theorem splitDigits_point (hwhole : IsDigits whole) (hfraction : IsDigits fraction)
    (hrest : EndsDigits rest) :
    splitDigits (whole ++ '.' :: (fraction ++ rest)) = (whole, fraction, rest) := by
  have hpoint : EndsDigits ('.' :: (fraction ++ rest)) := by
    rintro c hc
    obtain rfl := Option.some.inj hc
    decide
  obtain ⟨htake, hdrop⟩ := cut_run hwhole hpoint
  obtain ⟨hinner, houter⟩ := cut_run hfraction hrest
  rw [splitDigits, htake, hdrop]
  simp only [hinner, houter]

/-- Digits without a point behind them. -/
theorem splitDigits_whole (hwhole : IsDigits whole) (hrest : EndsDigits rest)
    (hpoint : rest.head? ≠ some '.') : splitDigits (whole ++ rest) = (whole, [], rest) := by
  obtain ⟨htake, hdrop⟩ := cut_run hwhole hrest
  rw [splitDigits, htake, hdrop]
  split
  · exact absurd rfl hpoint
  · rfl

theorem textValue_point (hwhole : IsDigits whole) (hfraction : IsDigits fraction)
    (hrest : EndsDigits rest) :
    textValue (whole ++ '.' :: (fraction ++ rest)) = natOfDigits (whole ++ fraction) *
      (10 : Rat) ^ (endExponent (rest.drop 1) - fraction.length) := by
  rw [textValue, splitDigits_point hwhole hfraction hrest]

theorem textValue_whole (hwhole : IsDigits whole) (hrest : EndsDigits rest)
    (hpoint : rest.head? ≠ some '.') :
    textValue (whole ++ rest) =
      natOfDigits whole * (10 : Rat) ^ endExponent (rest.drop 1) := by
  rw [textValue, splitDigits_whole hwhole hrest hpoint]
  simp

end Decimal

namespace NumberStyle

open Decimal

variable {digits : List Char} {point : Int}

/-! ### The value of a number that is written -/

theorem endsDigits_nil : EndsDigits [] := by simp [EndsDigits]

theorem endExponent_nil : endExponent (List.drop 1 []) = 0 := rfl

/-- Digits behind the point and some zeros. -/
theorem textValue_small (h : IsDigits digits) (hpoint : point ≤ 0) :
    textValue ('0' :: '.' :: (List.replicate point.natAbs '0' ++ digits)) =
      natOfDigits digits * (10 : Rat) ^ (point - digits.length) := by
  have hfraction := isDigits_append (isDigits_zeros point.natAbs) h
  have hvalue := textValue_point (isDigits_zeros 1) hfraction endsDigits_nil
  rw [List.append_nil, natOfDigits_zeros_append, natOfDigits_zeros_append, endExponent_nil,
    List.length_append, List.length_replicate] at hvalue
  refine hvalue.trans (congrArg _ (congrArg _ ?_))
  omega

/-- Digits in front of some zeros, with or without a fraction. -/
theorem textValue_large (style : NumberStyle) (h : IsDigits digits)
    (hpoint : digits.length ≤ point) :
    textValue (digits ++ List.replicate (point.toNat - digits.length) '0' ++
        (if style.keepsFraction then ['.', '0'] else [])) =
      natOfDigits digits * (10 : Rat) ^ (point - digits.length) := by
  have hten : (10 : Rat) ≠ 0 := by norm_num
  have hdigits := isDigits_append h (isDigits_zeros (point.toNat - digits.length))
  have hexponent : point - digits.length = ((point.toNat - digits.length : Nat) : Int) := by
    omega
  rw [hexponent, zpow_natCast]
  split
  · have hvalue := textValue_point hdigits (isDigits_zeros 1) endsDigits_nil
    rw [List.append_nil, natOfDigits_append_zeros, natOfDigits_append_zeros, endExponent_nil,
      List.length_replicate, zero_sub, zpow_neg, zpow_natCast] at hvalue
    refine hvalue.trans ?_
    push_cast
    rw [pow_one, mul_assoc, mul_inv_cancel₀ hten, mul_one]
  · have hvalue := textValue_whole hdigits endsDigits_nil (by simp)
    rw [natOfDigits_append_zeros, endExponent_nil, zpow_zero, mul_one] at hvalue
    exact_mod_cast hvalue

/-- Digits on both sides of the point. -/
theorem textValue_inside (h : IsDigits digits) (hpoint : point < digits.length)
    (hpositive : 0 < point) :
    textValue (digits.take point.toNat ++ '.' :: digits.drop point.toNat) =
      natOfDigits digits * (10 : Rat) ^ (point - digits.length) := by
  have hcut := List.take_append_drop point.toNat digits
  rw [← hcut] at h
  have hvalue := textValue_point (fun c hc => h c (List.mem_append_left _ hc))
    (fun c hc => h c (List.mem_append_right _ hc)) endsDigits_nil
  rw [List.append_nil, hcut, endExponent_nil, List.length_drop] at hvalue
  refine hvalue.trans (congrArg _ (congrArg _ ?_))
  omega

/-- Without an exponent, digits stand for their whole number and the place of the point. -/
theorem textValue_positionalText (style : NumberStyle) (h : IsDigits digits) :
    textValue (style.positionalText digits point) =
      natOfDigits digits * (10 : Rat) ^ (point - digits.length) := by
  unfold positionalText
  by_cases hsmall : point ≤ 0
  · rw [if_pos hsmall]
    exact textValue_small h hsmall
  · rw [if_neg hsmall]
    by_cases hlarge : digits.length ≤ point
    · rw [if_pos hlarge]
      exact style.textValue_large h hlarge
    · rw [if_neg hlarge]
      exact textValue_inside h (by omega) (by omega)

/-- An exponent with its sign. -/
def signedText (e : Int) : List Char :=
  (if e < 0 then '-' else '+') :: Nat.toDigits 10 e.natAbs

theorem endExponent_signedText (e : Int) : endExponent (signedText e) = e := by
  rw [signedText]
  by_cases hneg : e < 0
  · rw [if_pos hneg, endExponent, splitSign]
    simp only [if_pos, natOfDigits_toDigits]
    omega
  · rw [if_neg hneg, endExponent, splitSign]
    simp only [Bool.false_eq_true, if_false, natOfDigits_toDigits]
    omega

theorem endsDigits_exponent (tail : List Char) : EndsDigits ('e' :: tail) := by
  rintro c hc
  obtain rfl := Option.some.inj hc
  rfl

theorem scientificText_single (first : Char) (point : Int) :
    scientificText [first] point = [first] ++ 'e' :: signedText (point - 1) := rfl

theorem scientificText_cons (first second : Char) (others : List Char) (point : Int) :
    scientificText (first :: second :: others) point =
      [first] ++ '.' :: (second :: others ++ 'e' :: signedText (point - 1)) := by
  simp [scientificText, signedText]

/-- With an exponent, they stand for the same. -/
theorem textValue_scientificText (h : IsDigits digits) (hne : digits ≠ []) :
    textValue (scientificText digits point) =
      natOfDigits digits * (10 : Rat) ^ (point - digits.length) := by
  obtain ⟨first, others, rfl⟩ := List.exists_cons_of_ne_nil hne
  have hexponent := endExponent_signedText (point - 1)
  have hends := endsDigits_exponent (signedText (point - 1))
  have hfirst : IsDigits [first] := fun c hc => h c (List.mem_of_mem_take (i := 1) hc)
  cases others with
  | nil =>
      rw [scientificText_single, textValue_whole hfirst hends (by simp), List.drop_one,
        List.tail_cons, hexponent]
      rfl
  | cons second others =>
      have hothers : IsDigits (second :: others) := fun c hc => h c (List.mem_cons_of_mem _ hc)
      rw [scientificText_cons, textValue_point hfirst hothers hends, List.drop_one,
        List.tail_cons, hexponent, List.singleton_append]
      refine congrArg _ (congrArg _ ?_)
      simp only [List.length_cons]
      omega

/-- **The text of a number stands for its shortest decimal.** -/
theorem textValue_write (style : NumberStyle) {x : Binary64} (h : x.isNegative = false) :
    textValue (style.write x) = (x.shortest style.tie).magnitude := by
  have hdigits := isDigits_toDigits (x.shortest style.tie).coefficient
  rw [write, h, if_neg (by simp), magnitude]
  generalize x.shortest style.tie = decimal at hdigits
  split
  · rw [style.textValue_positionalText hdigits, natOfDigits_toDigits, add_sub_cancel_left]
  · rw [textValue_scientificText hdigits Nat.toDigits_ne_nil, natOfDigits_toDigits,
      add_sub_cancel_left]

/-- **Different numbers have different texts.** -/
theorem write_injective (style : NumberStyle) {x y : Binary64} (hx : x.IsPlain) (hy : y.IsPlain)
    (h : style.write x = style.write y) : x = y := by
  apply Binary64.eq_of_shortest hx hy
  rw [← style.textValue_write hx.2, h, style.textValue_write hy.2]

/-! ### The characters of a number that is written -/

/-- A character that numbers are written with. -/
def isNumeric (c : Char) : Bool := c.isDigit || c == '.' || c == 'e' || c == '+' || c == '-'

theorem isNumeric_of_isDigits (h : IsDigits digits) : ∀ c ∈ digits, isNumeric c = true := by
  intro c hc
  rw [isNumeric, h c hc]
  rfl

/-- The text starts with digits and has a point or an exponent behind them. -/
inductive IsNumberText : List Char → Prop
  | intro {whole rest : List Char} {mark : Char} (hne : whole ≠ []) (hwhole : IsDigits whole)
      (hmark : mark = '.' ∨ mark = 'e') (hrest : ∀ c ∈ rest, isNumeric c = true) :
      IsNumberText (whole ++ mark :: rest)

theorem IsNumberText.isNumeric {text : List Char} (h : IsNumberText text) :
    ∀ c ∈ text, NumberStyle.isNumeric c = true := by
  obtain @⟨whole, rest, mark, -, hwhole, hmark, hrest⟩ := h
  intro c hc
  rcases List.mem_append.mp hc with hmem | hmem
  · exact isNumeric_of_isDigits hwhole c hmem
  · rcases List.mem_cons.mp hmem with rfl | hmem
    · rcases hmark with rfl | rfl <;> rfl
    · exact hrest c hmem

/-- It is not the text of a count. -/
theorem IsNumberText.not_isDigits {text : List Char} (h : IsNumberText text) : ¬IsDigits text := by
  obtain @⟨whole, rest, mark, -, -, hmark, -⟩ := h
  intro hdigits
  have hmem : mark.isDigit = true := hdigits mark (by simp)
  rcases hmark with rfl | rfl <;> cases hmem

/-- Without an exponent there is a point in the text, unless a whole number loses its
fraction. -/
theorem positionalText_cases (style : NumberStyle) (h : IsDigits digits) (hne : digits ≠ []) :
    IsNumberText (style.positionalText digits point) ∨
      style.keepsFraction = false ∧ IsDigits (style.positionalText digits point) := by
  rw [positionalText]
  split
  · have hrest := isNumeric_of_isDigits (isDigits_append (isDigits_zeros point.natAbs) h)
    exact .inl (.intro (List.cons_ne_nil '0' []) (isDigits_zeros 1) (.inl rfl) hrest)
  · next hpoint =>
      split
      · have hwhole := isDigits_append h (isDigits_zeros (point.toNat - digits.length))
        cases hkeeps : style.keepsFraction with
        | true =>
            exact .inl
              (.intro (by simp [hne]) hwhole (.inl rfl) (isNumeric_of_isDigits (isDigits_zeros 1)))
        | false =>
            refine .inr ⟨rfl, ?_⟩
            rw [if_neg Bool.false_ne_true, List.append_nil]
            exact hwhole
      · have hfirst : digits.take point.toNat ≠ [] := by
          rw [Ne, List.take_eq_nil_iff]
          rintro (hzero | hnil)
          · omega
          · exact hne hnil
        refine .inl (.intro hfirst (fun c hc => h c (List.mem_of_mem_take hc)) (.inl rfl) ?_)
        exact isNumeric_of_isDigits fun c hc => h c (List.mem_of_mem_drop hc)

theorem isNumberText_positionalText {style : NumberStyle} (hkeeps : style.keepsFraction = true)
    (h : IsDigits digits) (hne : digits ≠ []) :
    IsNumberText (style.positionalText digits point) := by
  rcases positionalText_cases style h hne with htext | ⟨hloses, -⟩
  · exact htext
  · rw [hkeeps] at hloses
    cases hloses

theorem isNumberText_scientificText (h : IsDigits digits) (hne : digits ≠ []) :
    IsNumberText (scientificText digits point) := by
  obtain ⟨first, others, rfl⟩ := List.exists_cons_of_ne_nil hne
  have hfirst : IsDigits [first] := fun c hc => h c (List.mem_of_mem_take (i := 1) hc)
  have hexponent : ∀ c ∈ signedText (point - 1), isNumeric c = true := by
    intro c hc
    rcases List.mem_cons.mp hc with rfl | hdigit
    · split <;> rfl
    · exact isNumeric_of_isDigits (isDigits_toDigits _) c hdigit
  cases others with
  | nil =>
      rw [scientificText_single]
      exact .intro (by simp) hfirst (.inr rfl) hexponent
  | cons second others =>
      have hothers : ∀ c ∈ second :: others, isNumeric c = true :=
        isNumeric_of_isDigits fun c hc => h c (List.mem_cons_of_mem _ hc)
      rw [scientificText_cons]
      refine .intro (by simp) hfirst (.inl rfl) fun c hc => ?_
      rcases List.mem_append.mp hc with hmem | hmem
      · exact hothers c hmem
      · rcases List.mem_cons.mp hmem with rfl | hmem
        · rfl
        · exact hexponent c hmem

/-- A number without a sign is written with digits and something behind them, if whole numbers
keep their fraction. -/
theorem isNumberText_write {style : NumberStyle} (hkeeps : style.keepsFraction = true)
    {x : Binary64} (h : x.isNegative = false) : IsNumberText (style.write x) := by
  have hdigits := isDigits_toDigits (x.shortest style.tie).coefficient
  rw [write, h, if_neg (by simp)]
  split
  · exact isNumberText_positionalText hkeeps hdigits Nat.toDigits_ne_nil
  · exact isNumberText_scientificText hdigits Nat.toDigits_ne_nil

end NumberStyle

end Formula
