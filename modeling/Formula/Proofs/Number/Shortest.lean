/-
The shortest decimal rounds to its number.

Seventeen digits are enough.  With the first digit of a number at the place `top`, its multiple
of ten to the power `top - 16` next to it is less than a unit away, so of the two multiples
around it one is less than half a unit away.  Below a power of two half a unit would be too far,
but there the multiples are so dense that the one above is near enough.
-/
import Formula.Proofs.Number.Interval
import Mathlib.Algebra.Order.Floor.Ring
import Mathlib.Data.Rat.Floor

namespace Formula

/-! ### Powers of ten -/

theorem lt_ten_pow_digitCount (n : Nat) : n < 10 ^ digitCount n := by
  have hpos : 0 < digitCount n := List.length_pos_iff.mpr Nat.toDigits_ne_nil
  exact (Nat.length_toDigits_le_iff (by decide) hpos).mp (Nat.le_refl _)

theorem ten_pow_digitCount_le {n : Nat} (h : 0 < n) : 10 ^ (digitCount n - 1) ≤ n := by
  by_cases hone : digitCount n - 1 = 0
  · rw [hone]
    exact h
  · by_contra hlt
    have hle : digitCount n ≤ digitCount n - 1 :=
      (Nat.length_toDigits_le_iff (by decide) (by omega)).mpr (by omega)
    omega

/-- The power of ten that is taken for the first digit is not above the value. -/
theorem ten_pow_floorLog10_le {x : Rat} (h : 0 < x) : (10 : Rat) ^ floorLog10 x ≤ x := by
  unfold floorLog10
  simp only
  split
  · next hle => exact hle
  · have hnum : 0 < x.num := Rat.num_pos.mpr h
    have hten : (10 : Rat) ≠ 0 := by norm_num
    have hcount : 1 ≤ digitCount x.num.natAbs := List.length_pos_iff.mpr Nat.toDigits_ne_nil
    have habove : ((10 : Rat) ^ (digitCount x.num.natAbs - 1) : Rat) ≤ x.num := by
      have hle := ten_pow_digitCount_le (n := x.num.natAbs) (by omega)
      have hcast : ((x.num.natAbs : Nat) : Rat) = x.num := by
        rw [← Int.cast_natCast, Int.natAbs_of_nonneg hnum.le]
      rw [← hcast]
      exact_mod_cast hle
    have hbelow : (x.den : Rat) ≤ (10 : Rat) ^ digitCount x.den := by
      exact_mod_cast (lt_ten_pow_digitCount x.den).le
    have hexponent : (digitCount x.num.natAbs : Int) - digitCount x.den - 1 =
        ((digitCount x.num.natAbs - 1 : Nat) : Int) - (digitCount x.den : Nat) := by omega
    have hden : (0 : Rat) < x.den := by exact_mod_cast x.den_pos
    calc (10 : Rat) ^ ((digitCount x.num.natAbs : Int) - digitCount x.den - 1)
        = (10 : Rat) ^ (digitCount x.num.natAbs - 1) / (10 : Rat) ^ digitCount x.den := by
          rw [hexponent, zpow_sub₀ hten, zpow_natCast, zpow_natCast]
      _ ≤ x.num / x.den := div_le_div₀ (by exact_mod_cast hnum.le) habove hden hbelow
      _ = x := x.num_div_den

namespace Binary64

variable {x : Binary64}

/-! ### How large a number is in its unit -/

theorem significand_lt (x : Binary64) : x.significand < 2 * fractions := by
  rw [significand, fractions_eq]
  split <;> omega

/-- A power of two has the least significand. -/
theorem significand_of_isBinade (h : x.isBinade = true) : x.significand = fractions := by
  have hbinade : x.pattern % fractions = 0 ∧ fractions < x.pattern := by simpa [isBinade] using h
  rw [significand, if_neg (by omega), hbinade.1, Nat.add_zero]

theorem magnitude_pos (h : x.pattern ≠ 0) : 0 < x.magnitude := by
  have hpos : 0 < x.significand := by
    rw [significand, fractions_eq]
    split <;> omega
  have hcast : (0 : Rat) < x.significand := by exact_mod_cast hpos
  rw [magnitude_eq]
  exact mul_pos hcast x.unit_pos

/-! ### The grid -/

/-- A multiple that is taken rounds to the number. -/
theorem roundsTo_onGrid {tie : Tie} {place : Int} {coefficient : Nat}
    (h : x.onGrid? tie place = some coefficient) :
    x.roundsTo (coefficient * (10 : Rat) ^ place) = true := by
  unfold onGrid? at h
  simp only at h
  split at h
  · next hlow hhigh =>
      obtain rfl := Option.some.inj h
      split_ifs
      · exact hhigh
      · exact hlow
  · next hlow _ =>
      obtain rfl := Option.some.inj h
      exact hlow
  · next _ hhigh =>
      obtain rfl := Option.some.inj h
      exact hhigh
  · cases h

/-- The number lies between a multiple and the next one. -/
theorem between_multiples (hpos : 0 ≤ x.magnitude) (place : Int) :
    ((x.magnitude / (10 : Rat) ^ place).floor.toNat : Rat) * (10 : Rat) ^ place ≤ x.magnitude ∧
    x.magnitude <
      (((x.magnitude / (10 : Rat) ^ place).floor.toNat + 1 : Nat) : Rat) * (10 : Rat) ^ place := by
  have hgrid : (0 : Rat) < (10 : Rat) ^ place := by positivity
  have hnonneg : 0 ≤ (x.magnitude / (10 : Rat) ^ place).floor := by
    rw [Rat.le_floor_iff]
    exact_mod_cast div_nonneg hpos hgrid.le
  have hcast : ((x.magnitude / (10 : Rat) ^ place).floor.toNat : Rat) =
      (x.magnitude / (10 : Rat) ^ place).floor := by
    rw [← Int.cast_natCast, Int.toNat_of_nonneg hnonneg]
  constructor
  · rw [hcast, ← le_div_iff₀ hgrid]
    exact Rat.floor_le _
  · rw [Nat.cast_add, hcast, ← div_lt_iff₀ hgrid, Nat.cast_one]
    have hlt := @Rat.lt_floor (x.magnitude / (10 : Rat) ^ place)
    linarith

/-- Of two values around the number that are less than a unit apart, one rounds to it.  Just above
a power of two only a quarter of a unit is left below the number, so there they must be less
than half a unit apart. -/
theorem roundsTo_low_or_high {low gap : Rat} (hlow : low ≤ x.magnitude)
    (hhigh : x.magnitude < low + gap) (hdense : gap < x.unit)
    (hbinade : x.isBinade = true → gap < x.unit / 2) :
    x.roundsTo low = true ∨ x.roundsTo (low + gap) = true := by
  by_cases hhalf : low + gap < x.upperEnd
  · exact .inr (roundsTo_of_lt (x.lowerEnd_lt_magnitude.trans hhigh) hhalf)
  · have hunit := x.unit_pos
    rw [upperEnd, not_lt] at hhalf
    have hplain : ¬x.isBinade = true := by
      intro h
      have hpower := hbinade h
      linarith
    have hlower : x.lowerEnd < low := by
      rw [lowerEnd, if_neg hplain]
      linarith
    exact .inl (roundsTo_of_lt hlower (hlow.trans_lt x.magnitude_lt_upperEnd))

/-- Some multiple is taken if they are dense enough. -/
theorem exists_onGrid (tie : Tie) {place : Int} (hpos : 0 ≤ x.magnitude)
    (hdense : (10 : Rat) ^ place < x.unit)
    (hbinade : x.isBinade = true → (10 : Rat) ^ place < x.unit / 2) :
    ∃ coefficient, x.onGrid? tie place = some coefficient := by
  obtain ⟨hlow, hhigh⟩ := between_multiples hpos place
  unfold onGrid?
  simp only
  generalize (x.magnitude / (10 : Rat) ^ place).floor.toNat = low at hlow hhigh
  have hnext : ((low + 1 : Nat) : Rat) * (10 : Rat) ^ place =
      low * (10 : Rat) ^ place + (10 : Rat) ^ place := by
    push_cast
    ring
  rw [hnext] at hhigh ⊢
  have hnear := roundsTo_low_or_high hlow hhigh hdense hbinade
  split
  · exact ⟨_, rfl⟩
  · exact ⟨_, rfl⟩
  · exact ⟨_, rfl⟩
  · next hlownot hhighnot =>
      rw [hlownot, hhighnot] at hnear
      simp at hnear

/-- **Seventeen digits are enough.** -/
theorem exists_seventeen (tie : Tie) (h : x.pattern ≠ 0) :
    ∃ coefficient, x.onGrid? tie (floorLog10 x.magnitude - 16) = some coefficient := by
  have hpos := magnitude_pos h
  have hunit := x.unit_pos
  have htop := ten_pow_floorLog10_le hpos
  have hgrid : (10 : Rat) ^ (floorLog10 x.magnitude - 16) * 10 ^ 16 =
      (10 : Rat) ^ floorLog10 x.magnitude := by
    rw [zpow_sub₀ (by norm_num)]
    norm_num
  rw [← hgrid] at htop
  generalize floorLog10 x.magnitude - 16 = place at htop
  rw [magnitude_eq] at htop
  refine exists_onGrid tie hpos.le ?_ ?_
  · have hlt : (x.significand : Rat) < 2 * 4503599627370496 := by
      have hsignificand := x.significand_lt
      rw [fractions_eq] at hsignificand
      exact_mod_cast hsignificand
    nlinarith
  · intro hbinade
    have heq : (x.significand : Rat) = 4503599627370496 := by
      have hsignificand := significand_of_isBinade hbinade
      rw [fractions_eq] at hsignificand
      exact_mod_cast hsignificand
    rw [heq] at htop
    linarith

/-! ### The decimal that is found -/

/-- Leaving out a zero at the end does not change the value. -/
theorem magnitude_decimalOf (x : Binary64) (coefficient : Nat) (place : Int) :
    (x.decimalOf coefficient place).magnitude = coefficient * (10 : Rat) ^ place := by
  rw [decimalOf]
  split
  · next hzero =>
      have hcast : (coefficient : Rat) = 10 * (coefficient / 10 : Nat) := by
        exact_mod_cast (Nat.mul_div_cancel' (Nat.dvd_of_mod_eq_zero hzero)).symm
      rw [Decimal.magnitude, hcast, zpow_add_one₀ (by norm_num)]
      ring
  · rfl

/-- What is found first rounds to the number, if anything is found. -/
theorem roundsTo_shortestFrom {tie : Tie} {top : Int} {digits more found : Nat}
    (hle : digits ≤ found) (hlt : found < digits + more)
    (h : ∃ coefficient, x.onGrid? tie (top - found) = some coefficient) :
    x.roundsTo (x.shortestFrom tie top digits more).magnitude = true := by
  induction more generalizing digits with
  | zero => omega
  | succ more ih =>
      rw [shortestFrom]
      split
      · next hfound =>
          rw [magnitude_decimalOf]
          exact roundsTo_onGrid hfound
      · next hnone =>
          refine ih ?_ (by omega)
          by_contra hless
          obtain rfl : found = digits := by omega
          obtain ⟨coefficient, hfound⟩ := h
          rw [hnone] at hfound
          cases hfound

/-- **The shortest decimal of a number rounds to it.** -/
theorem roundsTo_shortest (tie : Tie) (x : Binary64) :
    x.roundsTo (x.shortest tie).magnitude = true := by
  have hunit := x.unit_pos
  rw [shortest]
  split
  · next hzero =>
      have hsignificand : x.significand = 0 := by
        rw [significand, hzero, if_pos (by decide)]
      have hmagnitude : x.magnitude = 0 := by rw [magnitude_eq, hsignificand]; simp
      have hvalue : (Decimal.mk x.isNegative 0 0).magnitude = x.magnitude := by
        rw [hmagnitude, Decimal.magnitude]
        simp
      rw [hvalue]
      exact roundsTo_of_lt x.lowerEnd_lt_magnitude x.magnitude_lt_upperEnd
  · next hpos =>
      exact roundsTo_shortestFrom (Nat.zero_le 16) (by omega) (exists_seventeen tie hpos)

/-- Plain numbers with shortest decimals of the same value are the same. -/
theorem eq_of_shortest {tie : Tie} {y : Binary64} (hx : x.IsPlain) (hy : y.IsPlain)
    (h : (x.shortest tie).magnitude = (y.shortest tie).magnitude) : x = y := by
  have hxvalue := x.roundsTo_shortest tie
  rw [h] at hxvalue
  exact eq_of_roundsTo hx hy hxvalue (y.roundsTo_shortest tie)

end Binary64

end Formula
