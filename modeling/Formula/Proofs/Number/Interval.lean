/-
The intervals of values that round to numbers.

Numbers without a sign follow each other as their patterns do, and the interval of each ends
where that of the next one begins: in the middle between the two (`upperEnd_eq_lowerEnd`).
The middle itself belongs to one of them only, since of two neighbours exactly one has an even
significand.  So no value rounds to two numbers, `eq_of_roundsTo`.
-/
import Formula.Number.Shortest
import Formula.Proofs.Number.Literal
import Mathlib.Algebra.Order.Field.Power
import Mathlib.Tactic.Linarith
import Mathlib.Tactic.LinearCombination
import Mathlib.Tactic.Positivity
import Mathlib.Tactic.Ring

namespace Formula.Binary64

theorem fractions_eq : fractions = 4503599627370496 := by decide

theorem pattern_ofPattern {p : Nat} (h : p ≤ infinityPattern) :
    (ofPattern false p).pattern = p := by
  have hsign : infinityPattern < signWeight := by decide
  rw [pattern, toNat_ofPattern h, Nat.mod_eq_of_lt (by omega)]

theorem IsPlain.pattern_lt {x : Binary64} (h : x.IsPlain) : x.pattern < infinityPattern := by
  simpa [isFinite] using h.1

theorem IsPlain.isNaN_eq {x : Binary64} (h : x.IsPlain) : x.isNaN = false := by
  have hlt := h.pattern_lt
  rw [isNaN]
  exact decide_eq_false (by omega)

/-- A plain number is its pattern. -/
theorem IsPlain.ofPattern_pattern {x : Binary64} (h : x.IsPlain) :
    ofPattern false x.pattern = x := by
  have hsign : x.bits.toNat < signWeight := by simpa [isNegative] using h.2
  have hpattern : x.pattern = x.bits.toNat := Nat.mod_eq_of_lt hsign
  have hbits := toNat_ofPattern h.pattern_lt.le
  rw [hpattern] at hbits ⊢
  obtain ⟨bits⟩ := x
  exact congrArg Binary64.mk (UInt64.toNat_inj.mp hbits)

theorem IsPlain.eq_of_pattern {x y : Binary64} (hx : x.IsPlain) (hy : y.IsPlain)
    (h : x.pattern = y.pattern) : x = y := by
  rw [← hx.ofPattern_pattern, h, hy.ofPattern_pattern]

/-! ### Units and ends -/

variable {x y : Binary64} {v : Rat}

theorem unit_pos (x : Binary64) : 0 < x.unit := by
  rw [unit]
  positivity

theorem magnitude_eq (x : Binary64) : x.magnitude = x.significand * x.unit := rfl

theorem lowerEnd_lt_magnitude (x : Binary64) : x.lowerEnd < x.magnitude := by
  have hunit := x.unit_pos
  rw [lowerEnd]
  split <;> linarith

theorem magnitude_lt_upperEnd (x : Binary64) : x.magnitude < x.upperEnd := by
  have hunit := x.unit_pos
  rw [upperEnd]
  linarith

/-- A significand is even where the pattern is. -/
theorem significand_mod_two (x : Binary64) : x.significand % 2 = x.pattern % 2 := by
  rw [significand, fractions_eq]
  split <;> omega

/-- The next number is one unit further up.  Behind the last number with a unit, the next one is
counted in units of twice that size. -/
theorem next_number (h : y.pattern = x.pattern + 1) :
    (y.significand = x.significand + 1 ∧ y.unitExponent = x.unitExponent ∧ y.isBinade = false) ∨
    (2 * y.significand = x.significand + 1 ∧ y.unitExponent = x.unitExponent + 1 ∧
      y.isBinade = true) := by
  have hbinade : y.isBinade = true ↔ y.pattern % fractions = 0 ∧ fractions < y.pattern := by
    simp [isBinade]
  rw [← Bool.not_eq_true, hbinade]
  simp only [significand, unitExponent, h, fractions_eq]
  split <;> split <;> omega

/-- **The interval of a number ends where the interval of the next one begins.** -/
theorem upperEnd_eq_lowerEnd (h : y.pattern = x.pattern + 1) : x.upperEnd = y.lowerEnd := by
  rw [upperEnd, lowerEnd, magnitude_eq, magnitude_eq, unit, unit]
  rcases next_number h with ⟨hsignificand, hexponent, hbinade⟩ | ⟨hsignificand, hexponent, hbinade⟩
  · have hcast : (y.significand : Rat) = x.significand + 1 := by exact_mod_cast hsignificand
    rw [hexponent, hbinade, hcast, if_neg (by simp)]
    ring
  · have hcast : 2 * (y.significand : Rat) = x.significand + 1 := by exact_mod_cast hsignificand
    have hunit : (2 : Rat) ^ y.unitExponent = 2 * (2 : Rat) ^ x.unitExponent := by
      rw [hexponent, zpow_add_one₀ (by norm_num), mul_comm]
    rw [hunit, hbinade, if_pos rfl]
    linear_combination (-(2 : Rat) ^ x.unitExponent) * hcast

/-- Further up, intervals begin further up. -/
theorem lowerEnd_lt_lowerEnd {p q : Nat} (hpq : p < q) (hq : q ≤ infinityPattern) :
    (ofPattern false p).lowerEnd < (ofPattern false q).lowerEnd := by
  have hnext : ∀ r, r + 1 ≤ infinityPattern →
      (ofPattern false r).lowerEnd < (ofPattern false (r + 1)).lowerEnd := by
    intro r hr
    have heq : (ofPattern false (r + 1)).pattern = (ofPattern false r).pattern + 1 := by
      rw [pattern_ofPattern hr, pattern_ofPattern (Nat.le_of_succ_le hr)]
    rw [← upperEnd_eq_lowerEnd heq]
    exact (lowerEnd_lt_magnitude _).trans (magnitude_lt_upperEnd _)
  induction q, hpq using Nat.le_induction with
  | base => exact hnext p hq
  | succ q _ ih => exact (ih (Nat.le_of_succ_le hq)).trans (hnext q hq)

/-! ### Rounding -/

theorem le_of_roundsTo (h : x.roundsTo v = true) : x.lowerEnd ≤ v ∧ v ≤ x.upperEnd := by
  rw [roundsTo] at h
  split at h
  · simpa using h
  · have hinside : x.lowerEnd < v ∧ v < x.upperEnd := by simpa using h
    exact ⟨hinside.1.le, hinside.2.le⟩

/-- What lies between the ends rounds to the number. -/
theorem roundsTo_of_lt (hlower : x.lowerEnd < v) (hupper : v < x.upperEnd) :
    x.roundsTo v = true := by
  rw [roundsTo]
  split
  · simpa using ⟨hlower.le, hupper.le⟩
  · simpa using ⟨hlower, hupper⟩

/-- The ends belong only to numbers with an even pattern. -/
theorem even_of_roundsTo_end (h : x.roundsTo v = true) (hend : v = x.lowerEnd ∨ v = x.upperEnd) :
    x.pattern % 2 = 0 := by
  rw [← significand_mod_two]
  by_contra hodd
  rw [roundsTo, if_neg hodd] at h
  have hinside : x.lowerEnd < v ∧ v < x.upperEnd := by simpa using h
  rcases hend with rfl | rfl
  · exact lt_irrefl _ hinside.1
  · exact lt_irrefl _ hinside.2

theorem not_lt_of_roundsTo (hy : y.IsPlain) (hxv : x.roundsTo v = true)
    (hyv : y.roundsTo v = true) : ¬x.pattern < y.pattern := by
  intro hlt
  have hbound := hy.pattern_lt
  have hbegin : x.upperEnd = (ofPattern false (x.pattern + 1)).lowerEnd :=
    upperEnd_eq_lowerEnd (pattern_ofPattern (by omega))
  obtain ⟨-, hupper⟩ := le_of_roundsTo hxv
  obtain ⟨hlower, -⟩ := le_of_roundsTo hyv
  by_cases hnext : x.pattern + 1 = y.pattern
  · rw [hnext, hy.ofPattern_pattern] at hbegin
    have hxeven := even_of_roundsTo_end hxv (.inr (le_antisymm hupper (hbegin ▸ hlower)))
    have hyeven := even_of_roundsTo_end hyv (.inl (le_antisymm (hbegin ▸ hupper) hlower))
    omega
  · have hbetween := lowerEnd_lt_lowerEnd (p := x.pattern + 1) (q := y.pattern) (by omega)
      hbound.le
    rw [hy.ofPattern_pattern, ← hbegin] at hbetween
    exact absurd (hlower.trans hupper) (not_le.mpr hbetween)

/-- **No value rounds to two numbers.** -/
theorem eq_of_roundsTo (hx : x.IsPlain) (hy : y.IsPlain) (hxv : x.roundsTo v = true)
    (hyv : y.roundsTo v = true) : x = y := by
  have hlt := not_lt_of_roundsTo hy hxv hyv
  have hgt := not_lt_of_roundsTo hx hyv hxv
  exact hx.eq_of_pattern hy (by omega)

end Formula.Binary64
