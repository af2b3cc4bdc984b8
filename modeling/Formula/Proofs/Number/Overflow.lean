/-
Which values are too large for a finite number.

Rounding gives infinity exactly from the middle between the largest finite number and the next
power of two on, `isFinite_nearest`: there the significand is rounded up to fifty-four bits.
The middle itself rounds up, since the significand of the largest finite number is odd.

A literal is decided by its exponent where that is far out of range, and nothing is different
for that: `toBinary64?_eq`.
-/
import Formula.Number.Decimal
import Formula.Proofs.Number.Interval
import Mathlib.Algebra.Order.Floor.Ring
import Mathlib.Data.Rat.Floor

namespace Formula

/-! ### The greatest power of two below a value -/

theorem floorLog2_spec {x : Rat} (h : 0 < x) :
    (2 : Rat) ^ floorLog2 x ≤ x ∧ x < (2 : Rat) ^ (floorLog2 x + 1) := by
  have htwo : (2 : Rat) ≠ 0 := by norm_num
  have hnum : 0 < x.num := Rat.num_pos.mpr h
  have hden : (0 : Rat) < x.den := by exact_mod_cast x.den_pos
  have hcast : ((x.num.natAbs : Nat) : Rat) = x.num := by
    rw [← Int.cast_natCast, Int.natAbs_of_nonneg hnum.le]
  have hnumLow : (2 : Rat) ^ Nat.log2 x.num.natAbs ≤ x.num := by
    rw [← hcast]
    exact_mod_cast Nat.log2_self_le (by omega)
  have hnumHigh : (x.num : Rat) < (2 : Rat) ^ (Nat.log2 x.num.natAbs + 1) := by
    rw [← hcast]
    exact_mod_cast Nat.lt_log2_self
  have hdenLow : (2 : Rat) ^ Nat.log2 x.den ≤ x.den := by
    exact_mod_cast Nat.log2_self_le x.den_pos.ne'
  have hdenHigh : (x.den : Rat) ≤ (2 : Rat) ^ (Nat.log2 x.den + 1) := by
    exact_mod_cast (Nat.lt_log2_self (n := x.den)).le
  have hlow : (2 : Rat) ^ ((Nat.log2 x.num.natAbs : Int) - Nat.log2 x.den - 1) ≤ x :=
    calc (2 : Rat) ^ ((Nat.log2 x.num.natAbs : Int) - Nat.log2 x.den - 1)
        = (2 : Rat) ^ Nat.log2 x.num.natAbs / (2 : Rat) ^ (Nat.log2 x.den + 1) := by
          rw [sub_sub, zpow_sub₀ htwo]
          norm_cast
      _ ≤ x.num / x.den := div_le_div₀ (by exact_mod_cast hnum.le) hnumLow hden hdenHigh
      _ = x := x.num_div_den
  have hhigh : x < (2 : Rat) ^ ((Nat.log2 x.num.natAbs : Int) - Nat.log2 x.den + 1) :=
    calc x = x.num / x.den := x.num_div_den.symm
      _ < (2 : Rat) ^ (Nat.log2 x.num.natAbs + 1) / (2 : Rat) ^ Nat.log2 x.den :=
          div_lt_div₀ hnumHigh hdenLow (by positivity) (by positivity)
      _ = (2 : Rat) ^ ((Nat.log2 x.num.natAbs : Int) - Nat.log2 x.den + 1) := by
          rw [sub_add_eq_add_sub, zpow_sub₀ htwo]
          norm_cast
  unfold floorLog2
  simp only
  split
  · next hle => exact ⟨hle, hhigh⟩
  · next hlt =>
      rw [sub_add_cancel]
      exact ⟨hlow, not_le.mp hlt⟩

/-! ### Rounding to a whole number -/

/-- Rounding stays at a whole number for less than a half above it, and for a half if the number
is even. -/
theorem roundHalfEven_le_iff {n : Int} {x : Rat} :
    roundHalfEven x ≤ n ↔ x < n + 1 / 2 ∨ (x = n + 1 / 2 ∧ n % 2 = 0) := by
  have hlow : (x.floor : Rat) ≤ x := Rat.floor_le x
  have hhigh : x < x.floor + 1 := by exact_mod_cast Rat.lt_floor_add_one x
  unfold roundHalfEven
  simp only
  rcases lt_trichotomy n x.floor with hn | rfl | hn
  · have hcast : (n : Rat) + 1 ≤ x.floor := by exact_mod_cast hn
    have hnot : ¬(x < n + 1 / 2 ∨ (x = n + 1 / 2 ∧ n % 2 = 0)) := by
      rintro (h | ⟨h, -⟩) <;> linarith
    refine iff_of_false ?_ hnot
    split_ifs <;> omega
  · split_ifs with hless htie heven
    · exact iff_of_true le_rfl (.inl (by linarith))
    · exact iff_of_true le_rfl (.inr ⟨by linarith, heven⟩)
    · refine iff_of_false (by omega) ?_
      rintro (h | ⟨-, h⟩)
      · linarith
      · exact heven h
    · refine iff_of_false (by omega) ?_
      rintro (h | ⟨h, -⟩)
      · exact hless (by linarith)
      · exact htie (by linarith)
  · have hcast : (x.floor : Rat) + 1 ≤ n := by exact_mod_cast hn
    refine iff_of_true ?_ (.inl (by linarith))
    split_ifs <;> omega

theorem le_roundHalfEven {n : Int} {x : Rat} (h : n ≤ x) : n ≤ roundHalfEven x := by
  by_contra hlt
  have hle : roundHalfEven x ≤ n - 1 := by omega
  rw [roundHalfEven_le_iff] at hle
  push_cast at hle
  rcases hle with hle | ⟨hle, -⟩ <;> linarith

theorem roundHalfEven_le {n : Int} {x : Rat} (h : x ≤ n) : roundHalfEven x ≤ n :=
  roundHalfEven_le_iff.mpr (.inl (by linarith))

namespace Binary64

/-- The middle between the largest finite number and the next power of two. -/
def overflow : Rat := 2 ^ 1024 - 2 ^ 970

theorem overflow_eq : overflow = ((2 ^ 53 - 1 : Int) + 1 / 2) * (2 : Rat) ^ (971 : Int) := by
  have hfar : (2 : Rat) ^ 1024 = 2 ^ 54 * 2 ^ 970 := by rw [← pow_add]
  have hunit : (2 : Rat) ^ (971 : Int) = 2 * 2 ^ 970 := by
    rw [show (971 : Int) = ((970 + 1 : Nat) : Int) from rfl, zpow_natCast, pow_succ']
  rw [overflow, hfar, hunit]
  generalize (2 : Rat) ^ 970 = middle
  push_cast
  ring

/-! ### The pattern of the nearest number -/

variable {v : Rat}

/-- The value counted in its unit has at most fifty-three bits, and exactly as many if the unit
is not the smallest one. -/
theorem div_unitFor (h : 0 < v) :
    v / (2 : Rat) ^ unitFor v < (2 : Rat) ^ 53 ∧
      (-1074 < unitFor v → (2 : Rat) ^ 52 ≤ v / (2 : Rat) ^ unitFor v) := by
  obtain ⟨hlow, hhigh⟩ := floorLog2_spec h
  have hunit : (0 : Rat) < (2 : Rat) ^ unitFor v := by positivity
  rw [div_lt_iff₀ hunit, le_div_iff₀ hunit]
  constructor
  · calc v < (2 : Rat) ^ (floorLog2 v + 1) := hhigh
      _ ≤ (2 : Rat) ^ ((53 : Nat) + unitFor v) :=
        zpow_le_zpow_right₀ (by norm_num) (by rw [unitFor]; omega)
      _ = (2 : Rat) ^ 53 * (2 : Rat) ^ unitFor v := by
        rw [zpow_add₀ (by norm_num), zpow_natCast]
  · intro hregular
    calc (2 : Rat) ^ 52 * (2 : Rat) ^ unitFor v = (2 : Rat) ^ ((52 : Nat) + unitFor v) := by
          rw [zpow_add₀ (by norm_num), zpow_natCast]
      _ ≤ (2 : Rat) ^ floorLog2 v :=
        zpow_le_zpow_right₀ (by norm_num) (by rw [unitFor] at hregular ⊢; omega)
      _ ≤ v := hlow

/-- **A value rounds to a finite number exactly if it is below the middle.** -/
theorem nearestPattern_lt_iff (h : 0 < v) : nearestPattern v < infinityPattern ↔ v < overflow := by
  obtain ⟨hbits, hregular⟩ := div_unitFor h
  have hpos : (0 : Rat) < (2 : Rat) ^ unitFor v := by positivity
  have hbelow : roundHalfEven (v / (2 : Rat) ^ unitFor v) ≤ 2 ^ 53 :=
    roundHalfEven_le (by exact_mod_cast hbits.le)
  obtain ⟨significand, hsignificand⟩ :
      ∃ n, roundHalfEven (v / (2 : Rat) ^ unitFor v) = n := ⟨_, rfl⟩
  have hpattern : nearestPattern v =
      (unitFor v + 1074).toNat * 4503599627370496 + significand.toNat := by
    rw [nearestPattern, fractions_eq, hsignificand]
  have hinfinity : infinityPattern = 2047 * 4503599627370496 := by
    rw [infinityPattern, fractions_eq]
  have htwo : (2 : Rat) ≠ 0 := by norm_num
  have hone : (1 : Rat) ≤ 2 := by norm_num
  rw [hsignificand] at hbelow
  rw [hpattern, hinfinity]
  rcases lt_trichotomy (unitFor v) 971 with hunit | hunit | hunit
  · refine iff_of_true (by omega) ?_
    calc v < (2 : Rat) ^ 53 * (2 : Rat) ^ unitFor v := (div_lt_iff₀ hpos).mp hbits
      _ ≤ (2 : Rat) ^ 53 * (2 : Rat) ^ (970 : Int) :=
        mul_le_mul_of_nonneg_left (zpow_le_zpow_right₀ hone (by omega)) (by positivity)
      _ ≤ overflow := by
        have hpower : (0 : Rat) < (2 : Rat) ^ (970 : Int) := by positivity
        rw [overflow_eq, show (971 : Int) = 970 + 1 from rfl, zpow_add_one₀ htwo]
        generalize (2 : Rat) ^ (970 : Int) = power at hpower ⊢
        push_cast
        linarith
  · -- The largest finite number has the significand `2 ^ 53 - 1`, which is odd.
    have hlargest : (unitFor v + 1074).toNat * 4503599627370496 + significand.toNat <
        2047 * 4503599627370496 ↔ significand ≤ 2 ^ 53 - 1 := by omega
    rw [hlargest, ← hsignificand, roundHalfEven_le_iff, div_lt_iff₀ hpos, hunit, overflow_eq]
    exact or_iff_left fun heven => absurd heven.2 (by decide)
  · have hsmallest : -1074 < unitFor v := by omega
    have habove : (2 : Int) ^ 52 ≤ significand := by
      rw [← hsignificand]
      exact le_roundHalfEven (by exact_mod_cast hregular hsmallest)
    refine iff_of_false (by omega) (not_lt.mpr ?_)
    calc overflow ≤ (2 : Rat) ^ 1024 := by
          rw [overflow]
          exact sub_le_self _ (by positivity)
      _ = (2 : Rat) ^ 52 * (2 : Rat) ^ (972 : Int) := by
          rw [show (972 : Int) = ((972 : Nat) : Int) from rfl, zpow_natCast, ← pow_add]
      _ ≤ (2 : Rat) ^ 52 * (2 : Rat) ^ unitFor v :=
        mul_le_mul_of_nonneg_left (zpow_le_zpow_right₀ hone (by omega)) (by positivity)
      _ ≤ v := (le_div_iff₀ hpos).mp (hregular hsmallest)

theorem one_lt_overflow : 1 < overflow := by
  rw [overflow_eq]
  exact one_lt_mul_of_lt_of_le (by norm_num) (one_le_zpow₀ (by norm_num) (by norm_num))

theorem overflow_pos : 0 < overflow := zero_lt_one.trans one_lt_overflow

/-- A value without a sign rounds to a finite number exactly if it is below the middle. -/
theorem isFinite_nearest (h : 0 ≤ v) : (nearest false v).isFinite = true ↔ v < overflow := by
  rw [isFinite, nearest, pattern_ofPattern (min_le_right _ _), decide_eq_true_eq, min_lt_iff,
    or_iff_left (lt_irrefl _)]
  split
  · next hzero =>
      rw [hzero]
      exact iff_of_true (by decide) overflow_pos
  · next hzero => exact nearestPattern_lt_iff (lt_of_le_of_ne h (Ne.symm hzero))

/-- A value below half of the smallest number rounds to zero. -/
theorem nearest_of_lt_half (h : 0 ≤ v) (hsmall : v < (2 : Rat) ^ (-1075 : Int)) :
    nearest false v = nearest false 0 := by
  by_cases hzero : v = 0
  · rw [hzero]
  · have hpos : 0 < v := lt_of_le_of_ne h (Ne.symm hzero)
    have hexponent : floorLog2 v < -1075 := by
      have hlow := (floorLog2_spec hpos).1.trans_lt hsmall
      exact (zpow_lt_zpow_iff_right₀ (by norm_num)).mp hlow
    have hunit : unitFor v = -1074 := by
      rw [unitFor]
      omega
    have hround : roundHalfEven (v / (2 : Rat) ^ (-1074 : Int)) ≤ 0 := by
      refine roundHalfEven_le_iff.mpr (.inl ?_)
      rw [div_lt_iff₀ (by positivity)]
      calc v < (2 : Rat) ^ (-1075 : Int) := hsmall
        _ = ((0 : Int) + 1 / 2) * (2 : Rat) ^ (-1074 : Int) := by
          rw [show (-1075 : Int) = -1074 - 1 from rfl, zpow_sub_one₀ (by norm_num)]
          ring
    have hpattern : nearestPattern v = 0 := by
      rw [nearestPattern, hunit, show ((-1074 : Int) + 1074).toNat = 0 from rfl, Nat.zero_mul]
      omega
    rw [nearest, nearest, if_neg hzero, if_pos rfl, hpattern]

end Binary64

/-! ### Literals -/

namespace Decimal

open Binary64

variable {d : Decimal}

theorem magnitude_nonneg (d : Decimal) : 0 ≤ d.magnitude := by
  rw [magnitude]
  positivity

theorem overflow_le_of_isHuge (h : d.isHuge = true) : overflow ≤ d.magnitude := by
  simp only [isHuge, Bool.and_eq_true, decide_eq_true_eq] at h
  obtain ⟨hcoefficient, hexponent⟩ := h
  have hone : (1 : Rat) ≤ d.coefficient := by
    exact_mod_cast Nat.one_le_iff_ne_zero.mpr hcoefficient
  have hpowers : (2 : Nat) ^ 1024 ≤ 10 ^ 309 := by decide +kernel
  calc overflow ≤ (2 : Rat) ^ 1024 := by
        rw [overflow]
        exact sub_le_self _ (by positivity)
    _ ≤ (10 : Rat) ^ 309 := by exact_mod_cast hpowers
    _ = (10 : Rat) ^ ((309 : Nat) : Int) := (zpow_natCast _ _).symm
    _ ≤ (10 : Rat) ^ d.exponent := zpow_le_zpow_right₀ (by norm_num) hexponent
    _ ≤ d.magnitude := le_mul_of_one_le_left (by positivity) hone

theorem magnitude_lt_of_isTiny (h : d.isTiny = true) : d.magnitude < (2 : Rat) ^ (-1075 : Int) := by
  simp only [isTiny, Bool.or_eq_true, Bool.and_eq_true, decide_eq_true_eq] at h
  rcases h with hzero | ⟨hnegative, hbits⟩
  · rw [magnitude, hzero, Nat.cast_zero, zero_mul]
    positivity
  · have hcoefficient : (d.coefficient : Rat) < (2 : Rat) ^ (Nat.log2 d.coefficient + 1) := by
      exact_mod_cast Nat.lt_log2_self
    have hpower : (10 : Rat) ^ d.exponent ≤ (2 : Rat) ^ (3 * d.exponent) := by
      obtain ⟨n, hn⟩ : ∃ n : Nat, d.exponent = -n := ⟨d.exponent.natAbs, by omega⟩
      rw [hn, zpow_mul, zpow_neg, zpow_neg, zpow_natCast, zpow_natCast]
      exact inv_anti₀ (by positivity) (pow_le_pow_left₀ (by positivity) (by norm_num) n)
    calc d.magnitude < (2 : Rat) ^ (Nat.log2 d.coefficient + 1) * (10 : Rat) ^ d.exponent :=
          mul_lt_mul_of_pos_right hcoefficient (by positivity)
      _ ≤ (2 : Rat) ^ (Nat.log2 d.coefficient + 1) * (2 : Rat) ^ (3 * d.exponent) :=
          mul_le_mul_of_nonneg_left hpower (by positivity)
      _ = (2 : Rat) ^ ((Nat.log2 d.coefficient + 1 : Nat) + 3 * d.exponent) := by
          rw [zpow_add₀ (by norm_num), zpow_natCast]
      _ ≤ (2 : Rat) ^ (-1075 : Int) := zpow_le_zpow_right₀ (by norm_num) (by push_cast; omega)

/-- **A literal stands for the nearest number to its value**, if that is finite.  Deciding it by
its exponent alone makes no difference. -/
theorem toBinary64?_eq (hd : d.negative = false) : d.toBinary64? =
    if d.magnitude < overflow then some (nearest false d.magnitude) else none := by
  rw [toBinary64?, hd]
  split
  · next hhuge => rw [if_neg (not_lt.mpr (overflow_le_of_isHuge hhuge))]
  · have hnearest : nearest false (if d.isTiny then 0 else d.magnitude) =
        nearest false d.magnitude := by
      split
      · next htiny =>
          exact (nearest_of_lt_half d.magnitude_nonneg (magnitude_lt_of_isTiny htiny)).symm
      · rfl
    simp only [hnearest, isFinite_nearest d.magnitude_nonneg]

end Decimal

end Formula
