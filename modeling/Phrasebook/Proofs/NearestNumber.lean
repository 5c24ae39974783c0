import Mathlib.Algebra.Order.Field.Power
import Mathlib.Algebra.Order.Floor.Semifield
import Mathlib.Data.Int.Log
import Mathlib.Data.Rat.Floor
import Mathlib.Tactic.Linarith
import Mathlib.Tactic.NormNum
import Mathlib.Tactic.Positivity
import Mathlib.Tactic.Ring
import Phrasebook.Decimal.Binary64

/-! Rounding as a function of the rational number that is rounded. A fraction and a decimal are rounded alike when
they are equal, whatever digits and powers they are written with, and a number of 64 bits is rounded to itself. -/

namespace Phrasebook.Decimal.Binary64

/-- The numbers that rounding makes: 53 bits, or fewer and the least exponent. -/
def Canonical : Binary64 → Prop
  | .finite _ significand exponent =>
    leastFull ≤ significand ∧ significand < 2 * leastFull ∧ leastExponent ≤ exponent ∧ exponent ≤ greatestExponent ∨
      significand < leastFull ∧ exponent = leastExponent
  | _ => True

end Phrasebook.Decimal.Binary64

namespace Phrasebook.Proofs.NearestNumber

open Decimal Binary64

/-- Rounds to the nearest whole number, and a half to the even neighbour. -/
def roundHalfEven (number : ℚ) : ℕ :=
  let whole := ⌊number⌋₊
  if 2 * (number - whole) < 1 then whole
  else if 1 < 2 * (number - whole) then whole + 1
  else if whole % 2 = 0 then whole else whole + 1

/-- The number of 64 bits that is nearest to a rational one. -/
def nearest (negative : Bool) (number : ℚ) : Binary64 :=
  if number = 0 then .finite negative 0 leastExponent
  else
    let exponent := max (Int.log 2 number - 52) leastExponent
    let significand := roundHalfEven (number / 2 ^ exponent)
    let (significand, exponent) :=
      if significand = 2 * leastFull then (leastFull, exponent + 1) else (significand, exponent)
    if greatestExponent < exponent then .infinite negative else .finite negative significand exponent

theorem roundDiv_eq (numerator : ℕ) {denominator : ℕ} (positive : 0 < denominator) :
    roundDiv numerator denominator = roundHalfEven (numerator / denominator) := by
  have whole : ⌊(numerator : ℚ) / denominator⌋₊ = numerator / denominator := Nat.floor_div_eq_div _ _
  have positive' : (0 : ℚ) < denominator := by exact_mod_cast positive
  have rest : (numerator : ℚ) / denominator - (numerator / denominator : ℕ) =
      (numerator % denominator : ℕ) / denominator := by
    have parts : (numerator : ℚ) = denominator * (numerator / denominator : ℕ) + (numerator % denominator : ℕ) := by
      exact_mod_cast (Nat.div_add_mod numerator denominator).symm
    rw [eq_div_iff positive'.ne', sub_mul, div_mul_cancel₀ _ positive'.ne']
    linarith
  have below : 2 * ((numerator : ℚ) / denominator - (numerator / denominator : ℕ)) < 1 ↔
      2 * (numerator % denominator) < denominator := by
    rw [rest, ← mul_div_assoc, div_lt_one positive']
    exact_mod_cast Iff.rfl
  have above : 1 < 2 * ((numerator : ℚ) / denominator - (numerator / denominator : ℕ)) ↔
      denominator < 2 * (numerator % denominator) := by
    rw [rest, ← mul_div_assoc, one_lt_div positive']
    exact_mod_cast Iff.rfl
  simp only [roundDiv, roundHalfEven, whole, below, above, gt_iff_lt]

theorem roundHalfEven_natCast (number : ℕ) : roundHalfEven number = number := by
  simp [roundHalfEven]

theorem floor_le_roundHalfEven (number : ℚ) : ⌊number⌋₊ ≤ roundHalfEven number := by
  unfold roundHalfEven
  dsimp only
  split_ifs <;> omega

theorem roundHalfEven_le (number : ℚ) : roundHalfEven number ≤ ⌊number⌋₊ + 1 := by
  unfold roundHalfEven
  dsimp only
  split_ifs <;> omega

theorem roundHalfEven_of_lt_half {number : ℚ} (small : 2 * number < 1) : roundHalfEven number = 0 := by
  have whole : ⌊number⌋₊ = 0 := Nat.floor_eq_zero.mpr (by linarith)
  simp [roundHalfEven, whole, small]

theorem log_eq {number : ℚ} {power : ℤ} (low : 2 ^ power ≤ number) (high : number < 2 ^ (power + 1)) :
    Int.log 2 number = power := by
  have positive : 0 < number := (zpow_pos two_pos power).trans_le low
  apply le_antisymm
  · exact Int.lt_add_one_iff.mp ((Int.lt_zpow_iff_log_lt one_lt_two positive).mp (by exact_mod_cast high))
  · exact (Int.zpow_le_iff_le_log one_lt_two positive).mp (by exact_mod_cast low)

theorem scaled_eq (numerator : ℕ) {denominator : ℕ} (positive : 0 < denominator) (power : ℤ) :
    0 < (scaled numerator denominator power).2 ∧
      ((scaled numerator denominator power).1 : ℚ) / (scaled numerator denominator power).2 =
        numerator / denominator * 2 ^ power := by
  unfold scaled
  split
  next up =>
    obtain ⟨count, rfl⟩ := Int.eq_ofNat_of_zero_le up
    refine ⟨positive, ?_⟩
    simp only [Int.toNat_natCast, Nat.shiftLeft_eq, zpow_natCast]
    push_cast
    ring
  next down =>
    obtain ⟨count, same⟩ := Int.eq_ofNat_of_zero_le (by omega : 0 ≤ -power)
    obtain rfl : power = -(count : ℤ) := by omega
    simp only [neg_neg, Int.toNat_natCast, Nat.shiftLeft_eq, zpow_neg, zpow_natCast]
    refine ⟨by positivity, ?_⟩
    push_cast
    rw [div_mul_eq_div_div, div_eq_mul_inv (_ / _)]

theorem nat_div_lt_iff (numerator : ℕ) {denominator bound : ℕ} (positive : 0 < denominator) :
    numerator / denominator < bound ↔ (numerator : ℚ) / denominator < bound := by
  rw [Nat.div_lt_iff_lt_mul positive, div_lt_iff₀ (by exact_mod_cast positive)]
  exact_mod_cast Iff.rfl

theorem div_between {numerator denominator : ℕ} (some : 0 < numerator) (positive : 0 < denominator) :
    (2 : ℚ) ^ ((numerator.log2 : ℤ) - denominator.log2 - 1) ≤ numerator / denominator ∧
      (numerator : ℚ) / denominator < 2 ^ ((numerator.log2 : ℤ) - denominator.log2 + 1) := by
  have numeratorLow : (2 : ℚ) ^ (numerator.log2 : ℤ) ≤ numerator := by
    rw [zpow_natCast]; exact_mod_cast Nat.log2_self_le some.ne'
  have numeratorHigh : (numerator : ℚ) < 2 ^ ((numerator.log2 : ℤ) + 1) := by
    exact_mod_cast (Nat.lt_log2_self : numerator < 2 ^ (numerator.log2 + 1))
  have denominatorLow : (2 : ℚ) ^ (denominator.log2 : ℤ) ≤ denominator := by
    rw [zpow_natCast]; exact_mod_cast Nat.log2_self_le positive.ne'
  have denominatorHigh : (denominator : ℚ) < 2 ^ ((denominator.log2 : ℤ) + 1) := by
    exact_mod_cast (Nat.lt_log2_self : denominator < 2 ^ (denominator.log2 + 1))
  have positive' : (0 : ℚ) < denominator := by exact_mod_cast positive
  constructor
  · rw [le_div_iff₀ positive']
    calc (2 : ℚ) ^ ((numerator.log2 : ℤ) - denominator.log2 - 1) * denominator
        ≤ 2 ^ ((numerator.log2 : ℤ) - denominator.log2 - 1) * 2 ^ ((denominator.log2 : ℤ) + 1) := by gcongr
      _ = 2 ^ (numerator.log2 : ℤ) := by rw [← zpow_add₀ two_ne_zero]; congr 1; ring
      _ ≤ numerator := numeratorLow
  · rw [div_lt_iff₀ positive']
    calc (numerator : ℚ) < 2 ^ ((numerator.log2 : ℤ) + 1) := numeratorHigh
      _ = 2 ^ ((numerator.log2 : ℤ) - denominator.log2 + 1) * 2 ^ (denominator.log2 : ℤ) := by
        rw [← zpow_add₀ two_ne_zero]; congr 1; ring
      _ ≤ 2 ^ ((numerator.log2 : ℤ) - denominator.log2 + 1) * denominator := by gcongr

theorem leastFull_eq : ((leastFull : ℕ) : ℚ) = 2 ^ (52 : ℤ) := by
  rw [show leastFull = 2 ^ 52 from rfl]
  norm_num

/-- The first guess at an exponent, corrected, is the one at which the number has 53 bits. -/
theorem guess_eq {numerator denominator : ℕ} (some : 0 < numerator) (positive : 0 < denominator) (guess : ℤ)
    (guessed : guess = (numerator.log2 : ℤ) - denominator.log2 - 52) :
    (if (scaled numerator denominator (-guess)).1 / (scaled numerator denominator (-guess)).2 < leastFull
      then guess - 1 else guess) = Int.log 2 ((numerator : ℚ) / denominator) - 52 := by
  obtain ⟨low, high⟩ := div_between some positive
  obtain ⟨scaledPositive, value⟩ := scaled_eq numerator positive (-guess)
  have small : (scaled numerator denominator (-guess)).1 / (scaled numerator denominator (-guess)).2 < leastFull ↔
      (numerator : ℚ) / denominator < 2 ^ (52 + guess) := by
    rw [nat_div_lt_iff _ scaledPositive, value, zpow_neg, ← div_eq_mul_inv, leastFull_eq,
      div_lt_iff₀ (zpow_pos two_pos guess), ← zpow_add₀ two_ne_zero]
  split
  next fits =>
    have logarithm : Int.log 2 ((numerator : ℚ) / denominator) = 51 + guess := by
      apply log_eq
      · exact le_trans (zpow_le_zpow_right₀ one_le_two (by omega)) low
      · have above := small.mp fits
        rwa [show (52 + guess : ℤ) = 51 + guess + 1 by ring] at above
    omega
  next exceeds =>
    have logarithm : Int.log 2 ((numerator : ℚ) / denominator) = 52 + guess := by
      apply log_eq
      · exact not_lt.mp (mt small.mpr exceeds)
      · exact lt_of_lt_of_le high (zpow_le_zpow_right₀ one_le_two (by omega))
    omega

theorem ofFraction_eq (negative : Bool) (numerator : ℕ) {denominator : ℕ} (positive : 0 < denominator) :
    ofFraction negative numerator denominator = nearest negative (numerator / denominator) := by
  by_cases none : numerator = 0
  · simp [none, ofFraction, nearest]
  have some := Nat.pos_of_ne_zero none
  have nonzero : (numerator : ℚ) / denominator ≠ 0 := by positivity
  have exponent := guess_eq some positive _ rfl
  have rounded (power : ℤ) : roundDiv (scaled numerator denominator (-power)).1 (scaled numerator denominator (-power)).2 =
      roundHalfEven (numerator / denominator / 2 ^ power) := by
    obtain ⟨scaledPositive, value⟩ := scaled_eq numerator positive (-power)
    rw [roundDiv_eq _ scaledPositive, value, zpow_neg, ← div_eq_mul_inv]
  simp only [ofFraction, none, ite_false, nearest, nonzero, exponent, rounded]

theorem div_lt {number : ℚ} {exponent : ℤ} (enough : Int.log 2 number - 52 ≤ exponent) :
    number / 2 ^ exponent < 2 ^ (53 : ℤ) := by
  have high := Int.lt_zpow_succ_log_self one_lt_two number
  rw [div_lt_iff₀ (zpow_pos two_pos exponent), ← zpow_add₀ two_ne_zero]
  exact lt_of_lt_of_le (by exact_mod_cast high) (zpow_le_zpow_right₀ one_le_two (by omega))

theorem le_div {number : ℚ} (positive : 0 < number) : 2 ^ (52 : ℤ) ≤ number / 2 ^ (Int.log 2 number - 52) := by
  have low := Int.zpow_log_le_self one_lt_two positive
  have exponents : (52 + (Int.log 2 number - 52) : ℤ) = Int.log 2 number := by ring
  rw [le_div_iff₀ (zpow_pos two_pos _), ← zpow_add₀ two_ne_zero, exponents]
  exact_mod_cast low

theorem nearest_of_large {number : ℚ} (large : 2 ^ (1024 : ℤ) ≤ number) (negative : Bool) :
    nearest negative number = .infinite negative := by
  have positive : 0 < number := (zpow_pos two_pos 1024).trans_le large
  have logarithm : 1024 ≤ Int.log 2 number := (Int.zpow_le_iff_le_log one_lt_two positive).mp (by rwa [Nat.cast_ofNat])
  have beyond : greatestExponent < max (Int.log 2 number - 52) leastExponent :=
    lt_max_of_lt_left (by unfold greatestExponent; omega)
  unfold nearest
  rw [if_neg positive.ne']
  dsimp only
  split_ifs
  · rfl
  · omega
  · rfl

theorem nearest_of_small {number : ℚ} (positive : 0 < number) (small : number < 2 ^ (-1075 : ℤ)) (negative : Bool) :
    nearest negative number = .finite negative 0 leastExponent := by
  have logarithm : Int.log 2 number < -1075 := (Int.lt_zpow_iff_log_lt one_lt_two positive).mp (by exact_mod_cast small)
  have exponent : max (Int.log 2 number - 52) leastExponent = leastExponent :=
    max_eq_right (by unfold leastExponent; omega)
  have vanishes : roundHalfEven (number / 2 ^ leastExponent) = 0 := by
    apply roundHalfEven_of_lt_half
    rw [← mul_div_assoc, div_lt_one (zpow_pos two_pos _)]
    calc 2 * number < 2 * 2 ^ (-1075 : ℤ) := by gcongr
      _ = 2 ^ leastExponent := by rw [← zpow_one_add₀ two_ne_zero]; rfl
  unfold nearest
  rw [if_neg positive.ne', exponent]
  dsimp only
  rw [vanishes]
  rfl

/-- A decimal is rounded as the rational number it stands for. -/
theorem ofDecimal_eq (negative : Bool) (digits : ℕ) (exponent : ℤ) :
    ofDecimal negative digits exponent = nearest negative (digits * 10 ^ exponent) := by
  by_cases none : digits = 0
  · simp [none, ofDecimal, nearest]
  have some : 1 ≤ (digits : ℚ) := by exact_mod_cast Nat.pos_of_ne_zero none
  have tenPower : (0 : ℚ) < 10 ^ exponent := zpow_pos (by norm_num) _
  unfold ofDecimal
  rw [if_neg none]
  split_ifs with large small up
  · refine (nearest_of_large ?_ negative).symm
    calc (2 : ℚ) ^ (1024 : ℤ) ≤ 2 ^ (3 * 400 : ℤ) := zpow_le_zpow_right₀ one_le_two (by decide)
      _ = (2 ^ (3 : ℤ)) ^ (400 : ℤ) := zpow_mul _ _ _
      _ ≤ 10 ^ (400 : ℤ) := zpow_le_zpow_left₀ (by decide) (by norm_num) (by norm_num)
      _ ≤ 10 ^ exponent := zpow_le_zpow_right₀ (by norm_num) large.le
      _ ≤ digits * 10 ^ exponent := le_mul_of_one_le_left tenPower.le some
  · -- a negative power of ten is at most that power of eight
    have digitsHigh : (digits : ℚ) < 2 ^ ((digits.log2 : ℤ) + 1) := by
      exact_mod_cast (Nat.lt_log2_self : digits < 2 ^ (digits.log2 + 1))
    have eighths : (10 : ℚ) ^ exponent ≤ 2 ^ (3 * exponent) := by
      obtain ⟨count, same⟩ := Int.eq_ofNat_of_zero_le (by omega : 0 ≤ -exponent)
      obtain rfl : exponent = -(count : ℤ) := by omega
      rw [zpow_mul, zpow_neg, zpow_neg, zpow_natCast, zpow_natCast]
      gcongr
      norm_num
    refine (nearest_of_small (mul_pos (by linarith) tenPower) ?_ negative).symm
    calc (digits : ℚ) * 10 ^ exponent < 2 ^ ((digits.log2 : ℤ) + 1) * 10 ^ exponent := by gcongr
      _ ≤ 2 ^ ((digits.log2 : ℤ) + 1) * 2 ^ (3 * exponent) := by gcongr
      _ = 2 ^ ((digits.log2 : ℤ) + 1 + 3 * exponent) := (zpow_add₀ two_ne_zero _ _).symm
      _ ≤ 2 ^ (-1075 : ℤ) := zpow_le_zpow_right₀ one_le_two (by omega)
  · obtain ⟨count, rfl⟩ := Int.eq_ofNat_of_zero_le up
    rw [ofFraction_eq _ _ one_pos]
    simp
  · obtain ⟨count, same⟩ := Int.eq_ofNat_of_zero_le (by omega : 0 ≤ -exponent)
    obtain rfl : exponent = -(count : ℤ) := by omega
    rw [ofFraction_eq _ _ (by simp)]
    simp [div_eq_mul_inv]

/-- A number of 64 bits is rounded to itself. -/
theorem nearest_self {negative : Bool} {significand : ℕ} {exponent : ℤ}
    (canonical : (Binary64.finite negative significand exponent).Canonical) :
    nearest negative (significand * 2 ^ exponent) = .finite negative significand exponent := by
  have full : ((2 * leastFull : ℕ) : ℚ) = 2 ^ (53 : ℤ) := by
    rw [Nat.cast_mul, leastFull_eq]
    norm_num
  have below : significand < 2 * leastFull := by
    rcases canonical with ⟨_, below, _⟩ | ⟨below, _⟩ <;> omega
  by_cases none : significand = 0
  · rcases canonical with ⟨full, _⟩ | ⟨_, rfl⟩
    · exact absurd (none ▸ full) (by decide)
    · simp [none, nearest]
  have some : (0 : ℚ) < significand := by exact_mod_cast Nat.pos_of_ne_zero none
  have positive : 0 < (significand : ℚ) * 2 ^ exponent := mul_pos some (zpow_pos two_pos _)
  have high : (significand : ℚ) * 2 ^ exponent < 2 ^ (53 + exponent) := by
    rw [zpow_add₀ two_ne_zero, ← full]
    gcongr
  have bound : Int.log 2 ((significand : ℚ) * 2 ^ exponent) < 53 + exponent :=
    (Int.lt_zpow_iff_log_lt one_lt_two positive).mp (by exact_mod_cast high)
  -- rounding chooses the exponent that the number has, and there is nothing to round at it
  have chosen : max (Int.log 2 ((significand : ℚ) * 2 ^ exponent) - 52) leastExponent = exponent := by
    rcases canonical with ⟨above, _, least, _⟩ | ⟨small, rfl⟩
    · have low : (2 : ℚ) ^ (52 + exponent) ≤ significand * 2 ^ exponent := by
        rw [zpow_add₀ two_ne_zero, ← leastFull_eq]
        gcongr
      have logarithm : 52 + exponent ≤ Int.log 2 ((significand : ℚ) * 2 ^ exponent) :=
        (Int.zpow_le_iff_le_log one_lt_two positive).mp (by exact_mod_cast low)
      omega
    · omega
  have exact : (significand : ℚ) * 2 ^ exponent / 2 ^ exponent = significand :=
    mul_div_cancel_right₀ _ (zpow_pos two_pos _).ne'
  have inRange : exponent ≤ greatestExponent := by
    rcases canonical with ⟨_, _, _, most⟩ | ⟨_, rfl⟩
    · exact most
    · decide
  unfold nearest
  rw [if_neg positive.ne', chosen]
  dsimp only
  rw [exact, roundHalfEven_natCast]
  simp only [below.ne, ite_false, not_lt.mpr inRange]

/-- Rounding makes canonical numbers. -/
theorem canonical_nearest (negative : Bool) {number : ℚ} (nonnegative : 0 ≤ number) :
    (nearest negative number).Canonical := by
  by_cases none : number = 0
  · simp [none, nearest, Canonical, leastFull]
  have positive : 0 < number := lt_of_le_of_ne nonnegative (Ne.symm none)
  unfold nearest
  rw [if_neg none]
  dsimp only
  generalize chosen : max (Int.log 2 number - 52) leastExponent = exponent
  have least : leastExponent ≤ exponent := chosen ▸ le_max_right _ _
  have high : roundHalfEven (number / 2 ^ exponent) ≤ 2 * leastFull := by
    have below : number / 2 ^ exponent < 2 ^ (53 : ℤ) := div_lt (chosen ▸ le_max_left _ _)
    have whole : ⌊number / 2 ^ exponent⌋₊ < 2 * leastFull := by
      rw [Nat.floor_lt (by positivity), Nat.cast_mul, leastFull_eq]
      calc number / 2 ^ exponent < 2 ^ (53 : ℤ) := below
        _ = _ := by norm_num
    exact (roundHalfEven_le _).trans whole
  have low : leastExponent < exponent → leastFull ≤ roundHalfEven (number / 2 ^ exponent) := by
    intro above
    obtain rfl : Int.log 2 number - 52 = exponent := by omega
    refine le_trans ?_ (floor_le_roundHalfEven _)
    rw [Nat.le_floor_iff (by positivity), leastFull_eq]
    exact le_div positive
  split_ifs with carries beyond beyond
  · trivial
  · have doubled : leastFull < 2 * leastFull := by decide
    exact Or.inl ⟨le_refl leastFull, doubled, by omega, not_lt.mp beyond⟩
  · trivial
  · by_cases full : leastFull ≤ roundHalfEven (number / 2 ^ exponent)
    · exact Or.inl ⟨full, lt_of_le_of_ne high carries, least, not_lt.mp beyond⟩
    · refine Or.inr ⟨not_le.mp full, ?_⟩
      by_contra different
      exact full (low (lt_of_le_of_ne least (Ne.symm different)))

end Phrasebook.Proofs.NearestNumber
