import JsonSelection.Number.Rounding
import Mathlib.Algebra.Order.Field.Power
import Mathlib.Tactic.Linarith
import Mathlib.Tactic.Positivity

/-!
# Rounding to nearest

A rounded number has at most 53 binary places, which begin at the place of its
leading one and end at the last place of all.

## What this module delivers

- `Rounding.binaryPlace_spec`: a quotient lies between the power of two at its
  place and the next one.
- `Rounding.nearestSize_eq`: a rounded quotient is a whole number of places,
  moved behind the point.
- `Rounding.nearest_whole`: a whole number of so few places is not changed.
- `Rounding.nearest_ceil_nearest`: a rounded number that is raised to a whole
  one stays as it is when it is rounded again.
- `Rounding.nearest_eq_zero_iff`: a positive number is rounded to zero exactly
  if it is no more than half of the smallest one.

These are what the costs need of rounding; that the result is the nearest number
of all is not used and not stated.
-/

set_option autoImplicit false

namespace JsonSelection

namespace Rounding

/-! ### Quotients of whole numbers -/

/-- Rounding a quotient does not go beyond a whole number that is not below it. -/
theorem divide_le {numerator denominator bound : Nat} (h : numerator ≤ bound * denominator) :
    divide numerator denominator ≤ bound := by
  rcases Nat.eq_zero_or_pos denominator with rfl | hpos
  · have hzero : numerator = 0 := by simpa using h
    simp [divide, hzero]
  · have hsplit := Nat.div_add_mod numerator denominator
    have hquotient : numerator / denominator ≤ bound :=
      Nat.div_le_of_le_mul (by rwa [Nat.mul_comm])
    -- the quotient is rounded up only if it leaves a rest, and then it is below the bound
    have hrest : numerator / denominator = bound → numerator % denominator = 0 := by
      intro heq
      rw [heq, Nat.mul_comm denominator bound] at hsplit
      omega
    simp only [divide]
    split
    · exact hquotient
    · split <;> omega

theorem divide_mul (quotient : Nat) {denominator : Nat} (h : 0 < denominator) :
    divide (quotient * denominator) denominator = quotient := by
  simp [divide, h]

/-- A quotient is rounded to zero if it is no more than one half; one half
itself goes to the even side. -/
theorem divide_eq_zero_iff (numerator : Nat) {denominator : Nat} (h : 0 < denominator) :
    divide numerator denominator = 0 ↔ 2 * numerator ≤ denominator := by
  have hsplit := Nat.div_add_mod numerator denominator
  have hrest := Nat.mod_lt numerator h
  -- a whole part remains in any case, and without one the rest decides
  rcases Nat.eq_zero_or_pos (numerator / denominator) with hzero | hpos
  · rw [hzero, Nat.mul_zero, Nat.zero_add] at hsplit
    simp only [divide, hzero, hsplit]
    split
    · omega
    · split <;> omega
  · have hlarge : denominator ≤ numerator := by
      have := Nat.le_mul_of_pos_right denominator hpos
      omega
    simp only [divide]
    split
    · omega
    · split <;> omega

/-! ### Powers of two

Powers with integer exponents are written with two natural numbers, of which one
is zero; the quotient of the two is the power. -/

theorem cast_pow2 (n : Nat) : ((pow2 n : Nat) : Rat) = 2 ^ n := by
  rw [pow2, Nat.pow_eq, Nat.cast_pow, Nat.cast_ofNat]

theorem pow2_pos (n : Nat) : 0 < pow2 n :=
  Nat.pow_pos (by decide)

/-- A scale by a power of two, written with whole powers on both sides of a
quotient. -/
theorem pow2_toNat_div (e : Int) : (pow2 e.toNat : Rat) / pow2 (-e).toNat = 2 ^ e := by
  rw [cast_pow2, cast_pow2, ← zpow_natCast, ← zpow_natCast, ← zpow_sub₀ (by norm_num)]
  congr 1
  omega

theorem scaled_quotient (numerator denominator : Nat) (e : Int) :
    ((numerator * pow2 e.toNat : Nat) : Rat) / (denominator * pow2 (-e).toNat : Nat) =
      numerator / denominator * 2 ^ e := by
  rw [← pow2_toNat_div, Nat.cast_mul, Nat.cast_mul, mul_div_mul_comm]

/-! ### The place of the leading one -/

theorem two_zpow_le_iff (numerator : Nat) {denominator : Nat} (h : 0 < denominator) (e : Int) :
    denominator * pow2 e.toNat ≤ numerator * pow2 (-e).toNat ↔
      (2 : Rat) ^ e ≤ numerator / denominator := by
  have hdenominator : (0 : Rat) < denominator := Nat.cast_pos.mpr h
  have hscale : (0 : Rat) < pow2 (-e).toNat := Nat.cast_pos.mpr (pow2_pos _)
  rw [← pow2_toNat_div, div_le_div_iff₀ hscale hdenominator, mul_comm]
  exact_mod_cast Iff.rfl

theorem log2_bounds {n : Nat} (h : 0 < n) :
    (2 : Rat) ^ (n.log2 : Int) ≤ n ∧ (n : Rat) < 2 ^ (n.log2 + 1 : Int) := by
  constructor
  · rw [zpow_natCast]
    exact_mod_cast Nat.log2_self_le (Nat.ne_of_gt h)
  · have hlt := Nat.lt_log2_self (n := n)
    have hcast : (2 : Rat) ^ (n.log2 + 1 : Int) = ((2 ^ (n.log2 + 1) : Nat) : Rat) := by
      rw [Nat.cast_pow, ← zpow_natCast]
      rfl
    rw [hcast]
    exact_mod_cast hlt

/-- A quotient lies between the power of two at its place and the next one. -/
theorem binaryPlace_spec {numerator denominator : Nat} (hnumerator : 0 < numerator)
    (hdenominator : 0 < denominator) :
    (2 : Rat) ^ binaryPlace numerator denominator ≤ numerator / denominator ∧
      (numerator / denominator : Rat) < 2 ^ (binaryPlace numerator denominator + 1) := by
  obtain ⟨hlow, hhigh⟩ := log2_bounds hnumerator
  obtain ⟨hlow', hhigh'⟩ := log2_bounds hdenominator
  have hpositive : (0 : Rat) < denominator := Nat.cast_pos.mpr hdenominator
  -- the binary lengths alone leave two places open, and the comparison decides between them
  have habove : (numerator / denominator : Rat) <
      2 ^ ((numerator.log2 : Int) - denominator.log2 + 1) := by
    have hsum : ((numerator.log2 : Int) - denominator.log2 + 1) + denominator.log2 =
        numerator.log2 + 1 := by omega
    rw [div_lt_iff₀ hpositive]
    calc (numerator : Rat)
        < 2 ^ (numerator.log2 + 1 : Int) := hhigh
      _ = 2 ^ ((numerator.log2 : Int) - denominator.log2 + 1) * 2 ^ (denominator.log2 : Int) := by
          rw [← zpow_add₀ (by norm_num), hsum]
      _ ≤ 2 ^ ((numerator.log2 : Int) - denominator.log2 + 1) * denominator :=
          mul_le_mul_of_nonneg_left hlow' (by positivity)
  have hbelow : (2 : Rat) ^ ((numerator.log2 : Int) - denominator.log2 - 1) ≤
      numerator / denominator := by
    have hsum : ((numerator.log2 : Int) - denominator.log2 - 1) + (denominator.log2 + 1) =
        numerator.log2 := by omega
    rw [le_div_iff₀ hpositive]
    calc (2 : Rat) ^ ((numerator.log2 : Int) - denominator.log2 - 1) * denominator
        ≤ 2 ^ ((numerator.log2 : Int) - denominator.log2 - 1) * 2 ^
          (denominator.log2 + 1 : Int) :=
          mul_le_mul_of_nonneg_left hhigh'.le (by positivity)
      _ = 2 ^ (numerator.log2 : Int) := by rw [← zpow_add₀ (by norm_num), hsum]
      _ ≤ numerator := hlow
  simp only [binaryPlace]
  split
  · next h => exact ⟨(two_zpow_le_iff numerator hdenominator _).mp h, habove⟩
  · next h =>
      refine ⟨hbelow, ?_⟩
      rw [sub_add_cancel]
      exact lt_of_not_ge fun hle => h ((two_zpow_le_iff numerator hdenominator _).mpr hle)

/-! ### Rounded quotients -/

/-- The number of places after the point that a rounded quotient has; it is
negative for large ones. -/
def shift (numerator denominator : Nat) : Int :=
  min lastPlace (52 - binaryPlace numerator denominator)

/-- The places of a rounded quotient as a whole number. -/
def significand (numerator denominator : Nat) : Nat :=
  divide (numerator * pow2 (shift numerator denominator).toNat)
    (denominator * pow2 (-shift numerator denominator).toNat)

theorem nearestSize_eq (numerator denominator : Nat) :
    nearestSize numerator denominator =
      significand numerator denominator * 2 ^ (-shift numerator denominator) := by
  have hscale := pow2_toNat_div (-shift numerator denominator)
  rw [neg_neg] at hscale
  rw [← hscale, ← mul_div_assoc]
  change mkRat (significand numerator denominator * pow2 (-shift numerator denominator).toNat : Nat)
    (pow2 (shift numerator denominator).toNat) = _
  rw [Rat.mkRat_eq_div, Int.cast_natCast, Nat.cast_mul]

variable {numerator denominator : Nat}

/-- A rounded quotient has 53 places, or is the next power of two. -/
theorem significand_le (hnumerator : 0 < numerator) (hdenominator : 0 < denominator) :
    significand numerator denominator ≤ 2 ^ 53 := by
  have hpositive : 0 < denominator * pow2 (-shift numerator denominator).toNat :=
    Nat.mul_pos hdenominator (pow2_pos _)
  -- the shift brings the quotient below the power with 53 places
  have hplaces : (numerator / denominator : Rat) * 2 ^ shift numerator denominator ≤ 2 ^ 53 := by
    obtain ⟨-, hlt⟩ := binaryPlace_spec hnumerator hdenominator
    have hle : binaryPlace numerator denominator + 1 + shift numerator denominator ≤
        (53 : Nat) := by
      simp only [shift]
      omega
    calc (numerator / denominator : Rat) * 2 ^ shift numerator denominator
        ≤ 2 ^ (binaryPlace numerator denominator + 1) * 2 ^ shift numerator denominator :=
          mul_le_mul_of_nonneg_right hlt.le (by positivity)
      _ = 2 ^ (binaryPlace numerator denominator + 1 + shift numerator denominator) := by
          rw [← zpow_add₀ (by norm_num)]
      _ ≤ 2 ^ ((53 : Nat) : Int) := zpow_le_zpow_right₀ (by norm_num) hle
      _ = 2 ^ 53 := zpow_natCast _ _
  rw [← scaled_quotient, div_le_iff₀ (Nat.cast_pos.mpr hpositive)] at hplaces
  exact divide_le (by exact_mod_cast hplaces)

/-! ### Whole numbers

A whole number loses nothing if its leading 53 places hold all that is not zero.
So it is written as such a number with zeros behind it. -/

theorem divide_of_eq {numerator denominator quotient : Nat} (hdenominator : 0 < denominator)
    (h : (numerator : Rat) / denominator = quotient) : divide numerator denominator = quotient := by
  have hmul : (numerator : Rat) = quotient * denominator :=
    (div_eq_iff (Nat.cast_ne_zero.mpr (Nat.ne_of_gt hdenominator))).mp h
  have hnumerator : numerator = quotient * denominator := by exact_mod_cast hmul
  rw [hnumerator]
  exact divide_mul quotient hdenominator

/-- A quotient that is whole once its places are moved before the point is not
changed. -/
theorem nearestSize_of_whole (hdenominator : 0 < denominator) {moved : Nat}
    (h : (numerator / denominator : Rat) * 2 ^ shift numerator denominator = moved) :
    nearestSize numerator denominator = numerator / denominator := by
  have hpositive : 0 < denominator * pow2 (-shift numerator denominator).toNat :=
    Nat.mul_pos hdenominator (pow2_pos _)
  have hsignificand : significand numerator denominator = moved := by
    apply divide_of_eq hpositive
    rw [scaled_quotient]
    exact h
  rw [nearestSize_eq, hsignificand, ← h, mul_assoc, ← zpow_add₀ (by norm_num), add_neg_cancel,
    zpow_zero, mul_one]

/-- The places of a whole number of 53 places, with zeros behind them, are whole
once they are moved. -/
theorem exists_moved {m : Nat} (hpositive : 0 < m) (hm : m ≤ 2 ^ 53) (k : Nat) :
    ∃ moved : Nat, (m * 2 ^ (k : Int) : Rat) * 2 ^ shift (m * 2 ^ k) 1 = moved := by
  have hwhole : 0 < m * 2 ^ k := Nat.mul_pos hpositive (Nat.pow_pos (by decide))
  obtain ⟨hlow, hhigh⟩ := binaryPlace_spec hwhole Nat.one_pos
  rw [Nat.cast_one, div_one, Nat.cast_mul, Nat.cast_pow, Nat.cast_ofNat,
    ← zpow_natCast] at hlow hhigh
  -- the leading one stands before the point, so the last place of all is out of reach
  have hone : (1 : Rat) ≤ m * 2 ^ (k : Int) := by
    rw [zpow_natCast]
    exact_mod_cast hwhole
  have hplace : 0 < binaryPlace (m * 2 ^ k) 1 + 1 := by
    refine (zpow_lt_zpow_iff_right₀ (a := (2 : Rat)) (by norm_num)).mp ?_
    rw [zpow_zero]
    exact lt_of_le_of_lt hone hhigh
  have hshift : shift (m * 2 ^ k) 1 = 52 - binaryPlace (m * 2 ^ k) 1 := by
    simp only [shift, lastPlace]
    omega
  have hbound : (m * 2 ^ (k : Int) : Rat) ≤ 2 ^ ((53 : Int) + k) := by
    rw [zpow_add₀ (by norm_num)]
    refine mul_le_mul_of_nonneg_right ?_ (by positivity)
    exact_mod_cast hm
  have htop : binaryPlace (m * 2 ^ k) 1 ≤ 53 + k :=
    (zpow_le_zpow_iff_right₀ (a := (2 : Rat)) (by norm_num)).mp (hlow.trans hbound)
  rw [hshift, mul_assoc, ← zpow_add₀ (by norm_num)]
  rcases lt_or_eq_of_le htop with hless | hequal
  · -- no more places are cut off than there are zeros
    obtain ⟨zeros, hzeros⟩ : ∃ zeros : Nat,
        (k : Int) + (52 - binaryPlace (m * 2 ^ k) 1) = zeros :=
      ⟨((k : Int) + (52 - binaryPlace (m * 2 ^ k) 1)).toNat, by omega⟩
    refine ⟨m * 2 ^ zeros, ?_⟩
    rw [hzeros, zpow_natCast]
    push_cast
    rfl
  · -- one place more is cut off, and the number is the power of two that ends in a zero
    have hm' : m = 2 ^ 53 := by
      apply Nat.le_antisymm hm
      rw [hequal, zpow_add₀ (by norm_num)] at hlow
      exact_mod_cast le_of_mul_le_mul_right hlow (by positivity)
    refine ⟨2 ^ 52, ?_⟩
    have hexponent : (k : Int) + (52 - binaryPlace (m * 2 ^ k) 1) = -1 := by omega
    rw [hexponent, hm']
    norm_num

/-- A whole number of 53 places, with zeros behind them, is not changed. -/
theorem nearestSize_whole {m : Nat} (hpositive : 0 < m) (hm : m ≤ 2 ^ 53) (k : Nat) :
    nearestSize (m * 2 ^ k) 1 = (m * 2 ^ k : Nat) := by
  obtain ⟨moved, hmoved⟩ := exists_moved hpositive hm k
  have hvalue : ((m * 2 ^ k : Nat) : Rat) / (1 : Nat) = m * 2 ^ (k : Int) := by
    rw [Nat.cast_one, div_one, Nat.cast_mul, Nat.cast_pow, Nat.cast_ofNat, zpow_natCast]
  rw [← hvalue] at hmoved
  rw [nearestSize_of_whole Nat.one_pos hmoved, Nat.cast_one, div_one]

/-- A rounded quotient that is raised to a whole number has no more places than
before. -/
theorem ceil_nearestSize (hnumerator : 0 < numerator) (hdenominator : 0 < denominator) :
    ∃ m k : Nat, m ≤ 2 ^ 53 ∧ (nearestSize numerator denominator).ceil =
      (m * 2 ^ k : Nat) := by
  have hplaces := significand_le hnumerator hdenominator
  rw [nearestSize_eq]
  generalize significand numerator denominator = places at hplaces
  rcases le_total (shift numerator denominator) 0 with hwhole | hfraction
  · -- all places stand before the point
    obtain ⟨zeros, hzeros⟩ : ∃ zeros : Nat, -shift numerator denominator = zeros :=
      ⟨(-shift numerator denominator).toNat, by omega⟩
    refine ⟨places, zeros, hplaces, ?_⟩
    have hcast : (places * 2 ^ (-shift numerator denominator) : Rat) =
        (((places * 2 ^ zeros : Nat) : Int) : Rat) := by
      rw [hzeros, zpow_natCast]
      push_cast
      rfl
    rw [hcast, Rat.ceil_intCast]
  · have hsmall : (places * 2 ^ (-shift numerator denominator) : Rat) ≤ places := by
      refine mul_le_of_le_one_right (Nat.cast_nonneg _) ?_
      exact zpow_le_one_of_nonpos₀ (by norm_num) (by omega)
    have hceil : (places * 2 ^ (-shift numerator denominator) : Rat).ceil ≤ (places : Int) := by
      rw [Rat.ceil_le_iff]
      exact_mod_cast hsmall
    have hnonneg : (-1 : Int) < (places * 2 ^ (-shift numerator denominator) : Rat).ceil := by
      rw [Rat.lt_ceil_iff]
      refine lt_of_lt_of_le (by norm_num) (show (0 : Rat) ≤ _ by positivity)
    obtain ⟨raised, hraised⟩ : ∃ raised : Nat,
        (places * 2 ^ (-shift numerator denominator) : Rat).ceil = raised :=
      ⟨(places * 2 ^ (-shift numerator denominator) : Rat).ceil.toNat, by omega⟩
    refine ⟨raised, 0, ?_, ?_⟩
    · omega
    · rw [hraised, Nat.pow_zero, Nat.mul_one]

/-! ### Positive numbers -/

theorem nearest_of_pos {x : Rat} (h : 0 < x) : nearest x = nearestSize x.num.natAbs x.den := by
  have hnum : 0 < x.num := Rat.num_pos.mpr h
  simp only [nearest, if_neg (ne_of_gt hnum), if_neg (not_lt_of_gt hnum)]

theorem natAbs_num_pos {x : Rat} (h : 0 < x) : 0 < x.num.natAbs :=
  Int.natAbs_pos.mpr (ne_of_gt (Rat.num_pos.mpr h))

theorem natAbs_num_div_den {x : Rat} (h : 0 < x) : (x.num.natAbs : Rat) / x.den = x := by
  have hnum : ((x.num.natAbs : Int) : Rat) = x.num := by
    rw [Int.natAbs_of_nonneg (Rat.num_pos.mpr h).le]
  rw [← Int.cast_natCast, hnum, Rat.num_div_den]

theorem nearest_nonneg {x : Rat} (h : 0 < x) : 0 ≤ nearest x := by
  rw [nearest_of_pos h, nearestSize_eq]
  positivity

theorem nearest_whole {m : Nat} (hm : m ≤ 2 ^ 53) (k : Nat) :
    nearest ((m * 2 ^ k : Nat) : Int) = ((m * 2 ^ k : Nat) : Int) := by
  rcases Nat.eq_zero_or_pos m with rfl | hpositive
  · rw [Nat.zero_mul]
    rfl
  · have hwhole : 0 < m * 2 ^ k := Nat.mul_pos hpositive (Nat.pow_pos (by decide))
    rw [nearest_of_pos (by exact_mod_cast hwhole), Rat.num_intCast, Rat.den_intCast,
      Int.natAbs_natCast,
      nearestSize_whole hpositive hm]
    rfl

/-- A number that has been rounded and raised to a whole one is not changed by
another rounding. -/
theorem nearest_ceil_nearest {x : Rat} (h : 0 < x) :
    nearest (nearest x).ceil = (nearest x).ceil := by
  obtain ⟨m, k, hm, hceil⟩ := ceil_nearestSize (natAbs_num_pos h) x.den_pos
  rw [nearest_of_pos h, hceil]
  exact nearest_whole hm k

theorem nearest_eq_zero_iff_shift {x : Rat} (h : 0 < x) :
    nearest x = 0 ↔ x * 2 ^ (shift x.num.natAbs x.den + 1) ≤ 1 := by
  have hpositive : 0 < x.den * pow2 (-shift x.num.natAbs x.den).toNat :=
    Nat.mul_pos x.den_pos (pow2_pos _)
  have hquotient := scaled_quotient x.num.natAbs x.den (shift x.num.natAbs x.den)
  rw [natAbs_num_div_den h, div_eq_iff (Nat.cast_ne_zero.mpr (Nat.ne_of_gt hpositive))] at hquotient
  -- nothing is left if the places come to no more than one half
  rw [nearest_of_pos h, nearestSize_eq, mul_eq_zero_iff_right (by positivity), Nat.cast_eq_zero,
    significand, divide_eq_zero_iff _ hpositive, ← Nat.cast_le (α := Rat),
    Nat.cast_mul, hquotient,
    ← mul_assoc, mul_le_iff_le_one_left (Nat.cast_pos.mpr hpositive),
    zpow_add₀ (by norm_num), zpow_one,
    Nat.cast_ofNat, mul_left_comm, mul_comm (2 : Rat)]

/-- A positive number is rounded to zero if it is no more than half of the
smallest one. -/
theorem nearest_eq_zero_iff {x : Rat} (h : 0 < x) : nearest x = 0 ↔
    x * 2 ^ (lastPlace + 1) ≤ 1 := by
  rw [nearest_eq_zero_iff_shift h]
  rcases le_total lastPlace (52 - binaryPlace x.num.natAbs x.den) with hlast | hplace
  · rw [shift, min_eq_left hlast]
  · -- a number with 53 places is not small
    have hlow := (binaryPlace_spec (natAbs_num_pos h) x.den_pos).1
    rw [natAbs_num_div_den h] at hlow
    have hlarge : 1 < x * 2 ^ (52 - binaryPlace x.num.natAbs x.den + 1) := by
      calc (1 : Rat)
          < 2 ^ (53 : Int) := by norm_num
        _ = 2 ^ binaryPlace x.num.natAbs x.den *
              2 ^ (52 - binaryPlace x.num.natAbs x.den + 1) := by
            rw [← zpow_add₀ (by norm_num)]
            congr 1
            omega
        _ ≤ x * 2 ^ (52 - binaryPlace x.num.natAbs x.den + 1) :=
            mul_le_mul_of_nonneg_right hlow (by positivity)
    have hlarger : x * 2 ^ (52 - binaryPlace x.num.natAbs x.den + 1) ≤ x * 2 ^ (lastPlace + 1) :=
      mul_le_mul_of_nonneg_left (zpow_le_zpow_right₀ (by norm_num) (by omega)) h.le
    rw [shift, min_eq_right hplace]
    exact iff_of_false (not_le_of_gt hlarge) (not_le_of_gt (lt_of_lt_of_le hlarge hlarger))

end Rounding

end JsonSelection
