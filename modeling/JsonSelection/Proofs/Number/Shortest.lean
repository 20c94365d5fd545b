import JsonSelection.Number.Shortest
import JsonSelection.Proofs.Number.Rounding
import Mathlib.Tactic.Ring

/-!
# Digits that read back

The shortest decimal of a positive binary64 number lies in the interval of reals
that are rounded to this number, and in that of no other one.

## What this module delivers

- `Canonical`: the significand and the exponent of a positive number as binary64
  holds them.
- `Shortest.exists_onGrid?`: a grid that is finer than an interval is wide has a
  point in it.
- `Shortest.digits_holds`: among seventeen digits the grid is so fine, so the
  search always ends on a point of the interval.
- `Shortest.eq_of_holds`: the intervals of two numbers have nothing in common,
  as of two neighbours only the even one owns the end between them.

So a decimal stands for one number at most. That no decimal with fewer digits
lies in the interval is not needed and not stated.
-/

set_option autoImplicit false

namespace JsonSelection

/-- The value of a decimal. -/
def Decimal.toRat (d : Decimal) : Rat :=
  d.digits * 10 ^ d.exponent

namespace Binary64

/-- A positive number as binary64 holds it: the significand has at most 53
places, and no fewer unless the exponent is the least one. -/
structure Canonical (significand : Nat) (exponent : Int) : Prop where
  pos : 0 < significand
  lt : significand < 2 ^ 53
  least : -1074 ≤ exponent
  most : exponent ≤ 971
  full : 2 ^ 52 ≤ significand ∨ exponent = -1074

/-- The number of given fields. -/
theorem ofBits_eq (bits : Nat) :
    ofBits bits =
      if bits / pow2 52 % pow2 11 = 2047 then
        if bits % pow2 52 = 0 then infinite (bits / pow2 63 % 2 == 1) else nan
      else if bits / pow2 52 % pow2 11 = 0 then finite (bits / pow2 63 % 2 == 1)
        (bits % pow2 52) (-1074)
      else finite (bits / pow2 63 % 2 == 1) (pow2 52 + bits % pow2 52)
        ((bits / pow2 52 % pow2 11 : Nat) - 1075) :=
  rfl

/-- The parts of a finite number that is not zero. -/
theorem canonical_of_ofBits {bits : Nat} {negative : Bool} {significand : Nat} {exponent : Int}
    (h : ofBits bits = finite negative significand exponent) (hpos : 0 < significand) :
    Canonical significand exponent := by
  have hfield : bits / pow2 52 % pow2 11 < 2048 := Nat.mod_lt _ (by decide)
  have hfraction : bits % pow2 52 < 2 ^ 52 := Nat.mod_lt _ (by decide)
  have hhidden : pow2 52 = 2 ^ 52 := rfl
  rw [ofBits_eq] at h
  generalize bits / pow2 52 % pow2 11 = field at h hfield
  generalize bits % pow2 52 = fraction at h hfraction
  split at h
  · split at h <;> cases h
  · split at h
    · obtain ⟨-, hsignificand, hexponent⟩ := finite.inj h
      exact ⟨hpos, by omega, by omega, by omega, Or.inr hexponent.symm⟩
    · obtain ⟨-, hsignificand, hexponent⟩ := finite.inj h
      exact ⟨hpos, by omega, by omega, by omega, Or.inl (by omega)⟩

end Binary64

namespace Shortest

open Rounding Binary64

/-! ### Grids in quarters of the last place

All comparisons of the search are of natural numbers, scaled so that no fraction
is left. Here each is turned into the comparison of rationals that it stands
for. -/

/-- The step of a decimal grid, in quarters of the last binary place.
Neighbouring points of the grid are so far apart. -/
def step (exponent place : Int) : Rat :=
  10 ^ place / 2 ^ (exponent - 2)

theorem pow10_toNat_div (place : Int) : (pow10 place.toNat : Rat) / pow10 (-place).toNat =
    10 ^ place := by
  have hcast : ∀ n, ((pow10 n : Nat) : Rat) = 10 ^ n := fun n => by
    rw [pow10, Nat.pow_eq, Nat.cast_pow, Nat.cast_ofNat]
  rw [hcast, hcast, ← zpow_natCast, ← zpow_natCast, ← zpow_sub₀ (by norm_num)]
  congr 1
  omega

theorem scale_pos (exponent place : Int) : 0 < (scale exponent place).1 ∧
    0 < (scale exponent place).2 :=
  ⟨Nat.mul_pos (pow2_pos _) (Nat.pow_pos (by decide)),
    Nat.mul_pos (pow2_pos _) (Nat.pow_pos (by decide))⟩

theorem scale_div (exponent place : Int) :
    ((scale exponent place).2 : Rat) / (scale exponent place).1 = step exponent place := by
  have hbinary := pow2_toNat_div (-(exponent - 2))
  rw [neg_neg] at hbinary
  simp only [scale, step]
  rw [Nat.cast_mul, Nat.cast_mul, mul_div_mul_comm, hbinary, pow10_toNat_div, zpow_neg, mul_comm,
    ← div_eq_mul_inv]

theorem le_grid_iff (exponent place : Int) (n point : Nat) :
    n * (scale exponent place).1 ≤ point * (scale exponent place).2 ↔
      (n : Rat) ≤ point * step exponent place := by
  rw [← scale_div, ← mul_div_assoc,
    le_div_iff₀ (Nat.cast_pos.mpr (scale_pos exponent place).1)]
  exact_mod_cast Iff.rfl

theorem grid_le_iff (exponent place : Int) (n point : Nat) :
    point * (scale exponent place).2 ≤ n * (scale exponent place).1 ↔
      point * step exponent place ≤ (n : Rat) := by
  rw [← scale_div, ← mul_div_assoc,
    div_le_iff₀ (Nat.cast_pos.mpr (scale_pos exponent place).1)]
  exact_mod_cast Iff.rfl

theorem lt_grid_iff (exponent place : Int) (n point : Nat) :
    n * (scale exponent place).1 < point * (scale exponent place).2 ↔
      (n : Rat) < point * step exponent place := by
  rw [← not_le, grid_le_iff, not_le]

theorem grid_lt_iff (exponent place : Int) (n point : Nat) :
    point * (scale exponent place).2 < n * (scale exponent place).1 ↔
      point * step exponent place < (n : Rat) := by
  rw [← not_le, le_grid_iff, not_le]

/-! ### Points of an interval -/

/-- A number of quarters of the last place is not below an interval. The lower end
itself only counts if the ends belong to the interval. -/
def Interval.Reaches (range : Interval) (x : Rat) : Prop :=
  if range.closed then (range.lower : Rat) ≤ x else (range.lower : Rat) < x

/-- A number of quarters of the last place is not above an interval. The upper end
itself only counts if the ends belong to the interval. -/
def Interval.Bounds (range : Interval) (x : Rat) : Prop :=
  if range.closed then x ≤ (range.upper : Rat) else x < (range.upper : Rat)

/-- A number of quarters of the last place lies in an interval. -/
def Interval.Holds (range : Interval) (x : Rat) : Prop :=
  range.Reaches x ∧ range.Bounds x

variable {range : Interval} {x : Rat}

theorem Interval.Reaches.le (h : range.Reaches x) : (range.lower : Rat) ≤ x := by
  unfold Interval.Reaches at h
  split at h
  · exact h
  · exact h.le

theorem Interval.Bounds.le (h : range.Bounds x) : x ≤ (range.upper : Rat) := by
  unfold Interval.Bounds at h
  split at h
  · exact h
  · exact h.le

theorem Interval.reaches_of_lt (h : (range.lower : Rat) < x) : range.Reaches x := by
  unfold Interval.Reaches
  split
  · exact h.le
  · exact h

theorem Interval.bounds_of_lt (h : x < (range.upper : Rat)) : range.Bounds x := by
  unfold Interval.Bounds
  split
  · exact h.le
  · exact h

/-- An end belongs to an interval only if the interval is closed. -/
theorem Interval.Holds.closed (h : range.Holds x) (hend : x = range.lower ∨ x = range.upper) :
    range.closed = true := by
  by_contra hopen
  obtain ⟨hreaches, hbounds⟩ := h
  rw [Interval.Reaches, if_neg hopen] at hreaches
  rw [Interval.Bounds, if_neg hopen] at hbounds
  rcases hend with rfl | rfl
  · exact lt_irrefl _ hreaches
  · exact lt_irrefl _ hbounds

variable {exponent place : Int}

/-- The point of a grid that is not above the number, and has the number below
the next one. -/
def below (range : Interval) (exponent place : Int) : Nat :=
  range.middle * (scale exponent place).1 / (scale exponent place).2

theorem below_spec (range : Interval) (exponent place : Int) :
    (below range exponent place : Rat) * step exponent place ≤ range.middle ∧
      (range.middle : Rat) < ((below range exponent place + 1 : Nat) : Rat) *
        step exponent place := by
  rw [← grid_le_iff, ← lt_grid_iff, below]
  exact ⟨Nat.div_mul_le_self _ _, Nat.lt_mul_of_div_lt (Nat.lt_succ_self _)
    (scale_pos exponent place).2⟩

theorem reaches_grid_iff (range : Interval) (exponent place : Int) (point : Nat) :
    (if range.closed then range.lower * (scale exponent place).1 ≤ point *
      (scale exponent place).2
      else range.lower * (scale exponent place).1 < point * (scale exponent place).2) ↔
      range.Reaches (point * step exponent place) := by
  rw [Interval.Reaches, le_grid_iff, lt_grid_iff]

theorem bounds_grid_iff (range : Interval) (exponent place : Int) (point : Nat) :
    (if range.closed then point * (scale exponent place).2 ≤ range.upper *
      (scale exponent place).1
      else point * (scale exponent place).2 < range.upper * (scale exponent place).1) ↔
      range.Bounds (point * step exponent place) := by
  rw [Interval.Bounds, grid_le_iff, grid_lt_iff]

/-- The point that the search takes is one of the two around the number. -/
theorem onGrid?_cases (range : Interval) (exponent place : Int) :
    (onGrid? range exponent place = some (below range exponent place) ∧
        range.Reaches (below range exponent place * step exponent place)) ∨
      (onGrid? range exponent place = some (below range exponent place + 1) ∧
        range.Bounds ((below range exponent place + 1 : Nat) * step exponent place)) ∨
      (onGrid? range exponent place = none ∧
        ¬ (range.Reaches (below range exponent place * step exponent place) ∧
          below range exponent place ≠ 0) ∧
        ¬ range.Bounds ((below range exponent place + 1 : Nat) * step exponent place)) := by
  classical
  simp only [onGrid?, reaches_grid_iff, bounds_grid_iff]
  rw [← below]
  split
  · next h => exact Or.inl ⟨rfl, h.1⟩
  · next h =>
      split
      · next habove => exact Or.inr (Or.inl ⟨rfl, habove⟩)
      · next habove =>
          refine Or.inr (Or.inr ⟨rfl, fun hreaches => ?_, habove⟩)
          exact h ⟨hreaches.1, hreaches.2, Or.inl habove⟩

/-- The ends of an interval, in quarters of the last place, lie on the two sides
of the number. -/
structure Interval.Proper (range : Interval) : Prop where
  lower : range.lower < range.middle
  upper : range.middle < range.upper

theorem proper_interval {significand : Nat} (h : 0 < significand) (exponent : Int) :
    (interval significand exponent).Proper := by
  constructor
  · simp only [interval]
    split <;> omega
  · simp only [interval]
    omega

/-- A point that the search takes lies in the interval. -/
theorem holds_of_onGrid? (hproper : range.Proper) {point : Nat}
    (h : onGrid? range exponent place = some point) :
    range.Holds (point * step exponent place) := by
  obtain ⟨hbelow, habove⟩ := below_spec range exponent place
  have hlower : (range.lower : Rat) < range.middle := Nat.cast_lt.mpr hproper.lower
  have hupper : (range.middle : Rat) < range.upper := Nat.cast_lt.mpr hproper.upper
  rcases onGrid?_cases range exponent place with ⟨heq, hreaches⟩ |
    ⟨heq, hbounds⟩ | ⟨heq, -⟩
  · obtain rfl := Option.some.inj (heq.symm.trans h)
    exact ⟨hreaches, Interval.bounds_of_lt (hbelow.trans_lt hupper)⟩
  · obtain rfl := Option.some.inj (heq.symm.trans h)
    exact ⟨Interval.reaches_of_lt (hlower.trans habove), hbounds⟩
  · rw [heq] at h
    cases h

/-- A grid that is finer than the interval is wide has a point in it. -/
theorem exists_onGrid? (hwide : (range.lower : Rat) + step exponent place < range.upper) :
    ∃ point, onGrid? range exponent place = some point := by
  rcases onGrid?_cases range exponent place with ⟨heq, -⟩ | ⟨heq, -⟩ |
    ⟨-, hreaches, hbounds⟩
  · exact ⟨_, heq⟩
  · exact ⟨_, heq⟩
  · -- the upper point lies beyond the interval, so the lower one cannot lie before it
    have hupper : (range.upper : Rat) ≤ ((below range exponent place + 1 : Nat) : Rat) *
        step exponent place :=
      le_of_not_gt fun hlt => hbounds (Interval.bounds_of_lt hlt)
    rw [Nat.cast_add, Nat.cast_one, add_mul, one_mul] at hupper
    have hlower : (range.lower : Rat) < below range exponent place * step exponent place := by
      linarith
    refine absurd ⟨Interval.reaches_of_lt hlower, ?_⟩ hreaches
    intro hzero
    rw [hzero, Nat.cast_zero, zero_mul] at hlower
    exact absurd hlower (not_lt_of_ge (Nat.cast_nonneg _))

/-! ### The search -/

/-- A decimal in quarters of the last place of a number. -/
def quarters (exponent : Int) (d : Decimal) : Rat :=
  d.toRat / 2 ^ (exponent - 2)

theorem quarters_mk (exponent : Int) (point : Nat) (place : Int) :
    quarters exponent ⟨point, place⟩ = point * step exponent place := by
  rw [quarters, Decimal.toRat, step, mul_div_assoc]

/-- The search ends in the interval if one of the grids that it tries has a
point there. -/
theorem holds_search (hproper : range.Proper) {fuel tried : Nat} (htried : tried < fuel)
    (h : ∃ point, onGrid? range exponent (place - tried) = some point) :
    range.Holds (quarters exponent (search range exponent fuel place)) := by
  induction fuel generalizing place tried with
  | zero => exact absurd htried (Nat.not_lt_zero _)
  | succ fuel ih =>
      rw [search]
      cases hgrid : onGrid? range exponent place with
      | some point =>
          simp only
          rw [quarters_mk]
          exact holds_of_onGrid? hproper hgrid
      | none =>
          simp only
          -- nothing is left to try, so the grid at hand had the point
          cases tried with
          | zero =>
              obtain ⟨point, hpoint⟩ := h
              rw [Nat.cast_zero, sub_zero, hgrid] at hpoint
              cases hpoint
          | succ tried =>
              refine ih (Nat.lt_of_succ_lt_succ htried) ?_
              have hplace : place - 1 - (tried : Int) = place - ((tried + 1 : Nat) : Int) := by
                push_cast
                ring
              rwa [hplace]

theorem dropZeros_toRat (fuel : Nat) (d : Decimal) : (dropZeros fuel d).toRat = d.toRat := by
  induction fuel generalizing d with
  | zero => rfl
  | succ fuel ih =>
      rw [dropZeros]
      split
      · next h =>
          have hdigits : (d.digits : Rat) = 10 * (d.digits / 10 : Nat) := by
            exact_mod_cast (Nat.mul_div_cancel' (Nat.dvd_of_mod_eq_zero h.2)).symm
          rw [ih, Decimal.toRat, Decimal.toRat, hdigits, zpow_add₀ (by norm_num), zpow_one]
          ring
      · rfl

/-! ### Seventeen digits

The estimate of the leading place is off by one at most, which is a finite check
over the exponents in question. Seventeen digits then leave a step that is less
than the interval is wide. -/

theorem reaches_iff (significand : Nat) (exponent place : Int) :
    reaches significand exponent place = true ↔
    (10 : Rat) ^ place ≤ significand * 2 ^ exponent := by
  have hbinary : (0 : Rat) < pow2 (-exponent).toNat := Nat.cast_pos.mpr (pow2_pos _)
  have hdecimal : (0 : Rat) < pow10 (-place).toNat := Nat.cast_pos.mpr (Nat.pow_pos (by decide))
  rw [reaches, decide_eq_true_iff, ← pow10_toNat_div, ← pow2_toNat_div, ← mul_div_assoc,
    div_le_div_iff₀ hdecimal hbinary, mul_comm (pow10 place.toNat : Rat)]
  exact_mod_cast Iff.rfl

/-- A comparison of powers with one factor each gives one for the powers whose
exponents have this ratio. -/
theorem ten_zpow_le_two_zpow {m n : Nat} (hm : m ≠ 0) {k place : Int}
    (hplace : m * place ≤ n * k) (hpow : ((10 : Rat) ^ n) ^ k ≤ (2 ^ m) ^ k) :
    (10 : Rat) ^ place ≤ 2 ^ k := by
  refine le_of_pow_le_pow_left₀ hm (by positivity) ?_
  calc ((10 : Rat) ^ place) ^ m
      = 10 ^ (m * place) := by rw [mul_comm, zpow_mul, zpow_natCast]
    _ ≤ 10 ^ (n * k) := zpow_le_zpow_right₀ (by norm_num) hplace
    _ = (10 ^ n) ^ k := by rw [zpow_mul, zpow_natCast]
    _ ≤ (2 ^ m) ^ k := hpow
    _ = (2 ^ k) ^ m := by
      rw [← zpow_natCast, ← zpow_natCast, ← zpow_mul, ← zpow_mul, mul_comm]

/-- The place that is estimated for a power of two is too great by one at most. -/
theorem estimate_le {k : Int} (hleast : -2000 ≤ k) (hmost : k ≤ 2000) :
    (10 : Rat) ^ (k * 30103 / 100000 - 1) ≤ 2 ^ k := by
  generalize hplace : k * 30103 / 100000 - 1 = place
  rcases le_total 0 k with hk | hk
  · -- `10 ^ 59` is just below `2 ^ 196`, so near that the estimate stays below for all
    -- exponents in the range
    refine ten_zpow_le_two_zpow (m := 196) (n := 59) (by decide) (by push_cast; omega) ?_
    exact zpow_le_zpow_left₀ hk (by positivity) (by norm_num)
  · -- below zero the powers compare the other way round, and `2 ^ 93` is just below `10 ^ 28`
    refine ten_zpow_le_two_zpow (m := 93) (n := 28) (by decide) (by push_cast; omega) ?_
    have hinverse : ((2 : Rat) ^ 93) ^ (-k) ≤ (10 ^ 28) ^ (-k) :=
      zpow_le_zpow_left₀ (by omega) (by positivity) (by norm_num)
    rw [zpow_neg, zpow_neg] at hinverse
    exact (inv_le_inv₀ (by positivity) (by positivity)).mp hinverse

variable {significand : Nat}

/-- The leading place of a number is one that the number reaches. -/
theorem leadingPlace_le (h : Canonical significand exponent) :
    (10 : Rat) ^ leadingPlace significand exponent ≤ significand * 2 ^ exponent := by
  unfold leadingPlace
  simp only
  split
  · next hnext => exact (reaches_iff _ _ _).mp hnext
  · split
    · next hplace => exact (reaches_iff _ _ _).mp hplace
    · have hlog : significand.log2 < 53 := (Nat.log2_lt (Nat.ne_of_gt h.pos)).mpr h.lt
      have hleast := h.least
      have hmost := h.most
      refine (estimate_le (by omega) (by omega)).trans ?_
      rw [zpow_add₀ (by norm_num)]
      exact mul_le_mul_of_nonneg_right (log2_bounds h.pos).1 (by positivity)

/-- Sixteen places below a place that the number reaches, the grid is fine. -/
theorem step_le (h : (10 : Rat) ^ place ≤ significand * 2 ^ exponent) :
    step exponent (place - 16) ≤ 4 * significand / 10 ^ 16 := by
  have hbinary : (0 : Rat) < 2 ^ (exponent - 2) := by positivity
  have hsplit : (2 : Rat) ^ exponent = 4 * 2 ^ (exponent - 2) := by
    rw [zpow_sub₀ (by norm_num)]
    norm_num
    ring
  rw [step, div_le_iff₀ hbinary, zpow_sub₀ (by norm_num), div_mul_eq_mul_div]
  refine div_le_div_of_nonneg_right ?_ (by positivity)
  calc (10 : Rat) ^ place
      ≤ significand * 2 ^ exponent := h
    _ = 4 * significand * 2 ^ (exponent - 2) := by
        rw [hsplit]
        ring

/-- The interval of a number is wider than a step of the grid with seventeen
digits. -/
theorem interval_wide (h : Canonical significand exponent) :
    ((interval significand exponent).lower : Rat) + step exponent
      (leadingPlace significand exponent - 16) <
      (interval significand exponent).upper := by
  have hstep := step_le (leadingPlace_le h)
  have hlt : (significand : Rat) < 2 ^ 53 := by exact_mod_cast h.lt
  have hpos : (1 : Rat) ≤ significand := by exact_mod_cast h.pos
  simp only [interval]
  split
  · next hpower =>
      rw [Nat.cast_sub (by have := h.pos; omega), hpower.1, pow2]
      rw [hpower.1, pow2] at hstep
      norm_num at hstep ⊢
      linarith
  · rw [Nat.cast_sub (by have := h.pos; omega)]
    push_cast
    linarith

/-- The shortest decimal of a number is rounded to this number. -/
theorem digits_holds (h : Canonical significand exponent) :
    (interval significand exponent).Holds (quarters exponent (digits significand exponent)) := by
  rw [quarters, digits, dropZeros_toRat]
  exact holds_search (proper_interval h.pos exponent) (by decide : 16 < 17)
    (exists_onGrid? (by exact_mod_cast interval_wide h))

/-- The shortest decimal of a positive number is not zero: the interval does not
reach down to zero. -/
theorem digits_pos (h : Canonical significand exponent) :
    0 < (digits significand exponent).digits := by
  refine Nat.pos_of_ne_zero fun hzero => ?_
  have hlower := (digits_holds h).1.le
  rw [quarters, Decimal.toRat, hzero, Nat.cast_zero, zero_mul, zero_div] at hlower
  have hpos := h.pos
  have hnone : (interval significand exponent).lower ≤ 0 := by exact_mod_cast hlower
  simp only [interval] at hnone
  split at hnone <;> omega

/-! ### Intervals of different numbers

Of two numbers the smaller one has its interval below that of the greater one.
At equal exponents that is plain; at different ones the greater number is at
least the least one of its exponent. -/

/-- A number lies in its own interval. -/
theorem value_holds (h : 0 < significand) (exponent : Int) :
    (interval significand exponent).Holds (significand * 2 ^ exponent / 2 ^ (exponent - 2)) := by
  have hquarters : (significand * 2 ^ exponent / 2 ^ (exponent - 2) : Rat) =
      (interval significand exponent).middle := by
    rw [mul_div_assoc, ← zpow_sub₀ (by norm_num), sub_sub_cancel, interval]
    push_cast
    ring
  have hproper := proper_interval h exponent
  rw [hquarters]
  exact ⟨Interval.reaches_of_lt (Nat.cast_lt.mpr hproper.lower),
    Interval.bounds_of_lt (Nat.cast_lt.mpr hproper.upper)⟩

variable {s s' : Nat} {e e' : Int} {q : Rat}

/-- Below a power of two the interval reaches half as far. -/
theorem lower_cases (s : Nat) (e : Int) :
    (s = 2 ^ 52 ∧ -1074 < e ∧ (interval s e).lower = 4 * s - 1) ∨
      (¬ (s = 2 ^ 52 ∧ -1074 < e) ∧ (interval s e).lower = 4 * s - 2) := by
  by_cases hpower : s = 2 ^ 52 ∧ -1074 < e
  · exact Or.inl ⟨hpower.1, hpower.2, if_pos hpower⟩
  · exact Or.inr ⟨hpower, if_neg hpower⟩

theorem upper_eq (s : Nat) (e : Int) : (interval s e).upper = 4 * s + 2 := rfl

/-- Where the interval of one number does not go beyond the start of the next
one, a decimal in both is the end that they share, and both are closed. `ratio`
is how many times the last place of the next number is greater. -/
theorem shared_end (ratio : Nat) (hratio : (ratio : Rat) * 2 ^ (e - 2) ≤ 2 ^ (e' - 2))
    (hle : (interval s e).upper ≤ ratio * (interval s' e').lower)
    (hq : (interval s e).Holds (q / 2 ^ (e - 2)))
    (hq' : (interval s' e').Holds (q / 2 ^ (e' - 2))) :
    (interval s e).upper = ratio * (interval s' e').lower ∧ s % 2 = 0 ∧ s' % 2 = 0 := by
  have hplace : (0 : Rat) < 2 ^ (e - 2) := by positivity
  have hplace' : (0 : Rat) < 2 ^ (e' - 2) := by positivity
  have hhigh : q ≤ (interval s e).upper * 2 ^ (e - 2) := (div_le_iff₀ hplace).mp hq.2.le
  have hlow : ((interval s' e').lower : Rat) * 2 ^ (e' - 2) ≤ q :=
    (le_div_iff₀ hplace').mp hq'.1.le
  have hends : ((interval s e).upper : Rat) * 2 ^ (e - 2) ≤
      ratio * (interval s' e').lower * 2 ^ (e - 2) := by
    refine mul_le_mul_of_nonneg_right ?_ hplace.le
    exact_mod_cast hle
  have hscaled : (ratio * (interval s' e').lower * 2 ^ (e - 2) : Rat) ≤
      (interval s' e').lower * 2 ^ (e' - 2) := by
    rw [mul_comm (ratio : Rat), mul_assoc]
    exact mul_le_mul_of_nonneg_left hratio (Nat.cast_nonneg _)
  -- the four numbers stand in a circle, so they are one
  have hupper : q = (interval s e).upper * 2 ^ (e - 2) :=
    le_antisymm hhigh (hends.trans (hscaled.trans hlow))
  have hlower : q = (interval s' e').lower * 2 ^ (e' - 2) :=
    le_antisymm (hhigh.trans (hends.trans hscaled)) hlow
  have hsame : ((interval s e).upper : Rat) = ratio * (interval s' e').lower := by
    refine mul_right_cancel₀ hplace.ne' (le_antisymm hends (hscaled.trans ?_))
    rw [← hlower, hupper]
  refine ⟨by exact_mod_cast hsame, ?_, ?_⟩
  · exact beq_iff_eq.mp (hq.closed (Or.inr (by rw [hupper, mul_div_cancel_right₀ _ hplace.ne'])))
  · exact beq_iff_eq.mp
      (hq'.closed (Or.inl (by rw [hlower, mul_div_cancel_right₀ _ hplace'.ne'])))

/-- No decimal is rounded to a number and to a greater one. -/
theorem not_holds_of_less (h : Canonical s e) (h' : Canonical s' e')
    (hless : e < e' ∨ e = e' ∧ s < s') (hq : (interval s e).Holds (q / 2 ^ (e - 2))) :
    ¬ (interval s' e').Holds (q / 2 ^ (e' - 2)) := by
  intro hq'
  rcases hless with hexponent | ⟨rfl, hsignificand⟩
  · -- the greater number has all its places, and a last place that is twice as great at least
    have hfull : 2 ^ 52 ≤ s' := h'.full.resolve_right (by have := h.least; omega)
    have hratio : ((2 : Nat) : Rat) * 2 ^ (e - 2) ≤ 2 ^ (e' - 2) := by
      have hnext : (2 : Rat) ^ (1 + (e - 2)) ≤ 2 ^ (e' - 2) :=
        zpow_le_zpow_right₀ (by norm_num) (by omega)
      rwa [zpow_add₀ (by norm_num), zpow_one] at hnext
    have hlt := h.lt
    have hleast := h.least
    have hlower := lower_cases s' e'
    have hupper := upper_eq s e
    obtain ⟨hsame, heven, -⟩ := shared_end 2 hratio (by omega) hq hq'
    omega
  · have hlower := lower_cases s' e
    have hupper := upper_eq s e
    obtain ⟨hsame, heven, heven'⟩ := shared_end 1 (by rw [Nat.cast_one, one_mul])
      (by omega) hq hq'
    omega

/-- A decimal is rounded to one number only. -/
theorem eq_of_holds (h : Canonical s e) (h' : Canonical s' e')
    (hq : (interval s e).Holds (q / 2 ^ (e - 2)))
    (hq' : (interval s' e').Holds (q / 2 ^ (e' - 2))) :
    s = s' ∧ e = e' := by
  have hnotLess : ¬ (e < e' ∨ e = e' ∧ s < s') :=
    fun hless => not_holds_of_less h h' hless hq hq'
  have hnotGreater : ¬ (e' < e ∨ e' = e ∧ s' < s) :=
    fun hless => not_holds_of_less h' h hless hq' hq
  omega

end Shortest

end JsonSelection
