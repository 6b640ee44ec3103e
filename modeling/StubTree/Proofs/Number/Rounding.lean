import Mathlib.Data.Rat.Floor
import Mathlib.Tactic.Linarith
import StubTree.Proofs.Number.ReadingBack

/-! # Rounded decimals

A positive number lies between the power of ten of its first digit and the next one. Rounded to a
number of digits it is moved by at most half of what the last of them counts. A quotient that is a
whole number below 2^53 is not moved at all.
-/

namespace StubTree.Number

variable {num den n k units : Nat}

/-! ## Values -/

namespace Binary64

/-- The exact value of a finite number. -/
def value? (x : Binary64) : Option ℚ :=
  x.signedUnits?.map fun units : Int => (units : ℚ) / one

theorem value?_finite (negative : Bool) (units : Nat) :
    (finite negative units).value? =
      some (if negative then -((units : ℚ) / one) else units / one) := by
  cases negative with
  | false => rfl
  | true =>
    rw [value?, signedUnits?, Option.map_some, Int.cast_neg, Int.cast_natCast, neg_div]
    rfl

theorem one_eq : one = 2 ^ 1074 := by decide +kernel

theorem one_pos : 0 < one := by decide +kernel

theorem cast_one_pos : (0 : ℚ) < (one : Nat) := by
  have h := one_pos
  generalize one = units at h
  exact Nat.cast_pos.mpr h

/-- Even the smallest number reaches 1 within the steps that are counted. -/
theorem one_le : one ≤ 10 ^ 324 := by decide +kernel

end Binary64

/-! ## The nearest whole number -/

theorem divNearest_mul_add {q r : Nat} (hr : r < den) :
    divNearest (q * den + r) den =
      if 2 * r < den then q else if den < 2 * r then q + 1 else q + q % 2 := by
  have hden : 0 < den := by omega
  have hdiv : (q * den + r) / den = q := by
    rw [Nat.add_comm, Nat.add_mul_div_right r q hden, Nat.div_eq_of_lt hr, Nat.zero_add]
  have hmod : (q * den + r) % den = r := by
    rw [Nat.add_comm, Nat.add_mul_mod_self_right, Nat.mod_eq_of_lt hr]
  rw [divNearest, hdiv, hmod]

theorem exists_mul_add (h : 0 < den) (num : Nat) : ∃ q r, r < den ∧ num = q * den + r :=
  ⟨num / den, num % den, Nat.mod_lt num h, (Nat.div_add_mod' num den).symm⟩

theorem divNearest_mul (h : 0 < den) (n : Nat) : divNearest (n * den) den = n := by
  have hzero := divNearest_mul_add (q := n) h
  rw [Nat.add_zero, Nat.mul_zero, if_pos h] at hzero
  exact hzero

theorem abs_divNearest_sub_le (h : 0 < den) (num : Nat) :
    |(divNearest num den : ℚ) - num / den| ≤ 1 / 2 := by
  obtain ⟨q, r, hr, rfl⟩ := exists_mul_add h num
  have hden : (0 : ℚ) < den := Nat.cast_pos.mpr h
  have hquotient : ((q * den + r : Nat) : ℚ) / den = q + r / den := by
    push_cast
    rw [add_div, mul_div_cancel_right₀ _ hden.ne']
  rw [hquotient, divNearest_mul_add hr, abs_le]
  have hbelow : 0 ≤ (r : ℚ) / den := by positivity
  have habove : (r : ℚ) / den ≤ 1 := (div_le_one hden).mpr (by exact_mod_cast hr.le)
  split
  next hlow =>
    have : (r : ℚ) / den ≤ 1 / 2 := by
      rw [div_le_div_iff₀ hden two_pos]
      exact_mod_cast (by omega : r * 2 ≤ 1 * den)
    constructor <;> linarith
  next hlow =>
    split
    next hhigh =>
      have : 1 / 2 ≤ (r : ℚ) / den := by
        rw [div_le_div_iff₀ two_pos hden]
        exact_mod_cast (by omega : 1 * den ≤ r * 2)
      push_cast
      constructor <;> linarith
    next hhigh =>
      have hhalf : (r : ℚ) / den = 1 / 2 := by
        rw [div_eq_div_iff hden.ne' two_ne_zero]
        exact_mod_cast (by omega : r * 2 = 1 * den)
      rcases Nat.mod_two_eq_zero_or_one q with hq | hq <;>
        (rw [hhalf, hq]; push_cast; constructor <;> linarith)

theorem le_of_abs_sub_le_half {x : ℚ} (h : |(k : ℚ) - x| ≤ 1 / 2) (hx : x ≤ n) : k ≤ n := by
  by_contra hlt
  have : (n : ℚ) + 1 ≤ k := by exact_mod_cast not_le.mp hlt
  linarith [(abs_le.mp h).2]

theorem ge_of_abs_sub_le_half {x : ℚ} (h : |(k : ℚ) - x| ≤ 1 / 2) (hx : n ≤ x) : n ≤ k := by
  by_contra hlt
  have : (k : ℚ) + 1 ≤ n := by exact_mod_cast not_le.mp hlt
  linarith [(abs_le.mp h).1]

/-- Halfway below an even number is rounded up to it. -/
theorem divNearest_lt_iff (h : 0 < den) (heven : n % 2 = 0) (num : Nat) :
    divNearest num den < n ↔ 2 * num + den < 2 * (n * den) := by
  obtain ⟨q, r, hr, rfl⟩ := exists_mul_add h num
  rw [divNearest_mul_add hr]
  rcases lt_trichotomy (q + 1) n with hlt | rfl | hgt
  · have hmul := Nat.mul_le_mul_right den (Nat.succ_le_of_lt hlt)
    rw [Nat.succ_eq_add_one, Nat.add_mul, Nat.add_mul] at hmul
    split_ifs <;> omega
  · rw [Nat.add_mul]
    split_ifs <;> omega
  · have hmul := Nat.mul_le_mul_right den (Nat.le_of_lt_succ hgt)
    split_ifs <;> omega

/-! ## Exact quotients -/

namespace Binary64

theorem spacing_dvd_two_pow {e : Nat} (h : units < 2 ^ (e + 53)) : spacing units ∣ 2 ^ e := by
  have hlog : units.log2 - 52 ≤ e := by
    rcases units.eq_zero_or_pos with rfl | hpos
    · simp
    · have := (Nat.log2_lt hpos.ne').mpr h
      omega
  exact Nat.pow_dvd_pow 2 hlog

/-- A whole number below 2^53 is a number of double precision. -/
theorem spacing_dvd (h : n < 2 ^ 53) : spacing (n * one) ∣ n * one := by
  have hbound : n * one < 2 ^ (1074 + 53) := calc
    n * one < 2 ^ 53 * one := Nat.mul_lt_mul_of_pos_right h one_pos
    _ = one * 2 ^ 53 := Nat.mul_comm _ _
    _ = 2 ^ (1074 + 53) := by rw [Nat.pow_add, one_eq]
  have hone : spacing (n * one) ∣ one := by
    have hpow := spacing_dvd_two_pow hbound
    rwa [← one_eq] at hpow
  exact hone.trans (Nat.dvd_mul_left one n)

theorem roundUnits_mul (hden : 0 < den) (h : n < 2 ^ 53) :
    roundUnits (n * one * den) den = n * one := by
  rw [roundUnits, Nat.mul_div_cancel _ hden]
  obtain ⟨k, hk⟩ := spacing_dvd h
  have hpos : 0 < spacing (n * one) := Nat.two_pow_pos _
  generalize spacing (n * one) = step at hk hpos ⊢
  rw [hk]
  have : step * k * den = k * (den * step) := by ring
  rw [this, divNearest_mul (Nat.mul_pos hden hpos), Nat.mul_comm]

end Binary64

/-! ## The first digit -/

/-- The steps end with a number that reaches `one`, and none before does. -/
theorem stepsBelow_spec {one : Nat} {fuel : Nat} (h : one ≤ units * 10 ^ fuel) :
    one ≤ units * 10 ^ Decimal.stepsBelow one fuel units ∧
      ∀ j < Decimal.stepsBelow one fuel units, units * 10 ^ j < one := by
  induction fuel generalizing units with
  | zero => exact ⟨h, fun j hj => absurd hj (Nat.not_lt_zero j)⟩
  | succ fuel ih =>
    rw [Decimal.stepsBelow]
    split
    next hone =>
      exact ⟨by rwa [Nat.pow_zero, Nat.mul_one], fun j hj => absurd hj (Nat.not_lt_zero j)⟩
    next hone =>
      have hten (j : Nat) : units * 10 * 10 ^ j = units * 10 ^ (j + 1) := by ring
      have hone' : one ≤ units * 10 * 10 ^ fuel := by rwa [hten]
      obtain ⟨hreached, hbelow⟩ := ih hone'
      refine ⟨by rwa [← hten], fun j hj => ?_⟩
      cases j with
      | zero => omega
      | succ j =>
        rw [← hten]
        exact hbelow j (Nat.lt_of_succ_lt_succ hj)

theorem lt_length_digitsOf (h : 0 < n) : k < (digitsOf n).length ↔ 10 ^ k ≤ n := by
  cases k with
  | zero => exact iff_of_true (List.length_pos_iff.mpr (digitsOf_ne_nil n)) h
  | succ k =>
    have hle : (digitsOf n).length ≤ k + 1 ↔ n < 10 ^ (k + 1) :=
      Nat.length_toDigits_le_iff (by decide) k.succ_pos
    omega

theorem length_digitsOf_eq_iff (h : 0 < n) :
    (digitsOf n).length = k + 1 ↔ 10 ^ k ≤ n ∧ n < 10 ^ (k + 1) := by
  rw [← Nat.not_le, ← lt_length_digitsOf h, ← lt_length_digitsOf h]
  omega

namespace Decimal

/-- A number is at least the power of ten of its first digit, and below the next one. -/
theorem leadingExponent_spec (h : 0 < units) :
    (10 : ℚ) ^ leadingExponent units ≤ units / Binary64.one ∧
      (units : ℚ) / Binary64.one < 10 ^ (leadingExponent units + 1) := by
  have hpos := Binary64.one_pos
  have hsteps := Binary64.one_le
  rw [leadingExponent]
  -- Only the bounds on it are needed, not the huge number itself.
  generalize Binary64.one = one at hpos hsteps ⊢
  have hone : (0 : ℚ) < one := Nat.cast_pos.mpr hpos
  rw [le_div_iff₀ hone, div_lt_iff₀ hone]
  split
  next hle =>
    obtain ⟨k, hk⟩ : ∃ k, (digitsOf (units / one)).length = k + 1 :=
      Nat.exists_eq_succ_of_ne_zero (by simp [digitsOf_ne_nil])
    obtain ⟨hlow, hhigh⟩ := (length_digitsOf_eq_iff (Nat.div_pos hle hpos)).mp hk
    rw [Nat.le_div_iff_mul_le hpos] at hlow
    rw [Nat.div_lt_iff_lt_mul hpos] at hhigh
    rw [hk, Nat.cast_add, Nat.cast_one, add_sub_cancel_right]
    exact ⟨by exact_mod_cast hlow, by exact_mod_cast hhigh⟩
  next hlt =>
    obtain ⟨hreached, hbelow⟩ := stepsBelow_spec (hsteps.trans (Nat.le_mul_of_pos_left _ h))
    generalize stepsBelow one 324 units = k at hreached hbelow
    cases k with
    | zero => exact absurd hreached (by simpa using hlt)
    | succ k =>
      have hnext := hbelow k k.lt_succ_self
      have hexponent : (-((k + 1 : Nat) : Int) + 1) = -(k : Int) := by omega
      rw [hexponent, zpow_neg, zpow_neg, zpow_natCast, zpow_natCast,
        inv_mul_le_iff₀ (by positivity), lt_inv_mul_iff₀ (by positivity), mul_comm,
        mul_comm (10 ^ k : ℚ)]
      exact ⟨by exact_mod_cast hreached, by exact_mod_cast hnext⟩

/-- The grid that has `count` digits from the power of ten `exponent` on. -/
theorem onGrid_eq (units count : Nat) (exponent : Int) :
    0 < (onGrid units count exponent).2 ∧
      ((onGrid units count exponent).1 : ℚ) / (onGrid units count exponent).2 =
        units / Binary64.one * 10 ^ (count - 1 - exponent) := by
  have hpos := Binary64.one_pos
  rw [onGrid]
  generalize Binary64.one = one at hpos ⊢
  generalize (count : Int) - 1 - exponent = shift
  have hone : (one : ℚ) ≠ 0 := Nat.cast_ne_zero.mpr hpos.ne'
  split
  next hshift =>
    obtain ⟨k, rfl⟩ := Int.eq_ofNat_of_zero_le hshift
    refine ⟨hpos, ?_⟩
    simp only [Int.toNat_natCast, Nat.pow_eq, Nat.cast_mul, Nat.cast_pow, Nat.cast_ofNat,
      zpow_natCast]
    exact mul_div_right_comm _ _ _
  next hshift =>
    obtain ⟨k, hk⟩ := Int.eq_ofNat_of_zero_le (by omega : 0 ≤ -shift)
    obtain rfl : shift = -k := by omega
    refine ⟨Nat.mul_pos hpos (Nat.pow_pos (by decide)), ?_⟩
    simp only [neg_neg, Int.toNat_natCast, Nat.pow_eq, Nat.cast_mul, Nat.cast_pow, Nat.cast_ofNat,
      zpow_neg, zpow_natCast]
    rw [div_mul_eq_div_div, div_eq_mul_inv (_ / _)]

/-- How often the last of `count` digits counts in a rounded number. -/
def gridDigits (count units : Nat) : Nat :=
  divNearest (onGrid units count (leadingExponent units)).1
    (onGrid units count (leadingExponent units)).2

theorem abs_gridDigits_sub_le (count units : Nat) :
    |(gridDigits count units : ℚ) -
      units / Binary64.one * 10 ^ (count - 1 - leadingExponent units)| ≤ 1 / 2 := by
  obtain ⟨hpos, hgrid⟩ := onGrid_eq units count (leadingExponent units)
  rw [← hgrid]
  exact abs_divNearest_sub_le hpos _

/-- Rounding keeps the number of digits, or makes a power of ten of them. -/
theorem gridDigits_bounds (h : 0 < units) (n : Nat) :
    10 ^ n ≤ gridDigits (n + 1) units ∧ gridDigits (n + 1) units ≤ 10 ^ (n + 1) := by
  obtain ⟨hlow, hhigh⟩ := leadingExponent_spec h
  have hnear := abs_gridDigits_sub_le (n + 1) units
  generalize leadingExponent units = e at hlow hhigh hnear
  generalize (units : ℚ) / Binary64.one = q at hlow hhigh hnear
  have hscale : (0 : ℚ) < 10 ^ ((n + 1 : Nat) - 1 - e) := zpow_pos (by norm_num) _
  have hlow := mul_le_mul_of_nonneg_right hlow hscale.le
  have hhigh := mul_lt_mul_of_pos_right hhigh hscale
  rw [← zpow_add₀ (by norm_num)] at hlow hhigh
  have hbelow : e + ((n + 1 : Nat) - 1 - e) = n := by omega
  have habove : e + 1 + ((n + 1 : Nat) - 1 - e) = (n + 1 : Nat) := by omega
  rw [hbelow, zpow_natCast] at hlow
  rw [habove, zpow_natCast] at hhigh
  exact ⟨ge_of_abs_sub_le_half hnear (by exact_mod_cast hlow),
    le_of_abs_sub_le_half hnear (by exact_mod_cast hhigh.le)⟩

/-- Growing by one place changes the digits, not the value. -/
theorem value_rounded (h : 0 < units) (n : Nat) :
    (rounded (n + 1) units).value =
      gridDigits (n + 1) units * (10 : ℚ) ^ (leadingExponent units - n) := by
  obtain ⟨hlow, hhigh⟩ := gridDigits_bounds h n
  have hrounded : rounded (n + 1) units =
    normalize (gridDigits (n + 1) units) (n + 1) (leadingExponent units) := rfl
  rw [hrounded, normalize]
  generalize gridDigits (n + 1) units = digits at hlow hhigh
  generalize leadingExponent units = e
  split
  next hgrown =>
    obtain rfl : digits = 10 ^ (n + 1) := le_antisymm hhigh hgrown
    have hlength : (digitsOf (10 ^ n)).length = n + 1 :=
      (length_digitsOf_eq_iff (Nat.pow_pos (by decide))).mpr
        ⟨le_rfl, Nat.pow_lt_pow_right (by decide) n.lt_succ_self⟩
    have hexponent : e + 1 + 1 - (n + 1 : Nat) = 1 + (e - n) := by omega
    rw [Nat.pow_succ, Nat.mul_div_cancel _ (by decide), value, hlength, hexponent,
      zpow_add₀ (by norm_num), zpow_one, Nat.cast_mul, Nat.cast_ofNat, mul_assoc]
  next hkept =>
    have hlength : (digitsOf digits).length = n + 1 :=
      (length_digitsOf_eq_iff (lt_of_lt_of_le (Nat.pow_pos (by decide)) hlow)).mpr
        ⟨hlow, not_le.mp hkept⟩
    have hexponent : e + 1 - (n + 1 : Nat) = e - n := by omega
    rw [value, hlength, hexponent]

/-- A rounded number is off by at most half of what its last digit counts. -/
theorem abs_value_rounded_sub_le (h : 0 < units) (n : Nat) :
    |(rounded (n + 1) units).value - units / Binary64.one| ≤
      units / Binary64.one / (2 * 10 ^ n) := by
  obtain ⟨hlow, -⟩ := leadingExponent_spec h
  have hnear := abs_gridDigits_sub_le (n + 1) units
  rw [value_rounded h]
  generalize leadingExponent units = e at hlow hnear
  generalize (units : ℚ) / Binary64.one = q at hlow hnear
  have hscale : (0 : ℚ) < 10 ^ (e - n) := zpow_pos (by norm_num) _
  have hback : (10 : ℚ) ^ ((n + 1 : Nat) - 1 - e) * 10 ^ (e - n) = 1 := by
    rw [← zpow_add₀ (by norm_num), ← zpow_zero (10 : ℚ)]
    congr 1
    omega
  calc |(gridDigits (n + 1) units : ℚ) * 10 ^ (e - n) - q|
      = |(gridDigits (n + 1) units : ℚ) - q * 10 ^ ((n + 1 : Nat) - 1 - e)| * 10 ^ (e - n) := by
        rw [← abs_of_pos hscale, ← abs_mul, abs_of_pos hscale, sub_mul, mul_assoc, hback, mul_one]
    _ ≤ 1 / 2 * 10 ^ (e - n) := by gcongr
    _ ≤ q / (2 * 10 ^ n) := by
        rw [zpow_sub₀ (by norm_num), zpow_natCast, div_mul_div_comm, one_mul]
        gcongr

end Decimal

/-! ## Four digits -/

/-- What the brief text of a number of units shows. -/
def briefValue (units : Nat) : ℚ := shownValue (Decimal.rounded 4) units

theorem abs_briefValue_sub_le (units : Nat) :
    |briefValue units - units / Binary64.one| ≤ units / Binary64.one / 2000 := by
  rcases units.eq_zero_or_pos with rfl | hpos
  · rw [briefValue, shownValue_zero, Nat.cast_zero, zero_div, zero_div, sub_zero, abs_zero]
  · have hnear := Decimal.abs_value_rounded_sub_le hpos 3
    rw [briefValue, shownValue_of_pos _ hpos]
    rwa [show (2 * 10 ^ 3 : ℚ) = 2000 by norm_num] at hnear

/-- From ten up to a hundred the last of four digits counts hundredths. -/
theorem briefValue_eq (hlow : 10 * Binary64.one ≤ units) (hhigh : units < 100 * Binary64.one) :
    briefValue units = divNearest (units * 100) Binary64.one / 100 := by
  have hone := Binary64.one_pos
  have hpos : 0 < units := by omega
  have hexponent : Decimal.leadingExponent units = 1 := by
    have hlength : (digitsOf (units / Binary64.one)).length = 1 + 1 := by
      rw [length_digitsOf_eq_iff (Nat.div_pos (by omega) hone), Nat.le_div_iff_mul_le hone,
        Nat.div_lt_iff_lt_mul hone, Nat.pow_one, show 10 ^ (1 + 1) = 100 from rfl]
      exact ⟨hlow, hhigh⟩
    rw [Decimal.leadingExponent, if_pos (by omega), hlength]
    rfl
  have hgrid : Decimal.onGrid units 4 1 = (units * 100, Binary64.one) := by
    unfold Decimal.onGrid
    generalize Binary64.one = one
    rfl
  rw [briefValue, shownValue_of_pos _ hpos, Decimal.value_rounded hpos, Decimal.gridDigits,
    hexponent, hgrid]
  have hscale : (10 : ℚ) ^ ((1 : Int) - (3 : Nat)) = 100⁻¹ := by norm_num
  rw [hscale, div_eq_mul_inv]

end StubTree.Number
