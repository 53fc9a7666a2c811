import Mathlib.Algebra.Order.Field.Power
import Mathlib.Algebra.Order.Ring.Rat
import Mathlib.Tactic.FieldSimp
import Mathlib.Tactic.Linarith
import Mathlib.Tactic.Positivity
import Mathlib.Tactic.Ring
import ChainBoard.Decimal.Binary64

/-!
# The error of binary fractions

A fraction is held as a binary fraction near it: within half a unit in the last place, or within half
of the least binary fraction where the mantissa is not full. No fraction up to the greatest binary
fraction is out of range.

## Main definitions

* `Binary64.toRat`: a binary fraction as a rational number
* `Binary64.IsNear`: a binary fraction within the error of one rounding

## Main results

* `Binary64.exponentOf_spec`: the mantissa of a fraction fits, and it is full above the least exponent
* `Binary64.exists_ofRatio?`: fractions up to the greatest binary fraction are in range
* `Binary64.isNear_of_ofRatio?`: what a fraction is held as is near to it
-/

namespace ChainBoard.Decimal

/-! ## The nearest whole number -/

/-- The nearest whole number is at most half too great. -/
theorem two_mul_nearest_le (a b : ℕ) : 2 * (b * nearest a b) ≤ 2 * a + b := by
  have hdiv := Nat.div_add_mod a b
  unfold nearest
  dsimp only
  split
  · omega
  · rw [Nat.mul_add]
    omega

/-- The nearest whole number is at most half too small. -/
theorem le_two_mul_nearest {a b : ℕ} (hb : 0 < b) : 2 * a ≤ 2 * (b * nearest a b) + b := by
  have hdiv := Nat.div_add_mod a b
  have hmod := Nat.mod_lt a hb
  unfold nearest
  dsimp only
  split
  · omega
  · rw [Nat.mul_add]
    omega

theorem abs_nearest_sub_le {a b : ℕ} (hb : 0 < b) : |(nearest a b : ℚ) - a / b| ≤ 1 / 2 := by
  have hpos : (0 : ℚ) < b := by exact_mod_cast hb
  have hle : (2 : ℚ) * (b * nearest a b) ≤ 2 * a + b := by exact_mod_cast two_mul_nearest_le a b
  have hge : (2 : ℚ) * a ≤ 2 * (b * nearest a b) + b := by exact_mod_cast le_two_mul_nearest hb
  have hab : (a : ℚ) / b * b = a := div_mul_cancel₀ _ hpos.ne'
  rw [abs_le]
  constructor
  · nlinarith
  · nlinarith

/-- A whole number that is not exceeded is not exceeded by the nearest one. -/
theorem nearest_le {a b n : ℕ} (hb : 0 < b) (h : (a : ℚ) / b ≤ n) : nearest a b ≤ n := by
  have hnear := (abs_le.1 (abs_nearest_sub_le (a := a) hb)).2
  have hlt : (nearest a b : ℚ) < n + 1 := by linarith
  have : nearest a b < n + 1 := by exact_mod_cast hlt
  omega

/-! ## Fractions and powers of two -/

theorem perPower_div (num den : ℕ) (e : ℤ) :
    ((perPower num den e).1 : ℚ) / (perPower num den e).2 = num / den / 2 ^ e := by
  unfold perPower
  split
  · rename_i he
    obtain ⟨n, rfl⟩ := Int.eq_ofNat_of_zero_le he
    simp [div_div]
  · rename_i he
    obtain ⟨n, hn⟩ := Int.eq_ofNat_of_zero_le (show 0 ≤ -e by omega)
    obtain rfl : e = -n := by omega
    simp [zpow_neg, mul_div_right_comm]

theorem perPower_pos {num den : ℕ} (h : 0 < den) (e : ℤ) : 0 < (perPower num den e).2 := by
  unfold perPower
  split
  · simpa using h
  · exact h

theorem exists_perPower (num : ℕ) {den : ℕ} (h : den ≠ 0) (e : ℤ) :
    ∃ a b, perPower num den e = (a, b) ∧ 0 < b ∧ (a : ℚ) / b = num / den / 2 ^ e :=
  ⟨_, _, rfl, perPower_pos (Nat.pos_of_ne_zero h) e, perPower_div num den e⟩

namespace Binary64

/-- The rational number that a binary fraction is. -/
def toRat (x : Binary64) : ℚ :=
  x.mantissa * 2 ^ x.exponent

theorem toRat_nonneg (x : Binary64) : 0 ≤ x.toRat := by
  unfold toRat
  positivity

theorem ratio_pos (x : Binary64) : 0 < x.ratio.2 :=
  perPower_pos Nat.one_pos _

theorem ratio_div (x : Binary64) : (x.ratio.1 : ℚ) / x.ratio.2 = x.toRat := by
  rw [ratio, perPower_div, toRat, zpow_neg]
  simp

/-- The binary logarithms of numerator and denominator tell a fraction but for one power of two on
each side. -/
theorem div_mem_powers {num den : ℕ} (hnum : num ≠ 0) (hden : den ≠ 0) :
    let k : ℤ := num.log2 - den.log2
    (2 : ℚ) ^ (k - 1) < num / den ∧ (num : ℚ) / den < 2 ^ (k + 1) := by
  intro k
  have hpos : (0 : ℚ) < den := by exact_mod_cast Nat.pos_of_ne_zero hden
  have hnum₁ : (2 : ℚ) ^ (num.log2 : ℤ) ≤ num := by
    exact_mod_cast Nat.log2_self_le hnum
  have hnum₂ : (num : ℚ) < 2 ^ ((num.log2 : ℤ) + 1) := by
    exact_mod_cast Nat.lt_log2_self (n := num)
  have hden₁ : (2 : ℚ) ^ (den.log2 : ℤ) ≤ den := by
    exact_mod_cast Nat.log2_self_le hden
  have hden₂ : (den : ℚ) < 2 ^ ((den.log2 : ℤ) + 1) := by
    exact_mod_cast Nat.lt_log2_self (n := den)
  rw [lt_div_iff₀ hpos, div_lt_iff₀ hpos]
  constructor
  · calc (2 : ℚ) ^ (k - 1) * den < 2 ^ (k - 1) * 2 ^ ((den.log2 : ℤ) + 1) := by gcongr
      _ = 2 ^ (num.log2 : ℤ) := by
        rw [← zpow_add₀ two_ne_zero]
        congr 1
        omega
      _ ≤ num := hnum₁
  · calc (num : ℚ) < 2 ^ ((num.log2 : ℤ) + 1) := hnum₂
      _ = 2 ^ (k + 1) * 2 ^ (den.log2 : ℤ) := by
        rw [← zpow_add₀ two_ne_zero]
        congr 1
        omega
      _ ≤ 2 ^ (k + 1) * den := by gcongr

/-- The mantissa of a fraction fits at its exponent, and it is full above the least exponent. -/
theorem exponentOf_spec {num den : ℕ} (hnum : num ≠ 0) (hden : den ≠ 0) :
    (num : ℚ) / den < 2 ^ (exponentOf num den + 53) ∧
      (minExponent < exponentOf num den → (2 : ℚ) ^ (exponentOf num den + 52) ≤ num / den) := by
  obtain ⟨hlow, hhigh⟩ := div_mem_powers hnum hden
  -- one of two exponents fits, whichever it is
  have hfits : ∃ e : ℤ, exponentOf num den = max e minExponent ∧
      (2 : ℚ) ^ (e + 52) ≤ num / den ∧ (num : ℚ) / den < 2 ^ (e + 53) := by
    set k : ℤ := num.log2 - den.log2 with hk
    have hpos : (0 : ℚ) < (perPower num den (k - 53)).2 := by
      exact_mod_cast perPower_pos (Nat.pos_of_ne_zero hden) _
    have htest : (perPower num den (k - 53)).1 < (perPower num den (k - 53)).2 * mantissaBound ↔
        (num : ℚ) / den < 2 ^ k := by
      have hsplit : (2 : ℚ) ^ k = mantissaBound * 2 ^ (k - 53) := by
        have hbound : (mantissaBound : ℚ) = 2 ^ (53 : ℤ) := by norm_num [mantissaBound]
        rw [hbound, ← zpow_add₀ two_ne_zero]
        congr 1
        omega
      rw [hsplit, ← div_lt_iff₀ (by positivity), ← perPower_div, div_lt_iff₀ hpos, mul_comm]
      exact_mod_cast Iff.rfl
    unfold exponentOf
    dsimp only
    rw [← hk]
    split
    · rename_i hlt
      refine ⟨k - 53, rfl, ?_, ?_⟩
      · rw [show k - 53 + 52 = k - 1 by omega]
        exact hlow.le
      · rw [show k - 53 + 53 = k by omega]
        exact htest.1 hlt
    · rename_i hge
      refine ⟨k - 52, rfl, ?_, ?_⟩
      · rw [show k - 52 + 52 = k by omega]
        exact not_lt.1 fun h => hge (htest.2 h)
      · rw [show k - 52 + 53 = k + 1 by omega]
        exact hhigh
  obtain ⟨e, he, hle, hlt⟩ := hfits
  rw [he]
  constructor
  · refine hlt.trans_le (zpow_le_zpow_right₀ one_le_two ?_)
    omega
  · intro hmin
    rwa [max_eq_left (by omega)]

/-- The greatest binary fraction. -/
def greatest : Binary64 :=
  ⟨mantissaBound - 1, maxExponent⟩

theorem toRat_greatest : greatest.toRat = (2 ^ 53 - 1) * 2 ^ 971 := by
  norm_num [toRat, greatest, mantissaBound, maxExponent]

theorem natCast_le_greatest {n : ℕ} (h : n ≤ (2 ^ 53 - 1) * 2 ^ 971) : (n : ℚ) ≤ greatest.toRat := by
  refine (Nat.cast_le.2 h).trans_eq ?_
  rw [toRat_greatest, Nat.cast_mul, Nat.cast_pow]
  norm_num

/-- No exponent is too great for a fraction up to the greatest binary fraction. -/
theorem exponentOf_le {num den : ℕ} (hnum : num ≠ 0) (hden : den ≠ 0)
    (h : (num : ℚ) / den ≤ greatest.toRat) : exponentOf num den ≤ maxExponent := by
  have hfull := (exponentOf_spec hnum hden).2
  generalize exponentOf num den = e at *
  by_contra hgt
  rw [not_le] at hgt
  -- a full mantissa one exponent above makes more than the greatest binary fraction
  have hgreat : greatest.toRat < 2 ^ (maxExponent + 1 + 52) := by
    have hsplit : (2 : ℚ) ^ (maxExponent + 1 + 52) = 2 ^ 53 * 2 ^ 971 := by
      rw [← pow_add]
      rfl
    rw [hsplit, toRat_greatest]
    gcongr
    norm_num
  have hle : (2 : ℚ) ^ (maxExponent + 1 + 52) ≤ 2 ^ (e + 52) :=
    zpow_le_zpow_right₀ one_le_two (by omega)
  exact absurd (hle.trans ((hfull (lt_trans (by decide) hgt)).trans h)) hgreat.not_ge

theorem two_mul_half_mantissaBound : 2 * (mantissaBound / 2) = mantissaBound := by
  decide

/-- What a fraction is held as if that is in range: the nearest mantissa at its exponent, or half of
it one exponent above if it has become too great. -/
theorem exists_rounded {num den a b : ℕ} {e : ℤ} (hnum : num ≠ 0) (he : exponentOf num den = e)
    (h : perPower num den e = (a, b)) :
    ∃ x : Binary64, x.toRat = nearest a b * 2 ^ e ∧
      (x.exponent = e ∨ (nearest a b = mantissaBound ∧ x.exponent = e + 1)) ∧
      (x.exponent ≤ maxExponent → ofRatio? num den = some x) ∧
      (¬ x.exponent ≤ maxExponent → ofRatio? num den = none) := by
  -- exponent and fraction are variables here, which no step can try to compute
  unfold ofRatio?
  rw [if_neg hnum, he]
  dsimp only
  rw [h]
  by_cases hm : nearest a b = mantissaBound
  · refine ⟨⟨nearest a b / 2, e + 1⟩, ?_, .inr ⟨hm, rfl⟩, ?_, ?_⟩
    · -- twice the power of two makes up for half the mantissa
      have hhalf : (2 : ℚ) * (mantissaBound / 2 : ℕ) = mantissaBound := by
        exact_mod_cast two_mul_half_mantissaBound
      rw [toRat, hm, zpow_add_one₀ two_ne_zero, ← hhalf]
      ring
    · intro hx
      rw [if_pos hm, if_pos hx]
    · intro hx
      rw [if_pos hm, if_neg hx]
  · refine ⟨⟨nearest a b, e⟩, rfl, .inl rfl, ?_, ?_⟩
    · intro hx
      rw [if_neg hm, if_pos hx]
    · intro hx
      rw [if_neg hm, if_neg hx]

/-- A binary fraction near to a number: within half a unit in the last place of a full mantissa, or
within half of the least binary fraction. -/
def IsNear (x : Binary64) (q : ℚ) : Prop :=
  |x.toRat - q| ≤ max (q / 2 ^ 53) (2 ^ minExponent / 2)

/-- What a fraction is held as is near to it. -/
theorem isNear_of_ofRatio? {num den : ℕ} {x : Binary64} (hden : den ≠ 0)
    (h : ofRatio? num den = some x) : x.IsNear (num / den) := by
  by_cases hnum : num = 0
  · rw [ofRatio?, if_pos hnum] at h
    obtain rfl := Option.some.inj h
    simp [IsNear, hnum, toRat, zero]
  have hfull := (exponentOf_spec hnum hden).2
  obtain ⟨e, he⟩ : ∃ e, exponentOf num den = e := ⟨_, rfl⟩
  obtain ⟨a, b, hab, hb, hdiv⟩ := exists_perPower num hden e
  rw [he] at hfull
  obtain ⟨y, hvalue, -, hsome, hnone⟩ := exists_rounded hnum he hab
  obtain rfl : y = x := by
    by_cases hy : y.exponent ≤ maxExponent
    · exact Option.some.inj ((hsome hy).symm.trans h)
    · rw [hnone hy] at h
      cases h
  -- the error is half a unit of the exponent
  have herror : |y.toRat - num / den| ≤ 1 / 2 * 2 ^ e := by
    have hq : (num : ℚ) / den = a / b * 2 ^ e := by
      rw [hdiv]
      field_simp
    rw [hvalue, hq, ← sub_mul, abs_mul, abs_of_pos (show (0 : ℚ) < 2 ^ e by positivity)]
    exact mul_le_mul_of_nonneg_right (abs_nearest_sub_le hb) (by positivity)
  refine herror.trans ?_
  rcases le_or_gt e minExponent with hmin | hmin
  · refine le_max_of_le_right ?_
    have hle : (2 : ℚ) ^ e ≤ 2 ^ minExponent := zpow_le_zpow_right₀ one_le_two hmin
    linarith
  · -- a full mantissa has 53 bits
    refine le_max_of_le_left ?_
    have hunit : (2 : ℚ) ^ e * 2 ^ 52 ≤ num / den := by
      rw [← zpow_natCast, ← zpow_add₀ two_ne_zero]
      exact hfull hmin
    rw [le_div_iff₀ (by positivity)]
    linarith

/-- **Fractions up to the greatest binary fraction are in range.** -/
theorem exists_ofRatio? {num den : ℕ} (hden : den ≠ 0) (h : (num : ℚ) / den ≤ greatest.toRat) :
    ∃ x, ofRatio? num den = some x := by
  by_cases hnum : num = 0
  · exact ⟨zero, if_pos hnum⟩
  have htop := exponentOf_le hnum hden h
  obtain ⟨e, he⟩ : ∃ e, exponentOf num den = e := ⟨_, rfl⟩
  obtain ⟨a, b, hab, hb, hdiv⟩ := exists_perPower num hden e
  rw [he] at htop
  rw [toRat_greatest] at h
  obtain ⟨x, -, hexponent, hsome, -⟩ := exists_rounded hnum he hab
  refine ⟨x, hsome ?_⟩
  rcases hexponent with hx | ⟨hm, hx⟩
  · rw [hx]
    exact htop
  · -- at the greatest exponent the mantissa is below its bound
    have hne : e ≠ maxExponent := by
      rintro rfl
      have hle : (a : ℚ) / b ≤ (2 ^ 53 - 1 : ℕ) := by
        rw [hdiv, div_le_iff₀ (by positivity)]
        refine h.trans ?_
        norm_num [maxExponent]
      have hbound : mantissaBound ≤ 2 ^ 53 - 1 := hm ▸ nearest_le hb hle
      exact absurd hbound (by decide)
    omega

/-! ## Near numbers -/

namespace IsNear

variable {x : Binary64} {q : ℚ}

/-- Numbers from one on are held with a full mantissa. -/
theorem abs_sub_le (h : x.IsNear q) (hq : 1 ≤ q) : |x.toRat - q| ≤ q / 2 ^ 53 := by
  refine h.trans (max_le le_rfl ?_)
  calc (2 : ℚ) ^ minExponent / 2 ≤ 2 ^ minExponent := half_le_self (by positivity)
    _ ≤ 2 ^ (-53 : ℤ) := zpow_le_zpow_right₀ one_le_two (by decide)
    _ = 1 / 2 ^ 53 := by norm_num
    _ ≤ q / 2 ^ 53 := by gcongr

theorem le (h : x.IsNear q) (hq : 1 ≤ q) : x.toRat ≤ q * (1 + 1 / 2 ^ 53) := by
  have := (abs_le.1 (h.abs_sub_le hq)).2
  linarith

theorem half_le (h : x.IsNear q) (hq : 1 ≤ q) : q / 2 ≤ x.toRat := by
  have := (abs_le.1 (h.abs_sub_le hq)).1
  linarith

/-- A number up to a bound, which is one or more, is held as at most twice the bound. -/
theorem le_two_mul {c : ℚ} (h : x.IsNear q) (hq : q ≤ c) (hc : 1 ≤ c) : x.toRat ≤ 2 * c := by
  have hmin : (2 : ℚ) ^ minExponent ≤ 2 ^ (0 : ℤ) := zpow_le_zpow_right₀ one_le_two (by decide)
  have hmax : max (q / 2 ^ 53) (2 ^ minExponent / 2) ≤ c := by
    apply max_le
    · rw [div_le_iff₀ (by positivity)]
      linarith
    · rw [zpow_zero] at hmin
      linarith
  have := (abs_le.1 (h.trans hmax)).2
  linarith

end IsNear

/-! ## Whole numbers, products and quotients -/

theorem exists_ofNat? {n : ℕ} (h : (n : ℚ) ≤ greatest.toRat) :
    ∃ x, ofNat? n = some x ∧ x.IsNear n := by
  have hdiv : (n : ℚ) / (1 : ℕ) = n := by simp
  obtain ⟨x, hx⟩ := exists_ofRatio? one_ne_zero (hdiv.symm ▸ h)
  refine ⟨x, hx, ?_⟩
  have := isNear_of_ofRatio? one_ne_zero hx
  rwa [hdiv] at this

theorem exists_mul? {x y : Binary64} (h : x.toRat * y.toRat ≤ greatest.toRat) :
    ∃ z, x.mul? y = some z := by
  apply exists_ofRatio? (Nat.mul_pos x.ratio_pos y.ratio_pos).ne'
  rwa [Nat.cast_mul, Nat.cast_mul, mul_div_mul_comm, ratio_div, ratio_div]

theorem exists_div? {x y : Binary64} (hy : 0 < y.toRat) (h : x.toRat / y.toRat ≤ greatest.toRat) :
    ∃ z, x.div? y = some z ∧ z.IsNear (x.toRat / y.toRat) := by
  have hnum : 0 < y.ratio.1 := by
    rw [← ratio_div] at hy
    exact_mod_cast (div_pos_iff_of_pos_right (by exact_mod_cast y.ratio_pos)).1 hy
  have hden : x.ratio.2 * y.ratio.1 ≠ 0 := (Nat.mul_pos x.ratio_pos hnum).ne'
  have hdiv : ((x.ratio.1 * y.ratio.2 : ℕ) : ℚ) / (x.ratio.2 * y.ratio.1 : ℕ) =
      x.toRat / y.toRat := by
    rw [Nat.cast_mul, Nat.cast_mul, mul_div_mul_comm, ratio_div, ← ratio_div y, div_div_eq_mul_div,
      mul_div_assoc]
  obtain ⟨z, hz⟩ := exists_ofRatio? hden (hdiv.symm ▸ h)
  refine ⟨z, hz, ?_⟩
  rw [← hdiv]
  exact isNear_of_ofRatio? hden hz

end Binary64

end ChainBoard.Decimal
