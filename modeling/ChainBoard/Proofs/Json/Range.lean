import ChainBoard.Proofs.Decimal.Binary64
import ChainBoard.Proofs.Json.Walk

/-!
# Numbers in range

The digits of a literal that fit 64 bits never make more than its value. They are rounded, so is the
power of ten, and so is their product or quotient: the three errors together are less than two units
in the last place. A number that is no greater than the third greatest binary fraction is therefore
in range, however it is written.

## Main definitions

* `Literal.power`, `Literal.value`: the value of a literal without its sign

## Main results

* `exists_timesTen`: a significand times a power of ten is in range
* `Literal.significand_le`: the digits that are kept do not make more than the value
* `Number.exists_read`: numbers up to the third greatest binary fraction are read
-/

namespace ChainBoard.Json

open Decimal (Binary64)

/-! ## Powers of ten -/

theorem exists_tenTo? {p : ℕ} (h : p ≤ greatestPower) :
    ∃ y, Binary64.tenTo? p = some y ∧ y.IsNear (10 ^ p) := by
  have hgreatest : 10 ^ greatestPower ≤ (2 ^ 53 - 1) * 2 ^ 971 := by decide +kernel
  have hle : ((10 ^ p : ℕ) : ℚ) ≤ Binary64.greatest.toRat :=
    Binary64.natCast_le_greatest ((Nat.pow_le_pow_right (by decide) h).trans hgreatest)
  obtain ⟨y, hy, hnear⟩ := Binary64.exists_ofNat? hle
  refine ⟨y, hy, ?_⟩
  rwa [Nat.cast_pow] at hnear

/-- A number of 64 bits may be divided by any power of ten. -/
theorem exists_dividedByTen {x : Binary64} (h : x.toRat ≤ 2 ^ 65) (power : ℕ) :
    ∃ y, dividedByTen x power = some y := by
  have hgreatest : (2 : ℚ) ^ 66 ≤ Binary64.greatest.toRat := by
    have hle : 2 ^ 66 ≤ (2 ^ 53 - 1) * 2 ^ 971 := by decide +kernel
    have := Binary64.natCast_le_greatest hle
    rwa [Nat.cast_pow, Nat.cast_ofNat] at this
  -- Induction on the power; a step divides by so much that the error of the quotient is made up for.
  induction power using Nat.strong_induction_on generalizing x with
  | h power ih =>
    rw [dividedByTen]
    split
    · rename_i hp
      obtain ⟨y, hy, hnear⟩ := exists_tenTo? hp
      have hone : (1 : ℚ) ≤ 10 ^ power := one_le_pow₀ (by norm_num)
      have hhalf : 1 / 2 ≤ y.toRat := by
        have := hnear.half_le hone
        linarith
      have hquotient : x.toRat / y.toRat ≤ 2 ^ 66 := by
        rw [div_le_iff₀ (by linarith)]
        linarith
      obtain ⟨z, hz, -⟩ := Binary64.exists_div? (by linarith) (hquotient.trans hgreatest)
      exact ⟨z, by rw [hy]; exact hz⟩
    · split
      · exact ⟨x, rfl⟩
      · rename_i hp _
        obtain ⟨y, hy, hnear⟩ := exists_tenTo? (Nat.le_refl greatestPower)
        have hten : (10 : ℚ) ≤ 10 ^ greatestPower := le_self_pow₀ (by norm_num) (by decide)
        have hhalf : 5 ≤ y.toRat := by
          have := hnear.half_le (by linarith)
          linarith
        have hquotient : x.toRat / y.toRat ≤ 2 ^ 64 := by
          rw [div_le_iff₀ (by linarith)]
          linarith
        have hrange : x.toRat / y.toRat ≤ Binary64.greatest.toRat := by
          linarith
        obtain ⟨z, hz, hnearz⟩ := Binary64.exists_div? (by linarith) hrange
        have hbound : z.toRat ≤ 2 ^ 65 := by
          have := hnearz.le_two_mul hquotient (by norm_num)
          linarith
        have hlt : power - greatestPower < power := by
          rw [greatestPower] at hp ⊢
          omega
        obtain ⟨u, hu⟩ := ih _ hlt hbound
        refine ⟨u, ?_⟩
        rw [hy]
        show (x.div? y >>= _) = _
        rw [hz]
        exact hu

/-- The product of two numbers near to others is less than two units in the last place too great. -/
theorem toRat_mul_le_greatest {x y : Binary64} {q r : ℚ} (hx : x.IsNear q) (hy : y.IsNear r)
    (hq : 1 ≤ q) (hr : 1 ≤ r) (h : q * r ≤ (2 ^ 53 - 3) * 2 ^ 971) :
    x.toRat * y.toRat ≤ Binary64.greatest.toRat := by
  rw [Binary64.toRat_greatest]
  calc x.toRat * y.toRat ≤ (q * (1 + 1 / 2 ^ 53)) * (r * (1 + 1 / 2 ^ 53)) :=
        mul_le_mul (hx.le hq) (hy.le hr) y.toRat_nonneg (by positivity)
    _ = q * r * (1 + 1 / 2 ^ 53) ^ 2 := by ring
    _ ≤ (2 ^ 53 - 3) * 2 ^ 971 * (1 + 1 / 2 ^ 53) ^ 2 :=
        mul_le_mul_of_nonneg_right h (by positivity)
    _ = (2 ^ 53 - 3) * (1 + 1 / 2 ^ 53) ^ 2 * 2 ^ 971 := mul_right_comm _ _ _
    _ ≤ (2 ^ 53 - 1) * 2 ^ 971 := by
      gcongr
      norm_num

theorem lt_ten_pow {p : ℕ} (h : greatestPower < p) : ((2 : ℚ) ^ 53 - 3) * 2 ^ 971 < 10 ^ p := by
  have hlt : (2 ^ 53 - 3) * 2 ^ 971 < 10 ^ (greatestPower + 1) := by decide +kernel
  have hcast : (((2 ^ 53 - 3) * 2 ^ 971 : ℕ) : ℚ) < (10 ^ p : ℕ) :=
    Nat.cast_lt.2 (hlt.trans_le (Nat.pow_le_pow_right (by decide) h))
  rw [Nat.cast_mul, Nat.cast_pow 2 971, Nat.cast_pow 10 p] at hcast
  refine lt_of_eq_of_lt ?_ hcast
  norm_num

/-- **A significand of 64 bits and a power of ten are in range** if their product is at most the
third greatest binary fraction. -/
theorem exists_timesTen {n : ℕ} {power : ℤ} (hn : n < significandBound)
    (h : (n : ℚ) * 10 ^ power ≤ (2 ^ 53 - 3) * 2 ^ 971) : ∃ x, timesTen n power = some x := by
  have hbits : significandBound ≤ (2 ^ 53 - 1) * 2 ^ 971 := by decide +kernel
  obtain ⟨x, hx, hnear⟩ := Binary64.exists_ofNat?
    (Binary64.natCast_le_greatest (hn.le.trans hbits))
  unfold timesTen
  rw [hx]
  show ∃ y, (if power < 0 then _ else _) = some y
  split
  · -- a quotient
    apply exists_dividedByTen
    have hle : (n : ℚ) ≤ 2 ^ 64 := by
      have : n ≤ 2 ^ 64 := hn.le
      exact_mod_cast this
    have := hnear.le_two_mul hle (by norm_num)
    linarith
  · rename_i hpower
    obtain ⟨p, rfl⟩ := Int.eq_ofNat_of_zero_le (not_lt.1 hpower)
    rw [Int.toNat_natCast]
    rw [zpow_natCast] at h
    have hten : (1 : ℚ) ≤ 10 ^ p := one_le_pow₀ (by norm_num)
    split
    · -- a product
      rename_i hle
      obtain ⟨y, hy, hneary⟩ := exists_tenTo? hle
      rw [hy]
      apply Binary64.exists_mul?
      rcases Nat.eq_zero_or_pos n with rfl | hpos
      · obtain rfl : Binary64.zero = x := Option.some.inj hx
        have hzero : Binary64.zero.toRat = 0 := by simp [Binary64.toRat, Binary64.zero]
        rw [hzero, zero_mul]
        exact Binary64.greatest.toRat_nonneg
      · have hone : (1 : ℚ) ≤ n := by exact_mod_cast hpos
        exact toRat_mul_le_greatest hnear hneary hone hten h
    · split
      · exact ⟨x, rfl⟩
      · -- a product that would be too great
        rename_i hlt hne
        have hone : (1 : ℚ) ≤ n := by exact_mod_cast Nat.pos_of_ne_zero hne
        have hle : (10 : ℚ) ^ p ≤ n * 10 ^ p := le_mul_of_one_le_left (by positivity) hone
        exact absurd (hle.trans h) (lt_ten_pow (not_le.1 hlt)).not_ge

/-! ## The digits that are kept -/

/-- Digits behind others make the number at least as great as zeros there. -/
theorem mul_le_ofDigitChars (ds : List Char) (n : ℕ) :
    n * 10 ^ ds.length ≤ Nat.ofDigitChars 10 ds n := by
  rw [Nat.ofDigitChars_eq_ofDigitChars_zero, mul_comm]
  exact Nat.le_add_right _ _

theorem le_ofDigitChars (ds : List Char) (n : ℕ) : n ≤ Nat.ofDigitChars 10 ds n :=
  (Nat.le_mul_of_pos_right n (by positivity)).trans (mul_le_ofDigitChars ds n)

/-- Digits are taken as long as they fit. -/
theorem absorb_spec (n : ℕ) (ds : List Char) :
    ∃ taken, ds = taken ++ (absorb n ds).2 ∧
      (absorb n ds).1 = Nat.ofDigitChars 10 taken n ∧
      (n < significandBound → (absorb n ds).1 < significandBound) ∧
      ∀ d rest, (absorb n ds).2 = d :: rest →
        significandBound ≤ 10 * (absorb n ds).1 + (d.toNat - '0'.toNat) := by
  induction ds generalizing n with
  | nil => exact ⟨[], rfl, rfl, id, by simp [absorb]⟩
  | cons d ds ih =>
    rw [absorb]
    split
    · -- one more digit fits
      rename_i hfits
      obtain ⟨taken, hds, hvalue, hbound, hrest⟩ := ih (10 * n + (d.toNat - '0'.toNat))
      refine ⟨d :: taken, ?_, ?_, fun _ => hbound hfits, hrest⟩
      · rw [List.cons_append, ← hds]
      · rw [hvalue, Nat.ofDigitChars_cons]
    · rename_i hfull
      refine ⟨[], rfl, rfl, id, ?_⟩
      rintro d' rest he
      obtain ⟨rfl, rfl⟩ := List.cons.inj he
      exact not_lt.1 hfull

theorem absorb_of_full {n : ℕ} (h : significandBound ≤ 10 * n) (ds : List Char) :
    absorb n ds = (n, ds) := by
  cases ds with
  | nil => rfl
  | cons d ds =>
    rw [absorb]
    exact if_neg (by omega)

/-- Behind a digit that does not fit, at most one more does, and it is the lesser digit. -/
theorem absorb_of_overflow {n digit : ℕ} (hdigit : digit ≤ 9)
    (h : significandBound ≤ 10 * n + digit) (ds : List Char) :
    (absorb n ds).1 * 10 ^ ((absorb n ds).2.length + 1) ≤ (10 * n + digit) * 10 ^ ds.length := by
  have hbound : 10 ≤ significandBound := by decide
  cases ds with
  | nil =>
    show n * 10 ≤ (10 * n + digit) * 1
    omega
  | cons d ds =>
    rw [absorb]
    split
    · rename_i hfits
      rw [absorb_of_full (by omega) ds]
      exact Nat.mul_le_mul_right _ (by omega)
    · rw [pow_succ', ← mul_assoc]
      exact Nat.mul_le_mul_right _ (by omega)

/-- The digits that are kept of a number, behind zeros for those that are cut off, make no more than
all of its digits. -/
theorem absorb_absorb_le {whole : List Char} (h : ∀ d ∈ whole, d.isDigit = true)
    (fraction : List Char) :
    (absorb (absorb 0 whole).1 fraction).1 *
        10 ^ ((absorb 0 whole).2.length + (absorb (absorb 0 whole).1 fraction).2.length) ≤
      Nat.ofDigitChars 10 (whole ++ fraction) 0 := by
  obtain ⟨taken, hwhole, hvalue, -, hfull⟩ := absorb_spec 0 whole
  generalize absorb 0 whole = kept at *
  obtain ⟨high, cut⟩ := kept
  dsimp only at *
  subst hwhole hvalue
  rw [List.append_assoc, Nat.ofDigitChars_append]
  generalize Nat.ofDigitChars 10 taken 0 = high at *
  cases cut with
  | nil =>
    -- the whole part fits, and so does a part of the fraction
    obtain ⟨taken', hfraction, hvalue, -⟩ := absorb_spec high fraction
    rw [List.length_nil, Nat.zero_add, List.nil_append]
    refine (mul_le_ofDigitChars _ _).trans_eq ?_
    rw [hvalue, ← Nat.ofDigitChars_append, ← hfraction]
  | cons d cut =>
    -- the whole part does not fit
    have hd : d.toNat - '0'.toNat ≤ 9 := by
      have hle := (Char.isDigit_iff_toNat.1 (h d (by simp))).2
      have hnine : '9'.toNat = '0'.toNat + 9 := rfl
      omega
    have hkept := absorb_of_overflow hd (hfull d cut rfl) fraction
    rw [List.cons_append, Nat.ofDigitChars_cons]
    refine le_trans ?_ (mul_le_ofDigitChars _ _)
    have hlength : (d :: cut).length + (absorb high fraction).2.length =
        (absorb high fraction).2.length + 1 + cut.length := by
      rw [List.length_cons]
      omega
    rw [hlength, List.length_append, Nat.add_comm cut.length, pow_add, pow_add _ fraction.length,
      ← mul_assoc, ← mul_assoc]
    exact Nat.mul_le_mul_right _ hkept

theorem overrun?_eq_none {n : ℕ} {ds : List Char}
    (h : Nat.ofDigitChars 10 ds n ≤ greatestExponent) : overrun? n ds = none := by
  induction ds generalizing n with
  | nil => rfl
  | cons d ds ih =>
    rw [Nat.ofDigitChars_cons] at h
    rw [overrun?]
    exact (if_pos ((le_ofDigitChars ds _).trans h)).trans (ih h)

namespace Literal

/-- The power of ten of a literal. -/
def power (l : Literal) : ℤ :=
  match l.exponent with
  | none => 0
  | some x => if x.negative then -Nat.ofDigitChars 10 x.digits 0 else Nat.ofDigitChars 10 x.digits 0

theorem power_of_none {l : Literal} (h : l.exponent = none) : l.power = 0 := by
  rw [power, h]

theorem power_of_some {l : Literal} {x : Exponent} (h : l.exponent = some x) :
    l.power = if x.negative then -(Nat.ofDigitChars 10 x.digits 0 : ℤ)
      else (Nat.ofDigitChars 10 x.digits 0 : ℤ) := by
  rw [power, h]

/-- The value of a literal without its sign. -/
def value (l : Literal) : ℚ :=
  Nat.ofDigitChars 10 (l.whole ++ l.fraction) 0 * 10 ^ (l.power - l.fraction.length)

/-- The digits that are kept do not make more than all digits. -/
theorem significand_le {l : Literal} (h : IsDigits l.whole) :
    (l.significand.1 : ℚ) * 10 ^ l.significand.2 ≤
      Nat.ofDigitChars 10 (l.whole ++ l.fraction) 0 * 10 ^ (-l.fraction.length : ℤ) := by
  have hkept := absorb_absorb_le h.2 l.fraction
  obtain ⟨taken, hfraction, -⟩ := absorb_spec (absorb 0 l.whole).1 l.fraction
  have hlength := congrArg List.length hfraction
  rw [List.length_append] at hlength
  unfold significand
  generalize absorb 0 l.whole = whole at *
  obtain ⟨high, cut⟩ := whole
  dsimp only at *
  generalize absorb high l.fraction = fraction at *
  obtain ⟨all, unread⟩ := fraction
  dsimp only at *
  have hpower : (cut.length : ℤ) - (l.fraction.length - unread.length : ℕ) =
      (cut.length + unread.length : ℕ) + -(l.fraction.length : ℤ) := by
    omega
  rw [hpower, zpow_add₀ (by norm_num), zpow_natCast, ← mul_assoc]
  gcongr
  exact_mod_cast hkept

theorem significand_lt (l : Literal) : l.significand.1 < significandBound := by
  obtain ⟨-, -, -, hhigh, -⟩ := absorb_spec 0 l.whole
  obtain ⟨-, -, -, hall, -⟩ := absorb_spec (absorb 0 l.whole).1 l.fraction
  exact hall (hhigh (by decide))

/-- **A literal is in range** if its value is at most the third greatest binary fraction. -/
theorem exists_fractional {l : Literal} (hwhole : IsDigits l.whole)
    (hvalue : l.value ≤ (2 ^ 53 - 3) * 2 ^ 971) (hpower : l.power ≤ greatestExponent)
    (rest : List Char) : ∃ x, l.fractional rest = .ok x := by
  have hscaled : (l.significand.1 : ℚ) * 10 ^ (l.significand.2 + l.power) ≤
      (2 ^ 53 - 3) * 2 ^ 971 := by
    refine le_trans ?_ hvalue
    rw [value, sub_eq_neg_add, zpow_add₀ (by norm_num), zpow_add₀ (by norm_num), ← mul_assoc,
      ← mul_assoc]
    exact mul_le_mul_of_nonneg_right (significand_le hwhole) (by positivity)
  obtain ⟨x, hx⟩ := exists_timesTen l.significand_lt hscaled
  simp only [fractional]
  split
  · -- no exponent
    rename_i hexponent
    rw [power_of_none hexponent, add_zero] at hx
    rw [hx]
    exact ⟨_, rfl⟩
  · rename_i exponent hexponent
    rw [power_of_some hexponent] at hx hpower
    split
    · have hsum : (if exponent.negative then
            l.significand.2 - (Nat.ofDigitChars 10 exponent.digits 0 : ℤ)
          else l.significand.2 + (Nat.ofDigitChars 10 exponent.digits 0 : ℤ)) =
          l.significand.2 + if exponent.negative then
            -(Nat.ofDigitChars 10 exponent.digits 0 : ℤ)
          else (Nat.ofDigitChars 10 exponent.digits 0 : ℤ) := by
        split <;> rfl
      rw [hsum, hx]
      exact ⟨_, rfl⟩
    · -- an exponent without end is negative here
      rename_i hoverrun
      rw [if_neg]
      · exact ⟨_, rfl⟩
      · rintro ⟨-, hpositive⟩
        rw [if_neg hpositive] at hpower
        rw [overrun?_eq_none (by exact_mod_cast hpower)] at hoverrun
        cases hoverrun

end Literal

/-- **A number is read** if its value without its sign is at most the third greatest binary fraction,
and its power of ten at most the greatest exponent. -/
theorem Number.exists_read {v : List Char} {l : Literal} (h : l.Spelled v)
    (hvalue : l.value ≤ (2 ^ 53 - 3) * 2 ^ 971) (hpower : l.power ≤ greatestExponent) :
    ∃ x, Number.read v = .ok (x, []) := by
  have hread : Literal.read .endInValue (v ++ []) = .ok (l, []) :=
    Literal.read_complete .endInValue h endsNumber_nil
  rw [List.append_nil] at hread
  have hwhole : IsDigits l.whole := by
    obtain ⟨-, -, -, -, -, hwhole, -⟩ := h
    exact hwhole.1
  obtain ⟨x, hx⟩ : ∃ x, l.number [] = .ok x := by
    simp only [Literal.number]
    split
    · exact ⟨_, rfl⟩
    · split
      · exact ⟨_, rfl⟩
      · exact Literal.exists_fractional hwhole hvalue hpower []
  refine ⟨x, bind_eq_ok_iff.2 ⟨_, hread, ?_⟩⟩
  exact bind_eq_ok_iff.2 ⟨x, hx, rfl⟩

end ChainBoard.Json
