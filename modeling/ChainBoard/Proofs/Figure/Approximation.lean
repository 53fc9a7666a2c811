import Mathlib.Data.List.TakeWhile
import Mathlib.Order.Monotone.Defs
import ChainBoard.Proofs.Figure.Difficulty

/-!
# What the text of a difficulty says

The text of a difficulty says a number: its digits as they stand, or so many hundredths of the power
of 1000 that its symbol names. At a scale a text can only say multiples of a hundredth of the unit,
the grain of the scale, and it says the greatest of them that does not exceed the difficulty. A grain
is at most a hundredth of any difficulty at the scale, so that less than one percent is lost.

The number that is said is not below the unit, hence it climbs to the same scale and is shown by the
same text. Of two difficulties the greater one says the greater number: at one scale because both are
cut to the same grain, and at different scales because the greater one says at least its unit, which
the smaller one does not reach.

## Main definitions

* `Difficulty.value?`: the number that a text says
* `Scale.grain`: the smallest part of a unit that a text shows
* `Difficulty.shown`: the number that the text of a difficulty says

## Main results

* `Difficulty.value?_readable`: the text of a difficulty says that number
* `Difficulty.readable_shown`: that number is shown by the same text
* `Difficulty.shown_mono`: greater difficulties say greater numbers
* `Difficulty.readable_approximates`: the text of a difficulty as an approximation from below
-/

namespace ChainBoard

namespace Scale

variable {n m k : Nat} {scale : Scale}

/-- The smallest part of a unit that a text shows: a hundredth. -/
def grain (scale : Scale) : Nat :=
  scale.unit / 100

/-- A unit on a climb is a hundred grains. -/
theorem Inv.unit_eq_grain (h : scale.Inv n) : scale.unit = 100 * scale.grain := by
  have hdvd : 100 ∣ scale.unit := by
    rw [h.unit_eq, Nat.pow_succ]
    exact Nat.dvd_mul_left_of_dvd (by decide) _
  exact (Nat.mul_div_cancel' hdvd).symm

theorem Inv.grain_pos (h : scale.Inv n) : 0 < scale.grain := by
  have hunit : 0 < scale.unit := by
    rw [h.unit_eq]
    exact Nat.pow_pos (by decide)
  rw [h.unit_eq_grain] at hunit
  exact Nat.pos_of_mul_pos_left hunit

/-- A climb does not end above `n`, if `n` is not below the first power. -/
theorem unit_climb_le (hn : 1000 ≤ n) : (first.climb n).unit ≤ n := by
  rw [(inv_climb n).unit_eq]
  exact (isGreatest_climb hn).1.2.2

theorem le_unit_climb (n : Nat) : 1000 ≤ (first.climb n).unit := by
  rw [(inv_climb n).unit_eq]
  exact Nat.le_self_pow (Nat.succ_ne_zero _) 1000

/-- Whatever lies between the end of a climb and the number that is climbed to has the same end. -/
theorem climb_eq_of_le (hunit : (first.climb n).unit ≤ m) (hm : m ≤ n) :
    first.climb m = first.climb n := by
  have hgreatest : IsGreatest (powersUpTo n) ((first.climb n).index + 1) :=
    isGreatest_climb (Nat.le_trans (le_unit_climb n) (Nat.le_trans hunit hm))
  have hgreatest' : IsGreatest (powersUpTo m) ((first.climb n).index + 1) := by
    refine ⟨⟨hgreatest.1.1, hgreatest.1.2.1, ?_⟩, ?_⟩
    · rwa [← (inv_climb n).unit_eq]
    · -- no power up to `m` is missing up to `n`
      rintro k ⟨hpos, hle, hpow⟩
      exact hgreatest.2 ⟨hpos, hle, Nat.le_trans hpow hm⟩
  rw [climb_eq_of_isGreatest hgreatest, climb_eq_of_isGreatest hgreatest']

/-- The symbol of a scale is found in the table at its place. -/
theorem Inv.idxOf?_symbol (h : scale.Inv n) : symbols.idxOf? scale.symbol = some scale.index := by
  have hindex : ∀ i < symbols.length, symbols.idxOf? symbols[i]! = some i := by decide
  exact hindex scale.index h.index_lt

end Scale

namespace Difficulty

variable {n m : Nat} {scale : Scale}

/-! ## Reading a text -/

/-- The number that the text of a difficulty says: its digits as they stand, or, with a point in it,
its whole units and hundredths times the power of 1000 that its symbol names. -/
def value? (text : String) : Option Nat :=
  match text.toList.dropWhile (· ≠ '.') with
  | [] => Decimal.digits? text.toList
  | [_, d, e, ' ', symbol] => do
    let index ← Scale.symbols.idxOf? symbol
    let whole := (text.toList.takeWhile (· ≠ '.')).filter (· ≠ ',')
    let hundredths ← Decimal.digits? (whole ++ [d, e])
    return hundredths * 1000 ^ (index + 1) / 100
  | _ => none

/-- The hundredths that are shown are the whole grains of a difficulty. -/
theorem hundredths_eq_div_grain (h : scale.Inv m) (n : Nat) :
    hundredths scale n = n / scale.grain := by
  rw [hundredths, h.unit_eq_grain, Nat.mul_comm n 100, Nat.mul_div_mul_left _ _ (by decide)]

/-- At a scale a text says the whole grains of a difficulty. -/
theorem value?_atScale (h : scale.Inv m) (n : Nat) :
    value? (String.ofList (atScale scale n)) = some (n / scale.grain * scale.grain) := by
  have hlength : ((Nat.toDigits 10 (hundredths scale n % 100)).leftpad 2 '0').length = 2 :=
    Decimal.length_leftpad (by decide) (Nat.mod_lt _ (by decide))
  obtain ⟨d, e, hplaces⟩ := List.length_eq_two.1 hlength
  -- the point divides the whole units from the hundredths
  have htext : atScale scale n =
      Decimal.grouped (hundredths scale n / 100) ++ ['.', d, e, ' ', scale.symbol] := by
    rw [atScale, hplaces, List.append_assoc]
    rfl
  have hwhole : ∀ c ∈ Decimal.grouped (hundredths scale n / 100), decide (c ≠ '.') = true := by
    intro c hc
    exact decide_eq_true (ne_of_mem_of_not_mem hc (Decimal.notMem_grouped _ rfl (by decide)))
  have hdigits : Decimal.digits? (Nat.toDigits 10 (hundredths scale n / 100) ++ [d, e]) =
      some (hundredths scale n) := by
    rw [← hplaces, Decimal.digits?_places hlength (fun _ => Decimal.isDigit_of_mem_leftpad)
      Decimal.ofDigitChars_leftpad]
    exact congrArg some (Nat.div_add_mod _ 100)
  -- a hundredth of the power is a grain, since the unit is a hundred grains
  have hvalue : hundredths scale n * 1000 ^ (scale.index + 1) / 100 =
      n / scale.grain * scale.grain := by
    rw [hundredths_eq_div_grain h, ← h.unit_eq, h.unit_eq_grain, Nat.mul_left_comm,
      Nat.mul_div_cancel_left _ (by decide)]
  have hdrop : (atScale scale n).dropWhile (· ≠ '.') = ['.', d, e, ' ', scale.symbol] := by
    rw [htext, List.dropWhile_append_of_pos hwhole]
    rfl
  have htake : (atScale scale n).takeWhile (· ≠ '.') =
      Decimal.grouped (hundredths scale n / 100) := by
    rw [htext, List.takeWhile_append_of_pos hwhole]
    exact List.append_nil _
  rw [value?, String.toList_ofList, hdrop]
  simp only [h.idxOf?_symbol, htake, Decimal.filter_grouped, hdigits, hvalue, Option.bind_eq_bind,
    Option.bind_some, Option.pure_def]

/-! ## The number that is shown -/

/-- The number that the text of a difficulty says: itself below 1000, else its whole grains at the
scale to which it climbs. -/
def shown (n : Nat) : Nat :=
  if n < 1000 then n else n / (Scale.first.climb n).grain * (Scale.first.climb n).grain

theorem shown_of_lt (h : n < 1000) : shown n = n :=
  if_pos h

theorem shown_of_le (h : 1000 ≤ n) :
    shown n = n / (Scale.first.climb n).grain * (Scale.first.climb n).grain :=
  if_neg (Nat.not_lt.2 h)

/-- **The text of a difficulty says the number that is shown.** -/
theorem value?_readable (n : Nat) : value? (readable n) = some (shown n) := by
  by_cases h : n < 1000
  · -- digits alone, with no point among them
    have hpoint : (Nat.toDigits 10 n).dropWhile (· ≠ '.') = [] := by
      rw [List.dropWhile_eq_nil_iff]
      intro c hc
      exact decide_eq_true (ne_of_mem_of_not_mem hc (Decimal.notMem_toDigits n rfl))
    rw [readable, if_pos h, shown_of_lt h, value?, String.toList_ofList, hpoint]
    exact Decimal.digits?_toDigits n
  · have hle := Nat.le_of_not_lt h
    rw [readable_of_le hle, value?_atScale (Scale.inv_climb n), shown_of_le hle]

theorem shown_le (n : Nat) : shown n ≤ n := by
  by_cases h : n < 1000
  · rw [shown_of_lt h]
  · rw [shown_of_le (Nat.le_of_not_lt h)]
    exact Nat.div_mul_le_self n _

/-- What is cut off is less than a grain, of which the difficulty has at least a hundred. -/
theorem sub_shown_le (n : Nat) : 100 * (n - shown n) ≤ n := by
  by_cases h : n < 1000
  · rw [shown_of_lt h, Nat.sub_self]
    exact Nat.zero_le n
  · have hle := Nat.le_of_not_lt h
    have hinv := Scale.inv_climb n
    have hcut : n - shown n ≤ (Scale.first.climb n).grain := by
      rw [shown_of_le hle, ← Nat.mod_eq_sub_div_mul]
      exact Nat.le_of_lt (Nat.mod_lt n hinv.grain_pos)
    calc 100 * (n - shown n) ≤ 100 * (Scale.first.climb n).grain := Nat.mul_le_mul_left 100 hcut
      _ = (Scale.first.climb n).unit := hinv.unit_eq_grain.symm
      _ ≤ n := Scale.unit_climb_le hle

/-- At least one unit is shown. -/
theorem unit_le_shown (h : 1000 ≤ n) : (Scale.first.climb n).unit ≤ shown n := by
  have hinv := Scale.inv_climb n
  have hunit := Scale.unit_climb_le h
  rw [hinv.unit_eq_grain] at hunit ⊢
  rw [shown_of_le h]
  exact Nat.mul_le_mul_right _ ((Nat.le_div_iff_mul_le hinv.grain_pos).2 hunit)

/-- The number that is shown climbs to the same scale. -/
theorem climb_shown (h : 1000 ≤ n) : Scale.first.climb (shown n) = Scale.first.climb n :=
  Scale.climb_eq_of_le (unit_le_shown h) (shown_le n)

/-- **The number that is shown is shown by the same text.** -/
theorem readable_shown (n : Nat) : readable (shown n) = readable n := by
  by_cases h : n < 1000
  · rw [shown_of_lt h]
  · have hle := Nat.le_of_not_lt h
    have hshown : 1000 ≤ shown n := Nat.le_trans (Scale.le_unit_climb n) (unit_le_shown hle)
    have hinv := Scale.inv_climb n
    -- a number of whole grains has as many hundredths
    have hsame : hundredths (Scale.first.climb n) (shown n) =
        hundredths (Scale.first.climb n) n := by
      rw [hundredths_eq_div_grain hinv, hundredths_eq_div_grain hinv, shown_of_le hle,
        Nat.mul_div_cancel _ hinv.grain_pos]
    rw [readable_of_le hshown, readable_of_le hle, climb_shown hle, atScale, atScale, hsame]

/-- **Greater difficulties say greater numbers**, also at different scales. -/
theorem shown_mono : Monotone shown := by
  intro n m hnm
  by_cases h : m < 1000
  · rw [shown_of_lt h, shown_of_lt (Nat.lt_of_le_of_lt hnm h)]
    exact hnm
  · have hle := Nat.le_of_not_lt h
    by_cases hunit : (Scale.first.climb m).unit ≤ n
    · -- both are cut to the same grain
      have hn : 1000 ≤ n := Nat.le_trans (Scale.le_unit_climb m) hunit
      rw [shown_of_le hn, shown_of_le hle, Scale.climb_eq_of_le hunit hnm]
      exact Nat.mul_le_mul_right _ (Nat.div_le_div_right hnm)
    · -- the greater one shows at least its unit, which the smaller one does not reach
      calc shown n ≤ n := shown_le n
        _ ≤ (Scale.first.climb m).unit := Nat.le_of_not_le hunit
        _ ≤ shown m := unit_le_shown hle

/-- **The text of a difficulty approximates it from below, in order.** Every text says a number that
does not exceed the difficulty and is at most one percent below it. That number is shown by the same
text, and of two difficulties the greater one says the greater number. -/
theorem readable_approximates :
    ∃ value : Nat → Nat, Monotone value ∧ ∀ n, value? (readable n) = some (value n) ∧
      value n ≤ n ∧ 100 * (n - value n) ≤ n ∧ readable (value n) = readable n :=
  ⟨shown, shown_mono, fun n => ⟨value?_readable n, shown_le n, sub_shown_le n, readable_shown n⟩⟩

end Difficulty

end ChainBoard
