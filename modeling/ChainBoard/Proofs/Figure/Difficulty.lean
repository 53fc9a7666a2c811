import Mathlib.Logic.Relation
import Mathlib.Order.Bounds.Basic
import ChainBoard.Figure.Difficulty
import ChainBoard.Proofs.Decimal.Digits

/-!
# The scale of a difficulty

A climb keeps the power at which it stands and the place of its symbol in step, so that it never
leaves the table of symbols; every turn brings it closer to the end of the table, so that it ends;
and it ends at the greatest power that does not exceed the difficulty, either because the next power
does or because there is none. That is the scale at which the difficulty is shown.

## Main definitions

* `Scale.powersUpTo`: the powers at which a difficulty can be shown
* `Scale.Reaches`: any number of turns of a climb
* `Scale.Inv`: the invariant of a climb
* `Difficulty.IsScaled`: the text of a difficulty at a power of 1000

## Main results

* `Scale.inv_of_next?`, `Scale.inv_of_reaches`: a turn, and so a climb, keeps the invariant
* `Scale.wellFounded_next?`: every climb ends
* `Scale.isGreatest_of_end`: a climb ends at the greatest power
* `Difficulty.readable_at_greatest_power`: the text of a difficulty is at the greatest power
-/

namespace ChainBoard

open Decimal (IsFilled IsGrouped)

namespace Scale

/-- The powers of 1000 that have a symbol and do not exceed `n`. -/
def powersUpTo (n : Nat) : Set Nat :=
  {k | 1 ≤ k ∧ k ≤ 8 ∧ 1000 ^ k ≤ n}

/-- Any number of turns of a climb. -/
def Reaches (n : Nat) : Scale → Scale → Prop :=
  Relation.ReflTransGen fun scale next => scale.next? n = some next

/-- The invariant of a climb: the power and the place of its symbol are in step, the place is in the
table, and no power behind the first exceeds `n`. -/
structure Inv (n : Nat) (scale : Scale) : Prop where
  unit_eq : scale.unit = 1000 ^ (scale.index + 1)
  index_lt : scale.index < symbols.length
  unit_le : 0 < scale.index → scale.unit ≤ n

variable {n k : Nat} {scale next : Scale}

/-! ## A climb ends -/

/-- A climb is over when the next power has no symbol or exceeds `n`. -/
theorem next?_eq_none_iff :
    scale.next? n = none ↔ ¬ (scale.index + 1 < symbols.length ∧ scale.unit * 1000 ≤ n) := by
  by_cases h : scale.index + 1 < symbols.length ∧ scale.unit * 1000 ≤ n
  · simp [next?, h]
  · rw [next?, if_neg h]
    exact ⟨fun _ => h, fun _ => rfl⟩

/-- **Every climb ends**: a turn brings it closer to the end of the table. -/
theorem wellFounded_next? (n : Nat) :
    WellFounded fun next scale : Scale => scale.next? n = some next := by
  apply Subrelation.wf (r := InvImage (· < ·) fun scale : Scale => symbols.length - scale.index)
  · intro next scale h
    exact left_lt_of_next? h
  · exact InvImage.wf _ Nat.lt_wfRel.wf

/-- A climb comes to its end by turns. -/
theorem reaches_climb (n : Nat) (scale : Scale) : Reaches n scale (scale.climb n) := by
  fun_induction climb n scale with
  | case1 scale _ => exact .refl
  | case2 scale next hnext ih => exact .head hnext ih

/-- It is over only at its end. -/
theorem next?_climb (n : Nat) (scale : Scale) : (scale.climb n).next? n = none := by
  fun_induction climb n scale with
  | case1 scale hend => exact hend
  | case2 scale next _ ih => exact ih

/-! ## What a climb keeps -/

theorem inv_first (n : Nat) : first.Inv n where
  unit_eq := rfl
  index_lt := by decide
  unit_le h := absurd h (Nat.lt_irrefl 0)

/-- A turn keeps the invariant. -/
theorem inv_of_next? (h : scale.next? n = some next) (hinv : scale.Inv n) : next.Inv n := by
  obtain ⟨⟨hindex, hunit⟩, rfl⟩ := next?_eq_some_iff.1 h
  refine ⟨?_, hindex, fun _ => hunit⟩
  show scale.unit * 1000 = 1000 ^ (scale.index + 1 + 1)
  rw [hinv.unit_eq, Nat.pow_succ 1000 (scale.index + 1)]

/-- A climb keeps the invariant. -/
theorem inv_of_reaches (h : Reaches n first scale) : scale.Inv n := by
  induction h with
  | refl => exact inv_first n
  | tail _ hnext ih => exact inv_of_next? hnext ih

theorem inv_climb (n : Nat) : (first.climb n).Inv n :=
  inv_of_reaches (reaches_climb n first)

/-- The symbol of a scale stands in the table at its place. -/
theorem Inv.symbols_getElem? (h : scale.Inv n) : symbols[scale.index]? = some scale.symbol := by
  rw [symbol, getElem!_pos symbols scale.index h.index_lt]
  exact List.getElem?_eq_getElem h.index_lt

/-! ## Where a climb ends -/

/-- **A climb ends at the greatest power**, if `n` is not below the first one. -/
theorem isGreatest_of_end (hn : 1000 ≤ n) (hinv : scale.Inv n) (hend : scale.next? n = none) :
    IsGreatest (powersUpTo n) (scale.index + 1) := by
  obtain ⟨hunit, hindex, hle⟩ := hinv
  constructor
  · refine ⟨Nat.succ_pos _, hindex, ?_⟩
    by_cases h0 : scale.index = 0
    · rw [h0]
      exact hn
    · rw [← hunit]
      exact hle (Nat.pos_of_ne_zero h0)
  · rintro k ⟨-, hk, hpow⟩
    by_contra hlt
    -- a greater power would have been the next one
    apply next?_eq_none_iff.1 hend
    have hnext : scale.index + 2 ≤ k := by omega
    refine ⟨Nat.lt_of_lt_of_le hnext hk, ?_⟩
    calc scale.unit * 1000 = 1000 ^ (scale.index + 2) := by
          rw [hunit, Nat.pow_succ 1000 (scale.index + 1)]
      _ ≤ 1000 ^ k := Nat.pow_le_pow_right (by decide) hnext
      _ ≤ n := hpow

theorem isGreatest_climb (hn : 1000 ≤ n) :
    IsGreatest (powersUpTo n) ((first.climb n).index + 1) :=
  isGreatest_of_end hn (inv_climb n) (next?_climb n first)

/-- What has a power does not stay below the first one. -/
theorem le_of_mem_powersUpTo (h : k ∈ powersUpTo n) : 1000 ≤ n := by
  obtain ⟨hpos, -, hle⟩ := h
  exact Nat.le_trans (Nat.le_self_pow (Nat.ne_of_gt hpos) 1000) hle

/-- The scale to which a climb comes is that of the greatest power. -/
theorem climb_eq_of_isGreatest (h : IsGreatest (powersUpTo n) k) :
    first.climb n = ⟨1000 ^ k, k - 1⟩ := by
  have hk : (first.climb n).index + 1 = k :=
    (isGreatest_climb (le_of_mem_powersUpTo h.1)).unique h
  subst hk
  have hunit := (inv_climb n).unit_eq
  calc first.climb n = ⟨(first.climb n).unit, (first.climb n).index⟩ := rfl
    _ = ⟨1000 ^ ((first.climb n).index + 1), (first.climb n).index⟩ := by rw [← hunit]

end Scale

namespace Difficulty

/-- The text of a difficulty at the `k`-th power of 1000: whole units in groups, a point, hundredths
in two digits, and the symbol of the power. -/
structure IsScaled (n k : Nat) (whole decimals : List Char) (symbol : Char) : Prop where
  text : readable n = String.ofList (whole ++ '.' :: (decimals ++ [' ', symbol]))
  whole : IsGrouped whole (n / 1000 ^ k)
  decimals : IsFilled decimals 2 (100 * n / 1000 ^ k % 100)
  symbol : Scale.symbols[k - 1]? = some symbol

variable {n k : Nat}

/-- A difficulty below 1000 is shown as it is. -/
theorem readable_of_lt (h : n < 1000) : readable n = toString n := by
  rw [readable, if_pos h, Nat.toString_eq_ofList_toDigits]

/-- Any other is shown at the scale to which it climbs. -/
theorem readable_of_le (h : 1000 ≤ n) :
    readable n = String.ofList (atScale (Scale.first.climb n) n) := by
  rw [readable, if_neg (Nat.not_lt.2 h)]

/-- The whole units are those of the difficulty. -/
theorem hundredths_div (scale : Scale) (n : Nat) : hundredths scale n / 100 = n / scale.unit := by
  rw [hundredths, Nat.div_div_eq_div_mul, Nat.mul_div_mul_right _ _ (by decide)]

/-- **A difficulty is shown at its greatest power.** -/
theorem exists_isScaled (h : IsGreatest (Scale.powersUpTo n) k) :
    ∃ whole decimals symbol, IsScaled n k whole decimals symbol := by
  have hclimb := Scale.climb_eq_of_isGreatest h
  have hinv := Scale.inv_climb n
  rw [hclimb] at hinv
  refine ⟨_, _, _, ?_, Decimal.isGrouped_grouped _,
    Decimal.isFilled_leftpad (by decide) (Nat.mod_lt _ (by decide)), hinv.symbols_getElem?⟩
  rw [readable_of_le (Scale.le_of_mem_powersUpTo h.1), hclimb, atScale, hundredths_div, hundredths,
    Nat.mul_comm n 100, List.append_assoc, List.cons_append]

/-- Below the last power, the greatest power leaves at least one and at most 999 whole units. -/
theorem whole_of_isGreatest (h : IsGreatest (Scale.powersUpTo n) k) :
    1 ≤ n / 1000 ^ k ∧ (k < 8 → n / 1000 ^ k ≤ 999) := by
  obtain ⟨⟨hpos, -, hle⟩, hgreatest⟩ := h
  have hunit : 0 < 1000 ^ k := Nat.pow_pos (by decide)
  refine ⟨Nat.div_pos hle hunit, ?_⟩
  intro hk
  -- the next power exceeds the difficulty
  have hnext : n < 1000 ^ (k + 1) := by
    by_contra hn
    have := hgreatest ⟨Nat.le_succ_of_le hpos, hk, Nat.le_of_not_lt hn⟩
    omega
  rw [Nat.pow_succ] at hnext
  have hlt : n / 1000 ^ k < 1000 := Nat.div_lt_of_lt_mul hnext
  omega

/-- Any positive number of units of the last power is shown as such. -/
theorem exists_isScaled_last (w : Nat) :
    ∃ n whole decimals, IsScaled n 8 whole decimals 'Y' ∧ IsGrouped whole (w + 1) := by
  have hgreatest : IsGreatest (Scale.powersUpTo ((w + 1) * 1000 ^ 8)) 8 :=
    ⟨⟨by decide, by decide, Nat.le_mul_of_pos_left _ (Nat.succ_pos w)⟩, fun _ hk => hk.2.1⟩
  obtain ⟨whole, decimals, symbol, hscaled⟩ := exists_isScaled hgreatest
  obtain rfl : 'Y' = symbol := Option.some.inj hscaled.symbol
  refine ⟨_, whole, decimals, hscaled, ?_⟩
  have hwhole := hscaled.whole
  rwa [Nat.mul_div_cancel _ (by decide)] at hwhole

/-- **A difficulty is shown at the greatest power of 1000 that it reaches.** The climb through the
powers ends, and where it comes it never leaves the table of symbols. A difficulty below 1000 is
shown as it is. Any other is shown at the greatest power from the first to the eighth that does not
exceed it, where its climb ends: its whole units, two decimals that are cut off and not rounded, and
the symbol of the power. There are one to 999 whole units below the last power, and any number of
them at the last. -/
theorem readable_at_greatest_power (n : Nat) :
    WellFounded (fun next scale : Scale => scale.next? n = some next) ∧
      (∀ scale, Scale.Reaches n .first scale → scale.index < Scale.symbols.length) ∧
      Scale.Reaches n .first (Scale.first.climb n) ∧ (Scale.first.climb n).next? n = none ∧
      (n < 1000 ∧ readable n = toString n ∨
        ∃ k, IsGreatest {k | 1 ≤ k ∧ k ≤ 8 ∧ 1000 ^ k ≤ n} k ∧
          Scale.first.climb n = ⟨1000 ^ k, k - 1⟩ ∧
          ∃ whole decimals symbol, IsScaled n k whole decimals symbol ∧ 1 ≤ n / 1000 ^ k ∧
            (k < 8 → n / 1000 ^ k ≤ 999 ∧ ',' ∉ whole)) ∧
      ∀ w, ∃ m whole decimals, IsScaled m 8 whole decimals 'Y' ∧ IsGrouped whole (w + 1) := by
  refine ⟨Scale.wellFounded_next? n, fun _ h => (Scale.inv_of_reaches h).index_lt,
    Scale.reaches_climb n .first, Scale.next?_climb n .first, ?_, exists_isScaled_last⟩
  by_cases hn : n < 1000
  · exact .inl ⟨hn, readable_of_lt hn⟩
  · right
    have hgreatest := Scale.isGreatest_climb (Nat.le_of_not_lt hn)
    obtain ⟨whole, decimals, symbol, hscaled⟩ := exists_isScaled hgreatest
    obtain ⟨hpos, hle⟩ := whole_of_isGreatest hgreatest
    refine ⟨_, hgreatest, Scale.climb_eq_of_isGreatest hgreatest, whole, decimals, symbol, hscaled,
      hpos, ?_⟩
    intro hk
    exact ⟨hle hk, hscaled.whole.comma_notMem (Nat.lt_succ_of_le (hle hk))⟩

end Difficulty

end ChainBoard
