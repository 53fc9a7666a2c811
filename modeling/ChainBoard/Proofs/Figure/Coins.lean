import ChainBoard.Figure.Coins
import ChainBoard.Proofs.Decimal.Digits

/-!
# Amounts of coins can be read back

The text of an amount is exact: who knows the coin unit gets the amount back from it. The name is
taken off, the commas are taken out of the whole coins, and the places are filled up with zeros to
the precision. What is left are the digits of the amount in base units.

The text does not show the precision. A unit with more decimal places shows as many zeros more of
the base units in the same way, because the zeros at the end of the places are dropped. The same
number of coins therefore has one text, whatever the unit in which it is counted.

## Main definitions

* `CoinUnit.amount?`: the amount that a text of coins names
* `CoinUnit.IsPlaces`: how decimal places are shown
* `CoinUnit.finer`: the unit with more decimal places

## Main results

* `CoinUnit.isPlaces_places`: the places of an amount are shown without the zeros at their end
* `CoinUnit.amount?_readable`: the text of an amount names that amount
* `CoinUnit.readable_lossless`: the parts of the text of an amount, from which it is read back
* `CoinUnit.readable_finer`: the text of an amount counted in a unit with more decimal places
* `CoinUnit.readable_eq_readable_iff`: amounts have one text if they are the same number of coins
-/

namespace ChainBoard

namespace CoinUnit

/-- The number of base units that a text of coins names: the whole coins without their commas, and
the places filled up to the precision, are its digits. -/
def amount? (unit : CoinUnit) (text : String) : Option Nat := do
  let body ← text.toList.dropSuffix? unit.suffix.toList
  let places := (body.dropWhile (· ≠ '.')).tail
  if places.length ≤ unit.precision then
    Decimal.digits? ((body.takeWhile (· ≠ '.')).filter (· ≠ ',') ++
      places.rightpad unit.precision '0')
  else none

/-- All places of an amount, with the zeros at their end. -/
def allPlaces (unit : CoinUnit) (amount : Nat) : List Char :=
  if amount % unit.coin = 0 then List.replicate unit.precision '0'
  else (Nat.toDigits 10 (amount % unit.coin)).leftpad unit.precision '0'

/-- How the places of an amount are shown: at least one digit, no more than the precision, and no
zero at the end. -/
structure IsPlaces (unit : CoinUnit) (places : List Char) : Prop where
  pos : 0 < places.length
  length_le : places.length ≤ unit.precision
  isDigit : ∀ d ∈ places, d.isDigit = true
  getLast?_ne : places.getLast? ≠ some '0'

variable (unit : CoinUnit) (amount : Nat)

/-! ## All places of an amount -/

theorem allPlaces_of_rest {amount : Nat} (h : amount % unit.coin ≠ 0) :
    unit.allPlaces amount = (Nat.toDigits 10 (amount % unit.coin)).leftpad unit.precision '0' :=
  if_neg h

theorem length_allPlaces : (unit.allPlaces amount).length = unit.precision := by
  by_cases h : amount % unit.coin = 0
  · rw [allPlaces, if_pos h, List.length_replicate]
  · -- a rest below the coin has no more digits than the coin has places
    have hlt : amount % unit.coin < 10 ^ unit.precision :=
      Nat.mod_lt _ (Nat.pow_pos (by decide))
    have hp : 0 < unit.precision := by
      refine Nat.pos_of_ne_zero fun h0 => h ?_
      rw [h0, Nat.pow_zero] at hlt
      exact Nat.lt_one_iff.1 hlt
    rw [unit.allPlaces_of_rest h, Decimal.length_leftpad hp hlt]

theorem isDigit_of_mem_allPlaces {c : Char} (h : c ∈ unit.allPlaces amount) :
    c.isDigit = true := by
  by_cases h0 : amount % unit.coin = 0
  · rw [allPlaces, if_pos h0] at h
    rw [List.eq_of_mem_replicate h]
    rfl
  · rw [unit.allPlaces_of_rest h0] at h
    exact Decimal.isDigit_of_mem_leftpad h

theorem ofDigitChars_allPlaces :
    Nat.ofDigitChars 10 (unit.allPlaces amount) 0 = amount % unit.coin := by
  by_cases h : amount % unit.coin = 0
  · rw [allPlaces, if_pos h, Nat.ofDigitChars_replicate_zero, h, Nat.mul_zero]
  · rw [unit.allPlaces_of_rest h, Decimal.ofDigitChars_leftpad]

/-! ## The places that are shown -/

/-- The places that are shown, and zeros behind them, are all places. -/
theorem exists_places_append {amount : Nat} (h : amount % unit.coin ≠ 0) :
    ∃ k, unit.allPlaces amount = unit.places amount ++ List.replicate k '0' := by
  rw [unit.allPlaces_of_rest h]
  exact Text.trimEnd_append_self '0' _

/-- The places of an amount are shown without the zeros at their end, and some place is left. -/
theorem isPlaces_places {amount : Nat} (h : amount % unit.coin ≠ 0) :
    unit.IsPlaces (unit.places amount) := by
  obtain ⟨k, hk⟩ := unit.exists_places_append h
  have hlength := congrArg List.length hk
  rw [length_allPlaces, List.length_append] at hlength
  refine ⟨?_, by omega, ?_, Text.getLast?_trimEnd_ne '0' _⟩
  · -- nothing but zeros would be no rest
    apply List.length_pos_iff.2
    intro hnil
    apply h
    rw [← ofDigitChars_allPlaces, hk, hnil, List.nil_append, Nat.ofDigitChars_replicate_zero,
      Nat.mul_zero]
  · intro d hd
    apply unit.isDigit_of_mem_allPlaces amount
    rw [hk]
    exact List.mem_append_left _ hd

/-- There is no fraction exactly if an amount is a whole number of coins. -/
theorem fraction_eq_nil_iff : unit.fraction amount = [] ↔ 10 ^ unit.precision ∣ amount := by
  rw [Nat.dvd_iff_mod_eq_zero]
  change _ ↔ amount % unit.coin = 0
  by_cases h : amount % unit.coin = 0
  · simp [fraction, h]
  · simp [fraction, h]

/-- A fraction is a point and the places that are shown. -/
theorem fraction_of_ne_nil {amount : Nat} (h : unit.fraction amount ≠ []) :
    ∃ places, unit.fraction amount = '.' :: places ∧ unit.IsPlaces places := by
  have hrest : amount % unit.coin ≠ 0 := fun h0 => h (if_pos h0)
  exact ⟨unit.places amount, if_neg hrest, unit.isPlaces_places hrest⟩

/-- The places behind the point of an amount, filled up, are all its places. -/
theorem rightpad_fraction :
    (unit.fraction amount).tail.rightpad unit.precision '0' = unit.allPlaces amount ∧
      (unit.fraction amount).tail.length ≤ unit.precision := by
  by_cases h : amount % unit.coin = 0
  · -- whole coins: all places are filled up
    simp [fraction, allPlaces, h, List.rightpad]
  · -- what was trimmed off is filled up again
    obtain ⟨k, hk⟩ := unit.exists_places_append h
    have hlength := congrArg List.length hk
    rw [length_allPlaces, List.length_append, List.length_replicate] at hlength
    have hpad : unit.precision - (unit.places amount).length = k := by omega
    rw [fraction, if_neg h, List.tail_cons, List.rightpad, hpad, hk]
    exact ⟨rfl, by omega⟩

/-- The whole coins reach to the point. -/
theorem takeWhile_body :
    (Decimal.grouped (amount / unit.coin) ++ unit.fraction amount).takeWhile (· ≠ '.') =
        Decimal.grouped (amount / unit.coin) ∧
      (Decimal.grouped (amount / unit.coin) ++ unit.fraction amount).dropWhile (· ≠ '.') =
        unit.fraction amount := by
  have hpoint : '.' ∉ Decimal.grouped (amount / unit.coin) :=
    Decimal.notMem_grouped _ rfl (by decide)
  have hpos : ∀ c ∈ Decimal.grouped (amount / unit.coin), decide (c ≠ '.') = true := fun c hc =>
    decide_eq_true (ne_of_mem_of_not_mem hc hpoint)
  rw [List.takeWhile_append_of_pos hpos, List.dropWhile_append_of_pos hpos]
  by_cases h : amount % unit.coin = 0
  · simp [fraction, h]
  · simp [fraction, h]

/-! ## Reading back -/

/-- The digits of the whole coins and all places are the digits of the amount. -/
theorem digits?_readable :
    Decimal.digits? ((Decimal.grouped (amount / unit.coin)).filter (· ≠ ',') ++
      (unit.fraction amount).tail.rightpad unit.precision '0') = some amount := by
  have hdigits := Decimal.digits?_places (q := amount / unit.coin) (unit.length_allPlaces amount)
    (fun _ hc => unit.isDigit_of_mem_allPlaces amount hc) (unit.ofDigitChars_allPlaces amount)
  calc Decimal.digits? _
      = Decimal.digits? (Nat.toDigits 10 (amount / unit.coin) ++ unit.allPlaces amount) := by
        rw [Decimal.filter_grouped, (unit.rightpad_fraction amount).1]
    _ = some (unit.coin * (amount / unit.coin) + amount % unit.coin) := hdigits
    _ = some amount := by rw [Nat.div_add_mod]

/-- **The text of an amount names that amount**, for any precision and any name of the coins. -/
theorem amount?_readable : unit.amount? (unit.readable amount) = some amount := by
  have hbody : (unit.readable amount).toList.dropSuffix? unit.suffix.toList =
      some (Decimal.grouped (amount / unit.coin) ++ unit.fraction amount) := by
    rw [List.dropSuffix?_eq_some_iff]
    exact ⟨unit.suffix.toList, by simp [readable], by simp⟩
  obtain ⟨htake, hdrop⟩ := unit.takeWhile_body amount
  unfold amount?
  rw [hbody]
  simp only [Option.bind_eq_bind, Option.bind_some]
  rw [htake, hdrop, if_pos (unit.rightpad_fraction amount).2, unit.digits?_readable]

/-- **The text of an amount loses nothing.** It is made of the whole coins in groups, a fraction and
the name. There is a fraction exactly if the amount is no whole number of coins, and it has no zero
at its end. The digits of the whole coins and of the fraction, filled up to the precision, are those
of the amount; and so the amount is read back from the text. -/
theorem readable_lossless (unit : CoinUnit) (amount : Nat) :
    (∃ whole fraction : List Char,
      unit.readable amount =
          String.ofList (whole ++ fraction ++
            if unit.name = "" then [] else ' ' :: unit.name.toList) ∧
        Decimal.IsGrouped whole (amount / 10 ^ unit.precision) ∧
        (fraction = [] ↔ 10 ^ unit.precision ∣ amount) ∧
        (fraction ≠ [] → ∃ places, fraction = '.' :: places ∧ unit.IsPlaces places) ∧
        Decimal.digits? (whole.filter (· ≠ ',') ++ fraction.tail.rightpad unit.precision '0') =
          some amount) ∧
      unit.amount? (unit.readable amount) = some amount := by
  refine ⟨⟨Decimal.grouped (amount / unit.coin), unit.fraction amount, ?_, ?_, ?_, ?_, ?_⟩, ?_⟩
  · have hsuffix : unit.suffix =
        String.ofList (if unit.name = "" then [] else ' ' :: unit.name.toList) := by
      apply String.toList_inj.1
      by_cases h : unit.name = ""
      · simp [suffix, h]
      · simp [suffix, h]
    rw [readable, hsuffix, ← String.ofList_append]
  · exact Decimal.isGrouped_grouped _
  · exact unit.fraction_eq_nil_iff amount
  · exact unit.fraction_of_ne_nil
  · exact unit.digits?_readable amount
  · exact unit.amount?_readable amount

/-! ## Amounts in other units -/

/-- Two amounts in one unit never share a text. -/
theorem readable_injective : Function.Injective unit.readable := by
  intro amount amount' h
  have hread := unit.amount?_readable amount
  rw [h, unit.amount?_readable amount'] at hread
  exact (Option.some.inj hread).symm

/-- The unit with `k` more decimal places. -/
def finer (k : Nat) : CoinUnit where
  precision := unit.precision + k
  name := unit.name

theorem coin_finer (k : Nat) : (unit.finer k).coin = unit.coin * 10 ^ k :=
  Nat.pow_add 10 unit.precision k

/-- The whole coins are the same. -/
theorem div_coin_finer (k : Nat) :
    amount * 10 ^ k / (unit.finer k).coin = amount / unit.coin := by
  rw [coin_finer, Nat.mul_div_mul_right _ _ (Nat.pow_pos (by decide))]

/-- The rest is the same number of base units of the coarser unit. -/
theorem mod_coin_finer (k : Nat) :
    amount * 10 ^ k % (unit.finer k).coin = amount % unit.coin * 10 ^ k := by
  rw [coin_finer, Nat.mul_mod_mul_right]

/-- The places that are shown are the same: there are more zeros behind them, which are dropped. -/
theorem places_finer {amount : Nat} (h : amount % unit.coin ≠ 0) (k : Nat) :
    (unit.finer k).places (amount * 10 ^ k) = unit.places amount := by
  let digits := Nat.toDigits 10 (amount % unit.coin)
  have hpad : (digits ++ List.replicate k '0').leftpad (unit.precision + k) '0' =
      digits.leftpad unit.precision '0' ++ List.replicate k '0' := by
    have := Decimal.leftpad_append digits (List.replicate k '0') unit.precision
    rwa [List.length_replicate] at this
  calc (unit.finer k).places (amount * 10 ^ k)
      = Text.trimEnd '0' ((digits ++ List.replicate k '0').leftpad (unit.precision + k) '0') := by
        rw [places, mod_coin_finer, Decimal.toDigits_mul_pow (Nat.pos_of_ne_zero h)]
        rfl
    _ = unit.places amount := by
        rw [hpad, Text.trimEnd_append_replicate]
        rfl

theorem fraction_finer (k : Nat) :
    (unit.finer k).fraction (amount * 10 ^ k) = unit.fraction amount := by
  by_cases h : amount % unit.coin = 0
  · -- whole coins have no fraction in either unit
    simp [fraction, mod_coin_finer, h]
  · have hpow : 10 ^ k ≠ 0 := Nat.ne_of_gt (Nat.pow_pos (by decide))
    have hrest : amount * 10 ^ k % (unit.finer k).coin ≠ 0 := by
      rw [mod_coin_finer]
      exact Nat.mul_ne_zero h hpow
    rw [fraction, fraction, if_neg hrest, if_neg h, unit.places_finer h]

/-- **The text of an amount does not show the precision.** In a unit with `k` more decimal places
an amount is `10 ^ k` times as many base units, and its text stays the same. -/
theorem readable_finer (k : Nat) :
    (unit.finer k).readable (amount * 10 ^ k) = unit.readable amount := by
  rw [readable, div_coin_finer, fraction_finer]
  rfl

/-- **Amounts have one text exactly if they are the same number of coins.** Whatever the precisions
in which two amounts are counted, under one name their texts are the same if and only if the amounts
are equal as numbers of coins. -/
theorem readable_eq_readable_iff (a b p q : Nat) (name : String) :
    CoinUnit.readable ⟨p, name⟩ a = CoinUnit.readable ⟨q, name⟩ b ↔ a * 10 ^ q = b * 10 ^ p := by
  -- both amounts are counted in the unit that has the places of both
  have ha : CoinUnit.readable ⟨p + q, name⟩ (a * 10 ^ q) = CoinUnit.readable ⟨p, name⟩ a :=
    readable_finer ⟨p, name⟩ a q
  have hb : CoinUnit.readable ⟨p + q, name⟩ (b * 10 ^ p) = CoinUnit.readable ⟨q, name⟩ b := by
    rw [Nat.add_comm]
    exact readable_finer ⟨q, name⟩ b p
  rw [← ha, ← hb]
  exact (readable_injective ⟨p + q, name⟩).eq_iff

end CoinUnit

end ChainBoard
