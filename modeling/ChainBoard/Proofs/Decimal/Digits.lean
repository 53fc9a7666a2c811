import Mathlib.Algebra.Group.Nat.Defs
import Mathlib.Data.List.Basic
import ChainBoard.Decimal.Grouping
import ChainBoard.Decimal.Numeral

/-!
# Digits, filled up and in groups

The decimal digits of a number start with a zero only if the number is zero. People may type more
zeros and a plus sign. Filled up with zeros in front the digits take a given number of places and
still name the number. In groups of three, counted from the right, they are one group of one to
three digits and then groups of exactly three, each behind a comma. What holds no separator, such as
digits, ends where the separator stands.

## Main definitions

* `IsNumeral`: a number as people type it
* `IsFilled`: a number filled up to a number of places
* `InGroups`: digits in groups of three
* `IsGrouped`: a number in groups of three digits

## Main results

* `Text.append_cons_inj`: a separator ends what stands in front of it
* `toDigits_injective`: no digits are those of two numbers
* `head?_toDigits`: no needless zero in front
* `toDigits_mul_pow`: zeros behind the digits
* `numeral?_eq_some_iff`: the numerals are read, and nothing else is
* `isFilled_leftpad`: digits filled up to a number of places
* `digits?_places`: digits in front of places
* `inGroups_group`: the commas stand between groups
* `isGrouped_grouped`: the grouped text of a number
-/

namespace ChainBoard

namespace Text

variable {c : Char} {front front' rest rest' : List Char}

theorem takeWhile_append_cons (h : c ∉ front) (rest : List Char) :
    (front ++ c :: rest).takeWhile (· ≠ c) = front := by
  rw [List.takeWhile_append_of_pos fun a ha => decide_eq_true (ne_of_mem_of_not_mem ha h)]
  simp

/-- What stands in front of the first separator can be told from what stands behind it. -/
theorem append_cons_inj (h : c ∉ front) (h' : c ∉ front')
    (he : front ++ c :: rest = front' ++ c :: rest') : front = front' ∧ rest = rest' := by
  have hfront : front = front' := by
    rw [← takeWhile_append_cons h rest, he, takeWhile_append_cons h' rest']
  subst hfront
  exact ⟨rfl, (List.cons.inj (List.append_cancel_left he)).2⟩

end Text

namespace Decimal

/-! ## Digits -/

theorem isDigit_of_mem_toDigits {n : Nat} {c : Char} (h : c ∈ Nat.toDigits 10 n) :
    c.isDigit = true :=
  Nat.isDigit_of_mem_toDigits (by decide) (by decide) h

theorem notMem_toDigits {c : Char} (n : Nat) (h : c.isDigit = false) : c ∉ Nat.toDigits 10 n := by
  intro hc
  rw [isDigit_of_mem_toDigits hc] at h
  cases h

/-- The digits of a number tell which number it is. -/
theorem toDigits_injective {n m : Nat} (h : Nat.toDigits 10 n = Nat.toDigits 10 m) : n = m := by
  rw [← Nat.ofDigitChars_ten_toDigits (n := n), h, Nat.ofDigitChars_ten_toDigits]

/-- The digits of a positive number do not start with a zero. -/
theorem head?_toDigits_ne {n : Nat} (h : 0 < n) : (Nat.toDigits 10 n).head? ≠ some '0' := by
  induction n using Nat.strongRecOn with
  | ind n ih =>
    by_cases hn : n < 10
    · -- one digit, which is not the zero
      rw [Nat.toDigits_of_lt_base hn, List.head?_cons]
      intro h0
      have hdigit := congrArg Char.toNat (Option.some.inj h0)
      rw [Nat.toNat_digitChar_of_lt_ten hn] at hdigit
      change 48 + n = 48 at hdigit
      omega
    · -- the first digit is that of the number without its last digit
      have hdiv : 0 < n / 10 := by omega
      rw [Nat.toDigits_of_base_le (by decide) (by omega),
        List.head?_append_of_ne_nil _ Nat.toDigits_ne_nil]
      exact ih (n / 10) (by omega) hdiv

/-- A zero in front is the number zero. -/
theorem head?_toDigits {n : Nat} (h : (Nat.toDigits 10 n).head? = some '0') : n = 0 := by
  by_contra hn
  exact head?_toDigits_ne (Nat.pos_of_ne_zero hn) h

/-- A power of ten puts as many zeros behind the digits of a positive number. -/
theorem toDigits_mul_pow {n : Nat} (h : 0 < n) (k : Nat) :
    Nat.toDigits 10 (n * 10 ^ k) = Nat.toDigits 10 n ++ List.replicate k '0' := by
  induction k with
  | zero => simp
  | succ k ih =>
    have hpos : 0 < n * 10 ^ k := Nat.mul_pos h (Nat.pow_pos (by decide))
    have hshift : n * 10 ^ (k + 1) = 10 * (n * 10 ^ k) + 0 := by
      rw [Nat.pow_succ, Nat.add_zero, ← Nat.mul_assoc, Nat.mul_comm]
    calc Nat.toDigits 10 (n * 10 ^ (k + 1))
        = Nat.toDigits 10 (n * 10 ^ k) ++ Nat.toDigits 10 0 := by
          rw [hshift, Nat.toDigits_append_toDigits (by decide) hpos (by decide)]
      _ = Nat.toDigits 10 n ++ (List.replicate k '0' ++ ['0']) := by
          rw [ih, List.append_assoc]
          rfl
      _ = Nat.toDigits 10 n ++ List.replicate (k + 1) '0' := by rw [List.replicate_succ']

/-! ## Numerals that people type -/

/-- A numeral for a number: one or more decimal digits, with at most one plus sign in front. There
may be any number of zeros before the first digit that counts. -/
def IsNumeral (text : List Char) (n : Nat) : Prop :=
  ∃ sign digits, text = sign ++ digits ∧ (sign = [] ∨ sign = ['+']) ∧
    digits ≠ [] ∧ (∀ d ∈ digits, d.isDigit = true) ∧ Nat.ofDigitChars 10 digits 0 = n

theorem digits?_eq_some_iff {s : List Char} {n : Nat} :
    digits? s = some n ↔
      s ≠ [] ∧ (∀ d ∈ s, d.isDigit = true) ∧ Nat.ofDigitChars 10 s 0 = n := by
  rw [digits?, ite_eq_iff, List.all_eq_true, Option.some.injEq]
  simp only [reduceCtorEq, and_false, or_false, and_assoc]

/-- The numerals are read, and nothing else is. -/
theorem numeral?_eq_some_iff {text : List Char} {n : Nat} :
    numeral? text = some n ↔ IsNumeral text n := by
  constructor
  · intro h
    unfold numeral? at h
    split at h
    · exact ⟨['+'], _, rfl, .inr rfl, digits?_eq_some_iff.1 h⟩
    · exact ⟨[], _, rfl, .inl rfl, digits?_eq_some_iff.1 h⟩
  · rintro ⟨sign, digits, rfl, rfl | rfl, hdigits⟩
    · -- a digit is not a plus sign
      have hsign : ∀ s, digits ≠ '+' :: s := by
        rintro s rfl
        have hplus : '+'.isDigit = true := hdigits.2.1 '+' List.mem_cons_self
        cases hplus
      rw [List.nil_append, numeral?]
      · exact digits?_eq_some_iff.2 hdigits
      · exact hsign
    · exact digits?_eq_some_iff.2 hdigits

/-- A numeral is one for one number. -/
theorem IsNumeral.unique {text : List Char} {m n : Nat} (hm : IsNumeral text m)
    (hn : IsNumeral text n) : m = n := by
  rw [← numeral?_eq_some_iff] at hm hn
  exact Option.some.inj (hm.symm.trans hn)

/-! ## Digits filled up with zeros -/

/-- A number in decimal, filled up with zeros to a number of places. -/
structure IsFilled (text : List Char) (width n : Nat) : Prop where
  length_eq : text.length = width
  isDigit : ∀ d ∈ text, d.isDigit = true
  value : Nat.ofDigitChars 10 text 0 = n

section Leftpad

variable {n width : Nat}

/-- A number takes as many places as it is given, if they are enough. -/
theorem length_leftpad (hw : 0 < width) (h : n < 10 ^ width) :
    ((Nat.toDigits 10 n).leftpad width '0').length = width := by
  have hle := (Nat.length_toDigits_le_iff (by decide) hw).2 h
  rw [List.length_leftpad]
  omega

theorem isDigit_of_mem_leftpad {c : Char} (h : c ∈ (Nat.toDigits 10 n).leftpad width '0') :
    c.isDigit = true := by
  rw [List.leftpad, List.mem_append] at h
  rcases h with h | h
  · rw [List.eq_of_mem_replicate h]
    rfl
  · exact isDigit_of_mem_toDigits h

/-- Zeros in front do not change the number. -/
theorem ofDigitChars_leftpad :
    Nat.ofDigitChars 10 ((Nat.toDigits 10 n).leftpad width '0') 0 = n := by
  rw [List.leftpad, Nat.ofDigitChars_append, Nat.ofDigitChars_replicate_zero, Nat.mul_zero,
    Nat.ofDigitChars_ten_toDigits]

/-- Digits behind take as many places more, and the zeros in front stay the same. -/
theorem leftpad_append (s t : List Char) (width : Nat) :
    (s ++ t).leftpad (width + t.length) '0' = s.leftpad width '0' ++ t := by
  have hzeros : width + t.length - (s ++ t).length = width - s.length := by
    rw [List.length_append]
    omega
  rw [List.leftpad, List.leftpad, hzeros, List.append_assoc]

theorem isFilled_leftpad (hw : 0 < width) (h : n < 10 ^ width) :
    IsFilled ((Nat.toDigits 10 n).leftpad width '0') width n :=
  ⟨length_leftpad hw h, fun _ => isDigit_of_mem_leftpad, ofDigitChars_leftpad⟩

end Leftpad

/-! ## Digits in front of places -/

/-- Digits and a number of places behind them name the number of both. -/
theorem digits?_places {q r p : Nat} {places : List Char} (hlen : places.length = p)
    (hd : ∀ c ∈ places, c.isDigit = true) (hr : Nat.ofDigitChars 10 places 0 = r) :
    digits? (Nat.toDigits 10 q ++ places) = some (10 ^ p * q + r) := by
  have hne : Nat.toDigits 10 q ++ places ≠ [] := by
    simp [Nat.toDigits_ne_nil]
  have hall : (Nat.toDigits 10 q ++ places).all Char.isDigit = true := by
    apply List.all_eq_true.2
    intro c hc
    rcases List.mem_append.1 hc with hc | hc
    · exact isDigit_of_mem_toDigits hc
    · exact hd c hc
  rw [digits?, if_pos ⟨hne, hall⟩, Nat.ofDigitChars_append, Nat.ofDigitChars_ten_toDigits,
    Nat.ofDigitChars_eq_ofDigitChars_zero, hlen, hr]

/-! ## Digits in groups -/

/-- Grouping puts nothing but commas between digits. -/
theorem mem_group {ds : List Char} {c : Char} (h : c ∈ group ds) : c ∈ ds ∨ c = ',' := by
  induction ds with
  | nil => cases h
  | cons d ds ih =>
    unfold group at h
    split at h
    · simp only [List.mem_cons] at h ⊢
      grind
    · simp only [List.mem_cons] at h ⊢
      grind

theorem notMem_grouped {c : Char} (n : Nat) (h : c.isDigit = false) (hcomma : c ≠ ',') :
    c ∉ grouped n := by
  intro hc
  rcases mem_group hc with hc | hc
  · exact notMem_toDigits n h hc
  · exact hcomma hc

theorem filter_grouped (n : Nat) : (grouped n).filter (· ≠ ',') = Nat.toDigits 10 n := by
  apply filter_group
  intro d hd
  exact ne_of_mem_of_not_mem hd (notMem_toDigits n rfl)

/-- There is a digit in the grouped text of a number. -/
theorem exists_isDigit_mem_grouped (n : Nat) : ∃ d ∈ grouped n, d.isDigit = true := by
  obtain ⟨d, hd⟩ := List.exists_mem_of_ne_nil (Nat.toDigits 10 n) Nat.toDigits_ne_nil
  refine ⟨d, ?_, isDigit_of_mem_toDigits hd⟩
  rw [← filter_grouped] at hd
  exact List.mem_of_mem_filter hd

/-- Digits in groups of three, counted from the right: one to three digits, and any number of groups
of exactly three digits with a comma in front of each. -/
def InGroups (ds text : List Char) : Prop :=
  ∃ (first : List Char) (groups : List (List Char)), ds = first ++ groups.flatten ∧
    text = first ++ groups.flatMap (',' :: ·) ∧ 0 < first.length ∧ first.length ≤ 3 ∧
    ∀ g ∈ groups, g.length = 3

/-- A number in decimal, without needless zeros, in groups of three digits. -/
def IsGrouped (text : List Char) (n : Nat) : Prop :=
  InGroups (Nat.toDigits 10 n) text ∧ (text.head? = some '0' → n = 0)

theorem length_flatten_groups {groups : List (List Char)} (h : ∀ g ∈ groups, g.length = 3) :
    groups.flatten.length = 3 * groups.length := by
  rw [List.length_flatten, List.map_congr_left h, List.map_const', List.sum_replicate_nat,
    Nat.mul_comm]

/-- **The commas stand between groups of three digits.** -/
theorem inGroups_group {ds : List Char} (h : ds ≠ []) : InGroups ds (group ds) := by
  induction ds with
  | nil => exact absurd rfl h
  | cons d ds ih =>
    by_cases hds : ds = []
    · subst hds
      exact ⟨[d], [], rfl, rfl, by simp, by simp, by simp⟩
    · obtain ⟨first, groups, hflat, htext, hpos, hle, hgroups⟩ := ih hds
      have hlength : ds.length = first.length + 3 * groups.length := by
        rw [hflat, List.length_append, length_flatten_groups hgroups]
      by_cases hfull : first.length = 3
      · -- the first group is full: a comma, and the digit is a group of its own
        have hcomma : group (d :: ds) = d :: ',' :: group ds := by
          rw [group, if_pos ⟨by omega, hds⟩]
        refine ⟨[d], first :: groups, by simp [← hflat], ?_, by simp, by simp, ?_⟩
        · rw [hcomma, htext]
          rfl
        · intro g hg
          rcases List.mem_cons.1 hg with rfl | hg
          · exact hfull
          · exact hgroups g hg
      · -- the digit joins the first group
        have hjoin : group (d :: ds) = d :: group ds := by
          rw [group, if_neg (by omega)]
        refine ⟨d :: first, groups, by simp [← hflat], ?_, by simp, ?_, hgroups⟩
        · rw [hjoin, htext]
          rfl
        · rw [List.length_cons]
          omega

/-- **A number is shown in groups of three digits**, without needless zeros. -/
theorem isGrouped_grouped (n : Nat) : IsGrouped (grouped n) n := by
  have hgroups : InGroups (Nat.toDigits 10 n) (grouped n) := inGroups_group Nat.toDigits_ne_nil
  refine ⟨hgroups, fun h => head?_toDigits ?_⟩
  -- the first digit stands in the first group
  obtain ⟨first, groups, hflat, htext, hpos, -, -⟩ := hgroups
  have hne : first ≠ [] := List.ne_nil_of_length_pos hpos
  rw [htext, List.head?_append_of_ne_nil _ hne] at h
  rw [hflat, List.head?_append_of_ne_nil _ hne, h]

/-- A number of at most three digits has no comma. -/
theorem IsGrouped.comma_notMem {n : Nat} {text : List Char} (h : IsGrouped text n)
    (hn : n < 1000) : ',' ∉ text := by
  obtain ⟨⟨first, groups, hflat, rfl, hpos, -, hgroups⟩, -⟩ := h
  have hlength : (Nat.toDigits 10 n).length ≤ 3 :=
    (Nat.length_toDigits_le_iff (by decide) (by decide)).2 hn
  rw [hflat, List.length_append, length_flatten_groups hgroups] at hlength
  -- the first group has a digit, so that there is no room for another group
  obtain rfl : groups = [] := List.eq_nil_of_length_eq_zero (by omega)
  rw [List.flatten_nil, List.append_nil] at hflat
  rw [List.flatMap_nil, List.append_nil, ← hflat]
  exact notMem_toDigits n rfl

end Decimal

end ChainBoard
