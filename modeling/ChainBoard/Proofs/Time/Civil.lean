import Mathlib.Algebra.GroupWithZero.Nat
import Mathlib.Data.List.Range
import ChainBoard.Time.Civil

/-!
# The calendar keeps count of the days

The date of a day is found by division into cycles, centuries, four years and years, and then by a
walk through the months. Here the calendar is given a second time, by its rules alone: how many days
a month has, and how many days lie between the first of January 1970 and a date when all years and
months in between are counted. The date of a day is a valid date, and counting leads back to the
day.

## Main definitions

* `daysIn`, `daysOf`: the days of a month and of a year, by the rules of the calendar
* `Date.IsValid`: the dates of the calendar
* `Date.sinceEpoch`: the days from the first of January 1970 to a date, counted

## Main results

* `daysBefore_succ`: the closed form for whole years counts year by year
* `exists_monthDay`: a walk through months ends in the month that holds the day
* `Date.isValid_ofDay`: the date of a day is valid and leads back to the day
* `Date.le_year_ofDay_iff`: which year a day is in
* `Date.sinceEpoch_ofDay`: counting the days from 1970 on leads back to the day
-/

namespace ChainBoard.Time

/-! ## The calendar by its rules -/

/-- The days of a month: April, June, September and November have 30, February has 28 or, in a leap
year, 29, and all others have 31. Every fourth year is a leap year, but of the centuries only every
fourth. -/
def daysIn (year month : Nat) : Nat :=
  if month = 2 then if 4 ∣ year ∧ (100 ∣ year → 400 ∣ year) then 29 else 28
  else if month ∈ [4, 6, 9, 11] then 30 else 31

theorem daysIn_le (year month : Nat) : daysIn year month ≤ 31 := by
  unfold daysIn
  split_ifs
  all_goals decide

/-- The days of a year, month by month. -/
def daysOf (year : Nat) : Nat :=
  ((List.range' 1 12).map (daysIn year)).sum

theorem isLeap_iff {year : Nat} : isLeap year = true ↔ 4 ∣ year ∧ (100 ∣ year → 400 ∣ year) := by
  simp only [isLeap, Bool.and_eq_true, Bool.or_eq_true, decide_eq_true_eq]
  omega

/-- The table of a year's months follows the rules. -/
theorem monthLengths_eq (year : Nat) :
    monthLengths year = (List.range' 1 12).map (daysIn year) := by
  simp only [monthLengths, isLeap_iff]
  rfl

/-- The months of a year in front of a month. -/
theorem take_monthLengths (year : Nat) {k : Nat} (h : k ≤ 12) :
    (monthLengths year).take k = (List.range' 1 k).map (daysIn year) := by
  have hsplit : List.range' 1 12 = List.range' 1 k ++ List.range' (1 + k) (12 - k) := by
    rw [List.range'_append_1, Nat.add_sub_cancel' h]
  rw [monthLengths_eq, hsplit, List.map_append]
  exact List.take_left' (by simp)

theorem daysOf_eq (year : Nat) : daysOf year = if isLeap year then 366 else 365 := by
  rw [daysOf, ← monthLengths_eq]
  by_cases h : isLeap year = true
  · simp [monthLengths, h]
  · simp [monthLengths, h]

/-! ## Whole years -/

/-- A year later, the days of that year have gone by. -/
theorem daysBefore_succ {year : Nat} (h : 1 ≤ year) :
    Date.daysBefore (year + 1) = Date.daysBefore year + daysOf year := by
  obtain ⟨years, rfl⟩ : ∃ years, year = years + 1 := ⟨year - 1, by omega⟩
  have hle : years / 100 ≤ years / 4 := Nat.div_le_div_left (by decide) (by decide)
  rw [daysOf_eq]
  unfold Date.daysBefore
  -- The quotient by 4, 100 or 400 goes up where the year is a multiple.
  rw [Nat.add_sub_cancel, Nat.add_sub_cancel, Nat.succ_div, Nat.succ_div, Nat.succ_div]
  by_cases h100 : 100 ∣ years + 1
  · -- a century
    have h4 : 4 ∣ years + 1 := Nat.dvd_trans (by decide) h100
    by_cases h400 : 400 ∣ years + 1
    · rw [if_pos h4, if_pos h100, if_pos h400, if_pos (isLeap_iff.2 ⟨h4, fun _ => h400⟩)]
      omega
    · rw [if_pos h4, if_pos h100, if_neg h400, if_neg fun h => h400 ((isLeap_iff.1 h).2 h100)]
      omega
  · have h400 : ¬ 400 ∣ years + 1 := fun h => h100 (Nat.dvd_trans (by decide) h)
    by_cases h4 : 4 ∣ years + 1
    · rw [if_pos h4, if_neg h100, if_neg h400, if_pos (isLeap_iff.2 ⟨h4, fun h => absurd h h100⟩)]
      omega
    · rw [if_neg h4, if_neg h100, if_neg h400, if_neg fun h => h4 (isLeap_iff.1 h).1]
      omega

/-- The days of whole years are counted year by year from 1970 on. -/
theorem daysBefore_eq_sum (years : Nat) :
    Date.daysBefore (1970 + years) =
      Date.daysBefore 1970 + ((List.range' 1970 years).map daysOf).sum := by
  induction years with
  | zero => rfl
  | succ years ih =>
    rw [← Nat.add_assoc, daysBefore_succ (by omega), ih, List.range'_concat, List.map_append,
      List.sum_append]
    simp [Nat.add_assoc]

/-- The days in front of a year, by the parts of the years in front of it. -/
theorem daysBefore_parts {cycle century four one : Nat} (hcentury : century ≤ 3) (hfour : four ≤ 24)
    (hone : one ≤ 3) :
    Date.daysBefore (400 * cycle + 100 * century + 4 * four + one + 1) =
      146097 * cycle + 36524 * century + 1461 * four + 365 * one := by
  rw [Date.daysBefore, Nat.add_sub_cancel]
  generalize hyears : 400 * cycle + 100 * century + 4 * four + one = years
  have h4 : years / 4 = 100 * cycle + 25 * century + four := by omega
  have h100 : years / 100 = 4 * cycle + century := by omega
  have h400 : years / 400 = cycle := by omega
  rw [h4, h100, h400]
  omega

/-! ## Months -/

/-- A walk through months ends in the month that holds the day: the months in front of it are over,
and it is not. -/
theorem exists_monthDay (month : Nat) {lengths : List Nat} {rest : Nat} (h : rest < lengths.sum) :
    ∃ i day, ∃ hi : i < lengths.length, Date.monthDay month lengths rest = (month + i, day + 1) ∧
      (lengths.take i).sum + day = rest ∧ day < lengths[i] := by
  induction lengths generalizing month rest with
  | nil => simp at h
  | cons length lengths ih =>
    rw [List.sum_cons] at h
    unfold Date.monthDay
    by_cases hr : rest < length
    · -- the day is in the first month
      rw [if_pos hr]
      exact ⟨0, rest, by simp, rfl, by simp, hr⟩
    · -- the first month is over
      rw [if_neg hr]
      have hlt : rest - length < lengths.sum := by omega
      obtain ⟨i, day, hi, hwalk, hsum, hday⟩ := ih (month + 1) hlt
      refine ⟨i + 1, day, by simpa using hi, ?_, ?_, by simpa using hday⟩
      · rw [hwalk, Nat.add_right_comm, Nat.add_assoc]
      · rw [List.take_succ_cons, List.sum_cons]
        omega

namespace Date

/-- The dates of the calendar. -/
structure IsValid (date : Date) : Prop where
  month_pos : 1 ≤ date.month
  month_le : date.month ≤ 12
  day_pos : 1 ≤ date.day
  day_le : date.day ≤ daysIn date.year date.month

/-- The days from the first of January 1970 to a date: those of all years in between, of the months
of its year in front of it, and of its month in front of it. -/
def sinceEpoch (date : Date) : Nat :=
  ((List.range' 1970 (date.year - 1970)).map daysOf).sum +
    ((List.range' 1 (date.month - 1)).map (daysIn date.year)).sum + (date.day - 1)

/-- The days of the months in front of a date are counted month by month. -/
theorem toDay_eq {date : Date} (h : date.month ≤ 12) :
    date.toDay = daysBefore date.year +
      ((List.range' 1 (date.month - 1)).map (daysIn date.year)).sum + (date.day - 1) := by
  rw [← take_monthLengths date.year (Nat.le_trans (Nat.sub_le _ 1) h)]
  rfl

/-- The days up to a date are those up to 1970 and those that are counted from there on. -/
theorem toDay_eq_sinceEpoch {date : Date} (hyear : 1970 ≤ date.year) (hmonth : date.month ≤ 12) :
    date.toDay = daysBefore 1970 + date.sinceEpoch := by
  have hyears := daysBefore_eq_sum (date.year - 1970)
  rw [Nat.add_sub_cancel' hyear] at hyears
  rw [toDay_eq hmonth, hyears, sinceEpoch]
  omega

/-! ## The date of a day -/

/-- The parts of a day: whole cycles, centuries, four years and years, and the days that remain. A
leap day is left over by the division into years. It ends four years, and those at the end of a
century have it only in the last century of a cycle. -/
theorem exists_parts (n : Nat) :
    ∃ cycle century four one rest,
      n = 146097 * cycle + 36524 * century + 1461 * four + 365 * one + rest ∧
      century ≤ 3 ∧ four ≤ 24 ∧ one ≤ 3 ∧
      (rest < 365 ∨ rest = 365 ∧ one = 3 ∧ (four < 24 ∨ century = 3)) ∧
      ∃ year, year = 400 * cycle + 100 * century + 4 * four + one + 1 ∧
        ofDay n = ⟨year, (monthDay 1 (monthLengths year) rest).1,
          (monthDay 1 (monthLengths year) rest).2⟩ := by
  refine ⟨n / 146097, min (n % 146097 / 36524) 3, _, _, _, ?_, ?_, ?_, ?_, ?_, _, rfl, rfl⟩
  all_goals omega

/-- The year of a day, and how many days of it have gone by: less than the year has. -/
theorem exists_year (n : Nat) :
    ∃ year rest, 1 ≤ year ∧ daysBefore year + rest = n ∧ rest < daysOf year ∧
      ofDay n = ⟨year, (monthDay 1 (monthLengths year) rest).1,
        (monthDay 1 (monthLengths year) rest).2⟩ := by
  obtain ⟨cycle, century, four, one, rest, hn, hcentury, hfour, hone, hrest, year, hyear, hdate⟩ :=
    exists_parts n
  refine ⟨year, rest, by omega, ?_, ?_, hdate⟩
  · rw [hyear, daysBefore_parts hcentury hfour hone, hn]
  · rw [daysOf_eq]
    by_cases hleap : isLeap year = true
    · rw [if_pos hleap]
      omega
    · -- the last of four years is no leap year only at the end of a century
      rw [if_neg hleap]
      rw [isLeap_iff] at hleap
      omega

/-- **The date of a day is in the calendar, and counting leads back to the day.** -/
theorem isValid_ofDay (n : Nat) : (ofDay n).IsValid ∧ (ofDay n).toDay = n := by
  obtain ⟨year, rest, -, hday, hrest, hdate⟩ := exists_year n
  rw [daysOf, ← monthLengths_eq] at hrest
  obtain ⟨i, day, hi, hwalk, hsum, hlt⟩ := exists_monthDay 1 hrest
  rw [hwalk] at hdate
  rw [hdate]
  simp only [monthLengths_eq, List.length_map, List.length_range', List.getElem_map,
    List.getElem_range', Nat.one_mul] at hi hlt
  refine ⟨⟨by simp, by simpa using (by omega : 1 + i ≤ 12), by simp, hlt⟩, ?_⟩
  rw [toDay_eq (by simpa using (by omega : 1 + i ≤ 12))]
  simp only [Nat.add_sub_cancel_left, Nat.add_sub_cancel]
  rw [← take_monthLengths year (Nat.le_of_lt hi), Nat.add_assoc, hsum, hday]

theorem daysBefore_mono {year year' : Nat} (h : year ≤ year') :
    daysBefore year ≤ daysBefore year' := by
  have hfour : (year - 1) / 4 ≤ (year' - 1) / 4 := Nat.div_le_div_right (Nat.sub_le_sub_right h 1)
  have hcycle : (year - 1) / 400 ≤ (year' - 1) / 400 :=
    Nat.div_le_div_right (Nat.sub_le_sub_right h 1)
  -- the centuries take away less than the years in between give
  have hcentury : (year' - 1) / 100 ≤ (year - 1) / 100 + (year' - year) := by omega
  unfold daysBefore
  omega

/-- A year has been reached when the days before it have gone by. -/
theorem le_year_ofDay_iff {n year : Nat} : year ≤ (ofDay n).year ↔ daysBefore year ≤ n := by
  obtain ⟨year', rest, hpos, hday, hrest, hdate⟩ := exists_year n
  have hover : n < daysBefore (year' + 1) := by
    rw [daysBefore_succ hpos]
    omega
  rw [hdate]
  show year ≤ year' ↔ daysBefore year ≤ n
  constructor
  · intro hle
    exact (daysBefore_mono hle).trans (by omega)
  · intro hle
    by_contra hlt
    -- the year of the day would be over
    have hnext : daysBefore (year' + 1) ≤ daysBefore year := daysBefore_mono (by omega)
    omega

/-- Counted from 1970 on, the date of a day lies as many days behind the first of January as the
day does. -/
theorem sinceEpoch_ofDay (n : Nat) : (ofDay (daysBefore 1970 + n)).sinceEpoch = n := by
  obtain ⟨hvalid, hday⟩ := isValid_ofDay (daysBefore 1970 + n)
  rw [toDay_eq_sinceEpoch (le_year_ofDay_iff.2 (Nat.le_add_right _ n)) hvalid.month_le] at hday
  exact Nat.add_left_cancel hday

end Date

end ChainBoard.Time
