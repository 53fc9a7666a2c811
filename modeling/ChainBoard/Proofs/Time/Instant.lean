import ChainBoard.Proofs.Decimal.Digits
import ChainBoard.Proofs.Time.Civil
import ChainBoard.Time.Instant

/-!
# Instants can be read back

The text of an instant is a date of the calendar and a time of day, and the seconds between the
beginning of 1970 and that date and time are those of the instant. All fields but the year have a
fixed width, and no year holds the dash behind it, so that the text determines its fields. An
instant without a date is shown by its number. No text is shown for two instants.

## Main definitions

* `Clock.IsValid`: the times of a day
* `Instant.IsStamp`: how a date and a time of day are written
* `Instant.secondsTo`: the seconds from the beginning of 1970 to a date and a time of day

## Main results

* `Instant.IsStamp.unique`: a text holds one date and one time of day
* `Instant.le_last_iff`: which instants have a date
* `Instant.secondsTo_date_clock`: date and time of day of an instant lead back to it
* `Instant.readable_names_instant`: the text of an instant names that instant
-/

namespace ChainBoard.Time

open Decimal (IsFilled)

/-- The times of a day. -/
structure Clock.IsValid (clock : Clock) : Prop where
  hour_lt : clock.hour < 24
  minute_lt : clock.minute < 60
  second_lt : clock.second < 60

namespace Instant

/-! ## Instants of dates -/

/-- The seconds from the beginning of 1970 to a date and a time of day. -/
def secondsTo (date : Date) (clock : Clock) : Nat :=
  86400 * date.sinceEpoch + clock.toSecond

/-- The clock shows a time of the day. -/
theorem clock_isValid (seconds : Nat) : (clock seconds).IsValid := by
  have hlt : seconds % 86400 < 86400 := Nat.mod_lt _ (by decide)
  refine ⟨?_, Nat.mod_lt _ (by decide), Nat.mod_lt _ (by decide)⟩
  exact Nat.div_lt_of_lt_mul hlt

/-- **Date and time of day of an instant lead back to it.** -/
theorem secondsTo_date_clock (seconds : Nat) :
    secondsTo (date seconds) (clock seconds) = seconds := by
  have hday : (date seconds).sinceEpoch = seconds / 86400 := Date.sinceEpoch_ofDay _
  have htime : (clock seconds).toSecond = seconds % 86400 := by
    simp only [clock, Clock.ofSecond, Clock.toSecond]
    omega
  rw [secondsTo, hday, htime, Nat.div_add_mod]

/-- The date of an instant is in the calendar, from 1970 on. -/
theorem date_isValid (seconds : Nat) : 1970 ≤ (date seconds).year ∧ (date seconds).IsValid :=
  ⟨Date.le_year_ofDay_iff.2 (Nat.le_add_right _ _), (Date.isValid_ofDay _).1⟩

/-- The calendar ends with the year 262142, and the last instant is its last second. -/
theorem le_last_iff {seconds : Nat} : seconds ≤ last ↔ (date seconds).year ≤ 262142 := by
  have hyear : 262143 ≤ (date seconds).year ↔ Date.daysBefore 262143 ≤ epochDay + seconds / 86400 :=
    Date.le_year_ofDay_iff
  have hdays : Date.daysBefore 262143 = epochDay + 95026237 := by decide
  rw [hdays] at hyear
  unfold last
  omega

/-! ## How instants are written -/

/-- How a year is written: in four digits up to 9999, and in all its digits behind a plus sign
beyond. -/
def IsYear (text : List Char) (year : Nat) : Prop :=
  year ≤ 9999 ∧ IsFilled text 4 year ∨ 9999 < year ∧ text = '+' :: Nat.toDigits 10 year

/-- How a date and a time of day are written: `Y-MM-DD hh:mm:ss UTC`. -/
def IsStamp (text : List Char) (date : Date) (clock : Clock) : Prop :=
  ∃ year month day hour minute second,
    text = year ++ '-' :: (month ++ '-' :: (day ++ ' ' :: (hour ++ ':' :: (minute ++ ':' ::
      (second ++ " UTC".toList))))) ∧
    IsYear year date.year ∧ IsFilled month 2 date.month ∧ IsFilled day 2 date.day ∧
    IsFilled hour 2 clock.hour ∧ IsFilled minute 2 clock.minute ∧ IsFilled second 2 clock.second

theorem isYear_yearDigits (year : Nat) : IsYear (yearDigits year) year := by
  unfold yearDigits
  by_cases h : year ≤ 9999
  · rw [if_pos h]
    exact .inl ⟨h, Decimal.isFilled_leftpad (by decide) (by omega)⟩
  · rw [if_neg h]
    exact .inr ⟨by omega, rfl⟩

theorem isFilled_twoDigits {n : Nat} (h : n < 100) : IsFilled (twoDigits n) 2 n :=
  Decimal.isFilled_leftpad (by decide) h

/-- An instant with a date is written as that date and its time of day. -/
theorem isStamp_readable {seconds : Nat} (h : seconds ≤ last) :
    IsStamp (readable seconds).toList (date seconds) (clock seconds) := by
  have hdate : (date seconds).IsValid := (date_isValid seconds).2
  have hclock : (clock seconds).IsValid := clock_isValid seconds
  have hmonth : (date seconds).month < 100 := Nat.lt_of_le_of_lt hdate.month_le (by decide)
  have hday : (date seconds).day < 100 :=
    Nat.lt_of_le_of_lt (Nat.le_trans hdate.day_le (daysIn_le _ _)) (by decide)
  refine ⟨yearDigits (date seconds).year, twoDigits (date seconds).month,
    twoDigits (date seconds).day, twoDigits (clock seconds).hour, twoDigits (clock seconds).minute,
    twoDigits (clock seconds).second, ?_, isYear_yearDigits _, isFilled_twoDigits hmonth,
    isFilled_twoDigits hday, isFilled_twoDigits (Nat.lt_trans hclock.hour_lt (by decide)),
    isFilled_twoDigits (Nat.lt_trans hclock.minute_lt (by decide)),
    isFilled_twoDigits (Nat.lt_trans hclock.second_lt (by decide))⟩
  rw [readable, if_pos h, String.toList_append, String.toList_ofList]
  simp [stamp, dateDigits, clockDigits]

/-! ## What instants are written with -/

section

variable {c : Char}

theorem notMem_twoDigits (n : Nat) (h : c.isDigit = false) : c ∉ twoDigits n := by
  intro hc
  rw [Decimal.isDigit_of_mem_leftpad hc] at h
  cases h

theorem notMem_yearDigits (year : Nat) (h : c.isDigit = false) (hplus : c ≠ '+') :
    c ∉ yearDigits year := by
  unfold yearDigits
  split
  · intro hc
    rw [Decimal.isDigit_of_mem_leftpad hc] at h
    cases h
  · rw [List.mem_cons, not_or]
    exact ⟨hplus, Decimal.notMem_toDigits year h⟩

/-- A date and a time of day are written with digits and four other characters. -/
theorem notMem_stamp (date : Date) (clock : Clock) (h : c.isDigit = false)
    (hc : c ∉ ['+', '-', ' ', ':']) : c ∉ stamp date clock := by
  simp only [List.mem_cons, List.not_mem_nil, or_false, not_or] at hc
  obtain ⟨hplus, hdash, hblank, hcolon⟩ := hc
  simp [stamp, dateDigits, clockDigits, notMem_twoDigits _ h, notMem_yearDigits _ h hplus, hdash,
    hblank, hcolon]

/-- An instant without blanks. -/
theorem blank_notMem_compact (seconds : Nat) : ' ' ∉ (compact seconds).toList := by
  have htwo (n : Nat) : ' ' ∉ twoDigits n := notMem_twoDigits n rfl
  have hyear (year : Nat) : ' ' ∉ yearDigits year := notMem_yearDigits year rfl (by decide)
  simp [compact, dateDigits, clockDigits, htwo, hyear]

end

/-! ## Texts determine what they hold -/

/-- A year holds no dash. -/
theorem IsYear.dash_notMem {text : List Char} {year : Nat} (h : IsYear text year) :
    '-' ∉ text := by
  intro hdash
  rcases h with ⟨-, hfilled⟩ | ⟨-, rfl⟩
  · exact absurd (hfilled.isDigit '-' hdash) (by decide)
  · rcases List.mem_cons.1 hdash with hplus | hdigits
    · exact absurd hplus (by decide)
    · exact Decimal.notMem_toDigits year rfl hdigits

/-- A year in four digits has no plus sign in front. -/
theorem not_isFilled_plus {ds : List Char} {width n : Nat} : ¬ IsFilled ('+' :: ds) width n :=
  fun h => absurd (h.isDigit '+' List.mem_cons_self) (by decide)

theorem IsYear.unique {text : List Char} {year year' : Nat} (h : IsYear text year)
    (h' : IsYear text year') : year = year' := by
  rcases h with ⟨-, hfilled⟩ | ⟨-, rfl⟩
  · rcases h' with ⟨-, hfilled'⟩ | ⟨-, rfl⟩
    · exact hfilled.value.symm.trans hfilled'.value
    · exact absurd hfilled not_isFilled_plus
  · rcases h' with ⟨-, hfilled'⟩ | ⟨-, he⟩
    · exact absurd hfilled' not_isFilled_plus
    · exact Decimal.toDigits_injective (List.cons.inj he).2

/-- A field of a given width can be told from what stands behind it. -/
theorem isFilled_append_inj {field field' rest rest' : List Char} {width n n' : Nat}
    (h : IsFilled field width n) (h' : IsFilled field' width n')
    (he : field ++ rest = field' ++ rest') : n = n' ∧ rest = rest' := by
  obtain ⟨rfl, hrest⟩ := List.append_inj he (h.length_eq.trans h'.length_eq.symm)
  exact ⟨h.value.symm.trans h'.value, hrest⟩

/-- **A text holds one date and one time of day.** -/
theorem IsStamp.unique {text : List Char} {date date' : Date} {clock clock' : Clock}
    (h : IsStamp text date clock) (h' : IsStamp text date' clock') :
    date = date' ∧ clock = clock' := by
  obtain ⟨year, month, day, hour, minute, second, rfl, hyear, hmonth, hday, hhour, hminute,
    hsecond⟩ := h
  obtain ⟨year', month', day', hour', minute', second', he, hyear', hmonth', hday', hhour',
    hminute', hsecond'⟩ := h'
  -- the year ends in front of the first dash
  obtain ⟨rfl, htail⟩ := Text.append_cons_inj hyear.dash_notMem hyear'.dash_notMem he
  -- and the other fields behind it have fixed widths
  obtain ⟨hmo, he⟩ := isFilled_append_inj hmonth hmonth' htail
  obtain ⟨hd, he⟩ := isFilled_append_inj hday hday' (List.cons.inj he).2
  obtain ⟨hh, he⟩ := isFilled_append_inj hhour hhour' (List.cons.inj he).2
  obtain ⟨hmi, he⟩ := isFilled_append_inj hminute hminute' (List.cons.inj he).2
  obtain ⟨hs, -⟩ := isFilled_append_inj hsecond hsecond' (List.cons.inj he).2
  constructor
  · rw [show date = ⟨date.year, date.month, date.day⟩ from rfl, hyear.unique hyear', hmo, hd]
  · rw [show clock = ⟨clock.hour, clock.minute, clock.second⟩ from rfl, hh, hmi, hs]

/-! ## Texts of instants -/

/-- An instant without a date is shown by its number. -/
theorem readable_of_lt {seconds : Nat} (h : last < seconds) :
    readable seconds = "invalid time (" ++ toString seconds ++ ")" :=
  if_neg (Nat.not_le.2 h)

/-- A date does not start like the text of an instant without one. -/
theorem IsStamp.head?_ne {text : List Char} {date : Date} {clock : Clock}
    (h : IsStamp text date clock) : text.head? ≠ some 'i' := by
  obtain ⟨year, month, day, hour, minute, second, rfl, ⟨-, hyear⟩ | ⟨-, rfl⟩, -⟩ := h
  · cases year with
    | nil => simp
    | cons c year =>
      have hdigit := hyear.isDigit c List.mem_cons_self
      rintro ⟨⟩
      exact absurd hdigit (by decide)
  · simp

/-- **No text is shown for two instants.** -/
theorem readable_injective {seconds seconds' : Nat} (h : readable seconds = readable seconds') :
    seconds = seconds' := by
  have mixed {seconds seconds' : Nat} (hle : seconds ≤ last) (hlt : last < seconds')
      (he : readable seconds = readable seconds') : False := by
    apply (isStamp_readable hle).head?_ne
    rw [he, readable_of_lt hlt]
    simp
  rcases Nat.lt_or_ge last seconds with hlt | hle
  · rcases Nat.lt_or_ge last seconds' with hlt' | hle'
    · -- both are shown by their numbers
      rw [readable_of_lt hlt, readable_of_lt hlt'] at h
      apply Decimal.toDigits_injective
      simpa [← String.toList_inj] using h
    · exact (mixed hle' hlt h.symm).elim
  · rcases Nat.lt_or_ge last seconds' with hlt' | hle'
    · exact (mixed hle hlt' h).elim
    · -- both have a date, and the text tells which
      have hstamp := isStamp_readable hle
      rw [h] at hstamp
      obtain ⟨hdate, hclock⟩ := hstamp.unique (isStamp_readable hle')
      rw [← secondsTo_date_clock seconds, hdate, hclock, secondsTo_date_clock]

/-- **The text of an instant names that instant.** Up to the last second of the year 262142 it is a
date of the calendar, from 1970 on, and a time of day, written as `Y-MM-DD hh:mm:ss UTC` with four
digits for the year up to 9999 and its digits behind a plus sign beyond; the seconds from the
beginning of 1970 to that date and time are those of the instant. A later instant is shown by its
number. Different instants have different texts. -/
theorem readable_names_instant (seconds : Nat) :
    ((seconds ≤ 8210266876799 ∧ ∃ date clock, IsStamp (readable seconds).toList date clock ∧
        1970 ≤ date.year ∧ date.IsValid ∧ clock.IsValid ∧ secondsTo date clock = seconds) ∨
      (8210266876799 < seconds ∧
        readable seconds = "invalid time (" ++ toString seconds ++ ")")) ∧
      ∀ other, readable other = readable seconds → other = seconds := by
  refine ⟨?_, fun other h => readable_injective h⟩
  rcases Nat.lt_or_ge last seconds with hlt | hle
  · exact .inr ⟨hlt, readable_of_lt hlt⟩
  · obtain ⟨hyear, hdate⟩ := date_isValid seconds
    exact .inl ⟨hle, _, _, isStamp_readable hle, hyear, hdate, clock_isValid seconds,
      secondsTo_date_clock seconds⟩

end Instant

end ChainBoard.Time
