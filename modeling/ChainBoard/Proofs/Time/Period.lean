import Mathlib.Algebra.GroupWithZero.Nat
import ChainBoard.Proofs.Decimal.Digits
import ChainBoard.Time.Period

/-!
# Periods can be read back

The text of a period that is not empty names days, hours, minutes and seconds, the longest unit
first and each at most once, and what it names makes up the period. No more of a unit is named than
does not fill the next longer one, and nothing is named of which there is none. Each number ends at
its letter, so that a text names one period only.

## Main definitions

* `Period.Measure`: days, hours, minutes and seconds
* `Period.Part`: a number of a measure
* `Period.Names`: a text names a period by its parts

## Main results

* `Period.flatMap_text_injective`: a text has one way to be cut into parts
* `Period.names_readable`: the text of a period names it
* `Period.Names.unique`: a text names one period
-/

namespace ChainBoard.Time.Period

/-- What a period is measured in. -/
inductive Measure where
  | day
  | hour
  | minute
  | second
  deriving DecidableEq, Repr

namespace Measure

/-- The measures, the longest first. -/
def all : List Measure := [day, hour, minute, second]

/-- The letter of a measure. -/
def letter : Measure → Char
  | day => 'd'
  | hour => 'h'
  | minute => 'm'
  | second => 's'

/-- The seconds of a measure. -/
def seconds : Measure → Nat
  | day => 86400
  | hour => 3600
  | minute => 60
  | second => 1

/-- How many of a measure make up the next longer one, if there is one. -/
def limit? : Measure → Option Nat
  | day => none
  | hour => some 24
  | minute => some 60
  | second => some 60

theorem letter_injective {a b : Measure} (h : a.letter = b.letter) : a = b := by
  revert h
  cases a <;> cases b <;> decide

theorem isDigit_letter (a : Measure) : a.letter.isDigit = false := by
  cases a <;> rfl

end Measure

/-- A number of a measure. -/
@[ext]
structure Part where
  number : Nat
  measure : Measure
  deriving DecidableEq, Repr

namespace Part

/-- A part is written as its number in decimal and the letter of its measure. -/
def text (part : Part) : List Char :=
  Nat.toDigits 10 part.number ++ [part.measure.letter]

/-- The seconds of a part. -/
def seconds (part : Part) : Nat :=
  part.number * part.measure.seconds

end Part

/-- The text names a period: it consists of parts, the longest measure first, each with a positive
number that does not fill the next longer measure, and they make up the period. -/
def Names (text : List Char) (seconds : Nat) : Prop :=
  ∃ parts : List Part, text = parts.flatMap Part.text ∧ parts ≠ [] ∧
    (parts.map Part.measure).Sublist Measure.all ∧
    (∀ part ∈ parts, 0 < part.number ∧ ∀ limit ∈ part.measure.limit?, part.number < limit) ∧
    (parts.map Part.seconds).sum = seconds

/-! ## Reading a text -/

/-- A number ends at the letter behind it. -/
theorem text_append_inj {part part' : Part} {rest rest' : List Char}
    (h : part.text ++ rest = part'.text ++ rest') : part = part' ∧ rest = rest' := by
  have htake (part : Part) (rest : List Char) :
      (part.text ++ rest).takeWhile Char.isDigit = Nat.toDigits 10 part.number := by
    rw [Part.text, List.append_assoc,
      List.takeWhile_append_of_pos fun c hc => Decimal.isDigit_of_mem_toDigits hc,
      List.singleton_append, List.takeWhile_cons, part.measure.isDigit_letter, if_neg (by decide),
      List.append_nil]
  have hnumber : part.number = part'.number := by
    apply Decimal.toDigits_injective
    rw [← htake part rest, ← htake part' rest', h]
  rw [Part.text, Part.text, hnumber, List.append_assoc, List.append_assoc] at h
  have hrest := List.append_cancel_left h
  rw [List.singleton_append, List.singleton_append, List.cons.injEq] at hrest
  exact ⟨Part.ext hnumber (Measure.letter_injective hrest.1), hrest.2⟩

theorem text_ne_nil (part : Part) : part.text ≠ [] := by
  simp [Part.text]

/-- **There is one way to cut a text into parts.** -/
theorem flatMap_text_injective {parts parts' : List Part}
    (h : parts.flatMap Part.text = parts'.flatMap Part.text) : parts = parts' := by
  -- Induction on the parts: the first of both lists are the same.
  induction parts generalizing parts' with
  | nil =>
    cases parts' with
    | nil => rfl
    | cons part' parts' => simp [text_ne_nil] at h
  | cons part parts ih =>
    cases parts' with
    | nil => simp [text_ne_nil] at h
    | cons part' parts' =>
      rw [List.flatMap_cons, List.flatMap_cons] at h
      obtain ⟨rfl, hrest⟩ := text_append_inj h
      rw [ih hrest]

/-- **A text names one period.** -/
theorem Names.unique {text : List Char} {seconds seconds' : Nat} (h : Names text seconds)
    (h' : Names text seconds') : seconds = seconds' := by
  obtain ⟨parts, rfl, -, -, -, rfl⟩ := h
  obtain ⟨parts', htext, -, -, -, rfl⟩ := h'
  rw [flatMap_text_injective htext]

/-! ## The text of a period -/

/-- How much of each measure a period holds. -/
def amounts (seconds : Nat) : List Part :=
  [⟨seconds / 86400, .day⟩, ⟨seconds / 3600 % 24, .hour⟩, ⟨seconds / 60 % 60, .minute⟩,
    ⟨seconds % 60, .second⟩]

/-- The amounts that are not zero. -/
def shown (parts : List Part) : List Part :=
  parts.filter (0 < ·.number)

theorem part_eq (p : Part) :
    part (p.number, p.measure.letter) = if 0 < p.number then p.text else [] := by
  obtain ⟨number, measure⟩ := p
  cases number <;> rfl

/-- A part of which there is none is not written. -/
theorem flatMap_shown (ps : List Part) :
    (shown ps).flatMap Part.text = ps.flatMap fun p => part (p.number, p.measure.letter) := by
  induction ps with
  | nil => rfl
  | cons p ps ih =>
    rw [shown] at ih
    rw [shown, List.filter_cons, List.flatMap_cons, part_eq, ← ih]
    by_cases hpos : 0 < p.number <;> simp [hpos]

/-- A part of which there is none makes up nothing. -/
theorem sum_shown (ps : List Part) :
    ((shown ps).map Part.seconds).sum = (ps.map Part.seconds).sum := by
  induction ps with
  | nil => rfl
  | cons p ps ih =>
    rw [shown] at ih
    rw [shown, List.filter_cons, List.map_cons, List.sum_cons, ← ih]
    by_cases hpos : 0 < p.number
    · simp [hpos]
    · have hzero : p.number = 0 := by omega
      simp [hzero, Part.seconds]

theorem sum_amounts (seconds : Nat) : ((amounts seconds).map Part.seconds).sum = seconds := by
  simp only [amounts, List.map_cons, List.map_nil, List.sum_cons, List.sum_nil, Part.seconds,
    Measure.seconds]
  omega

/-- No amount fills the next longer measure. -/
theorem lt_limit_of_mem_amounts {seconds : Nat} {p : Part} (h : p ∈ amounts seconds) :
    ∀ limit ∈ p.measure.limit?, p.number < limit := by
  simp only [amounts, List.mem_cons, List.not_mem_nil, or_false] at h
  rcases h with rfl | rfl | rfl | rfl
  · rintro limit ⟨⟩
  all_goals
    rintro limit ⟨⟩
    exact Nat.mod_lt _ (by decide)

/-- **The text of a period names it.** -/
theorem names_readable {seconds : Nat} (h : 0 < seconds) :
    Names (readable seconds).toList seconds := by
  have hsum : ((shown (amounts seconds)).map Part.seconds).sum = seconds := by
    rw [sum_shown, sum_amounts]
  refine ⟨shown (amounts seconds), ?_, ?_, ?_, ?_, hsum⟩
  · rw [flatMap_shown, readable, if_neg (by omega), String.toList_ofList]
    rfl
  · -- without parts there would be no seconds
    intro hnil
    rw [hnil] at hsum
    exact absurd hsum (by simpa using Nat.ne_of_lt h)
  · exact List.filter_sublist.map Part.measure
  · intro p hp
    obtain ⟨hmem, hpos⟩ := List.mem_filter.1 hp
    exact ⟨of_decide_eq_true hpos, lt_limit_of_mem_amounts hmem⟩

/-- The text of a period is one line. -/
theorem newline_notMem_readable (seconds : Nat) : '\n' ∉ (readable seconds).toList := by
  by_cases h : seconds = 0
  · subst h
    decide
  · obtain ⟨parts, htext, -⟩ := names_readable (Nat.pos_of_ne_zero h)
    rw [htext, List.mem_flatMap]
    rintro ⟨p, -, hmem⟩
    rw [Part.text, List.mem_append, List.mem_singleton] at hmem
    rcases hmem with hdigit | hletter
    · exact Decimal.notMem_toDigits p.number rfl hdigit
    · revert hletter
      cases p.measure <;> decide

/-- Minutes of which there are none are left out. -/
example : readable 90001 = "1d1h1s" := by decide

end ChainBoard.Time.Period
