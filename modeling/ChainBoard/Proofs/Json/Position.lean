import Mathlib.Data.List.DropRight
import ChainBoard.Proofs.Json.Extent

/-!
# Places as numbers of bytes

A place names a line and a column. The bytes in front of the line and the bytes of the column
together are the bytes in front of the place, so that a place can be read as a position among the
bytes of a text. The place behind a number of bytes has this number as its position, and so the
place of a stop is behind all bytes but those that were left. If they are whole characters, the place is
that behind the text in front of them, whatever the text is that was left: the line is told by its
line feeds, and the column by its bytes behind the last of them.

## Main definitions

* `Place.lineStart`: the bytes in front of a line
* `Place.offset`: the bytes in front of a place
* `Place.behind`: the place behind a text

## Main results

* `Place.offset_after`: the place behind a number of bytes
* `Stop.offset_place`: the place of a stop
* `Place.after_append`: the place behind the start of a text
* `Stop.refusal_before`: the refusal in front of what was left
-/

namespace ChainBoard.Json

open Text.Utf8 (byteSize)

namespace Place

/-- The bytes of a text up to the end of its first `n` lines, where line `n + 1` starts. -/
def lineStart : List Char → Nat → Nat
  | _, 0 => 0
  | [], _ + 1 => 0
  | c :: s, n + 1 => c.utf8Size + lineStart s (if c = '\n' then n else n + 1)

/-- The bytes of a text in front of a place. -/
def offset (text : List Char) (place : Place) : Nat :=
  lineStart text (place.line - 1) + place.column

@[simp] theorem lineStart_zero (s : List Char) : lineStart s 0 = 0 := by
  cases s <;> rfl

theorem advance_zero (place : Place) (s : List Char) : place.advance s 0 = place := by
  cases s <;> rfl

theorem advance_newline {count : Nat} (h : count ≠ 0) (line column : Nat) (s : List Char) :
    advance ⟨line, column⟩ ('\n' :: s) count = advance ⟨line + 1, 0⟩ s (count - 1) := by
  rw [advance, if_neg h, if_pos rfl]

theorem advance_of_ne {count : Nat} {c : Char} (h : count ≠ 0) (hc : c ≠ '\n')
    (line column : Nat) (s : List Char) :
    advance ⟨line, column⟩ (c :: s) count =
      advance ⟨line, column + min count c.utf8Size⟩ s (count - c.utf8Size) := by
  rw [advance, if_neg h, if_neg hc]

/-- Where reading on leads: to the end of so many lines more, and to a column that is counted from
there, or from the old column if it is the same line. -/
theorem advance_spec {s : List Char} {count : Nat} (h : count ≤ byteSize s) (line column : Nat) :
    ∃ k, (advance ⟨line, column⟩ s count).line = line + k ∧
      lineStart s k + (advance ⟨line, column⟩ s count).column =
        (if k = 0 then column else 0) + count := by
  induction s generalizing count line column with
  | nil =>
    obtain rfl : count = 0 := Nat.le_zero.1 h
    exact ⟨0, rfl, by simp [advance]⟩
  | cons c s ih =>
    rw [Text.Utf8.byteSize_cons] at h
    by_cases hzero : count = 0
    · subst hzero
      exact ⟨0, rfl, by simp [advance]⟩
    by_cases hfeed : c = '\n'
    · -- the line ends, and the column starts again
      subst hfeed
      have hsize : '\n'.utf8Size = 1 := rfl
      have hle : count - 1 ≤ byteSize s := by omega
      obtain ⟨k, hline, hcolumn⟩ := ih hle (line + 1) 0
      rw [ite_self, Nat.zero_add] at hcolumn
      rw [advance_newline hzero]
      refine ⟨k + 1, by omega, ?_⟩
      rw [lineStart, if_pos rfl, if_neg (Nat.succ_ne_zero k)]
      omega
    · rw [advance_of_ne hzero hfeed]
      by_cases hinside : count ≤ c.utf8Size
      · -- the character is the last that is read, or only its first bytes are
        rw [Nat.sub_eq_zero_of_le hinside, advance_zero, Nat.min_eq_left hinside]
        exact ⟨0, rfl, by simp⟩
      · rw [Nat.min_eq_right (by omega)]
        have hle : count - c.utf8Size ≤ byteSize s := by omega
        obtain ⟨k, hline, hcolumn⟩ := ih hle line (column + c.utf8Size)
        refine ⟨k, hline, ?_⟩
        cases k with
        | zero =>
          simp only [lineStart_zero, if_true] at hcolumn ⊢
          omega
        | succ k =>
          rw [if_neg (Nat.succ_ne_zero k)] at hcolumn ⊢
          rw [lineStart, if_neg hfeed]
          omega

/-- **The place behind a number of bytes has them in front of it.** -/
theorem offset_after {text : List Char} {count : Nat} (h : count ≤ byteSize text) :
    (after text count).offset text = count := by
  obtain ⟨k, hline, hcolumn⟩ := advance_spec h 1 0
  rw [ite_self, Nat.zero_add] at hcolumn
  have hfirst : (after text count).line - 1 = k := by
    show (start.advance text count).line - 1 = k
    rw [start, hline]
    exact Nat.add_sub_cancel_left 1 k
  rw [offset, hfirst]
  exact hcolumn

/-! ## The place behind the start of a text -/

/-- The place behind a text: one line more than the text has line feeds, and the bytes behind the
last of them. -/
def behind (front : List Char) : Place where
  line := front.count '\n' + 1
  column := byteSize (front.rtakeWhile (· ≠ '\n'))

theorem behind_newline (front : List Char) :
    behind (front ++ ['\n']) = ⟨(behind front).line + 1, 0⟩ := by
  simp [behind]

theorem behind_of_ne {c : Char} (hc : c ≠ '\n') (front : List Char) :
    behind (front ++ [c]) = ⟨(behind front).line, (behind front).column + c.utf8Size⟩ := by
  simp [behind, hc]

/-- A text is read in two parts. -/
theorem advance_append (place : Place) (s t : List Char) (count : Nat) :
    place.advance (s ++ t) (byteSize s + count) =
      (place.advance s (byteSize s)).advance t count := by
  induction s generalizing place with
  | nil => simp [advance]
  | cons c s ih =>
    have hpos : 0 < c.utf8Size := Char.utf8Size_pos c
    obtain ⟨line, column⟩ := place
    rw [List.cons_append, Text.Utf8.byteSize_cons, Nat.add_assoc]
    -- the first character is passed as a whole, with or without the text behind
    by_cases hfeed : c = '\n'
    · subst hfeed
      have hsize : '\n'.utf8Size = 1 := rfl
      rw [advance_newline (by omega), advance_newline (by omega), hsize, Nat.add_sub_cancel_left,
        Nat.add_sub_cancel_left]
      exact ih _
    · rw [advance_of_ne (by omega) hfeed, advance_of_ne (by omega) hfeed, Nat.add_sub_cancel_left,
        Nat.add_sub_cancel_left, Nat.min_eq_right (by omega), Nat.min_eq_right (by omega)]
      exact ih _

/-- Reading a whole text leads to the place behind it, by induction on its last character. -/
theorem after_self (front : List Char) : after front (byteSize front) = behind front := by
  induction front using List.reverseRecOn with
  | nil => rfl
  | append_singleton front c ih =>
    have hpos : 0 < c.utf8Size := Char.utf8Size_pos c
    have hstep : after (front ++ [c]) (byteSize (front ++ [c])) =
        (behind front).advance [c] c.utf8Size := by
      rw [Text.Utf8.byteSize_append, Text.Utf8.byteSize_cons, Text.Utf8.byteSize_nil, Nat.add_zero,
        after, advance_append]
      exact congrArg (advance · [c] c.utf8Size) ih
    by_cases hfeed : c = '\n'
    · subst hfeed
      rw [hstep, behind_newline, advance_newline (by decide)]
      rfl
    · rw [hstep, behind_of_ne hfeed, advance_of_ne (by omega) hfeed, Nat.min_self, Nat.sub_self]
      rfl

/-- **The place behind the start of a text does not depend on what follows.** -/
theorem after_append (front rest : List Char) :
    after (front ++ rest) (byteSize front) = behind front := by
  rw [after, ← Nat.add_zero (byteSize front), advance_append, advance_zero]
  exact after_self front

end Place

/-- The place of a stop is behind all bytes but those that were left. -/
theorem Stop.offset_place {stop : Stop} {text : List Char} (h : stop.left ≤ byteSize text) :
    (stop.place text).offset text + stop.left = byteSize text := by
  rw [Stop.place, Place.offset_after (Nat.sub_le _ _)]
  exact Nat.sub_add_cancel h

/-- A stop in front of what was left is placed behind the text that has been read. -/
theorem Stop.refusal_before (cause : Cause) (front rest : List Char) :
    (Stop.before cause rest).refusal (front ++ rest) = ⟨cause, some (Place.behind front)⟩ := by
  have hplace : (Stop.before cause rest).place (front ++ rest) = Place.behind front := by
    rw [Stop.place, Stop.before, Text.Utf8.byteSize_append, Nat.add_sub_cancel]
    exact Place.after_append front rest
  rw [Stop.refusal, hplace]
  rfl

end ChainBoard.Json
