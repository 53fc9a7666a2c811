import Mathlib.Data.List.TakeWhile
import ChainBoard.Proofs.Json.Grammar

/-!
# White space and words

White space never decides anything: it may be put in front of a reader that skips it. Fixed words
are read exactly where they stand.

## Main results

* `exists_skipBlank`: what is skipped is white space
* `skipBlank_append`: white space in front makes no difference
* `readWord_eq_ok_iff`: a word is read exactly where it stands
-/

namespace ChainBoard.Json

/-! ## White space -/

theorem isBlank_iff {c : Char} :
    isBlank c = true ↔ c = ' ' ∨ c = '\t' ∨ c = '\n' ∨ c = '\r' := by
  simp only [isBlank, Bool.or_eq_true, decide_eq_true_eq]
  grind

theorem Blank.nil : Blank [] := by
  intro c hc
  cases hc

theorem Blank.append {w w' : List Char} (h : Blank w) (h' : Blank w') : Blank (w ++ w') := by
  intro c hc
  rcases List.mem_append.1 hc with hc | hc
  · exact h c hc
  · exact h' c hc

/-- What is skipped is white space. -/
theorem exists_skipBlank (s : List Char) : ∃ w, s = w ++ skipBlank s ∧ Blank w := by
  refine ⟨s.takeWhile isBlank, List.takeWhile_append_dropWhile.symm, ?_⟩
  intro c hc
  exact isBlank_iff.1 (List.mem_takeWhile_imp hc)

/-- White space in front makes no difference to what is left behind white space. -/
theorem skipBlank_append {w : List Char} (h : Blank w) (s : List Char) :
    skipBlank (w ++ s) = skipBlank s :=
  List.dropWhile_append_of_pos fun c hc => isBlank_iff.2 (h c hc)

theorem skipBlank_of_blank {w : List Char} (h : Blank w) : skipBlank w = [] := by
  have := skipBlank_append h []
  rwa [List.append_nil] at this

theorem skipBlank_cons {c : Char} (h : isBlank c = false) (s : List Char) :
    skipBlank (c :: s) = c :: s := by
  simp [skipBlank, h]

/-- Nothing is left behind white space only if there is nothing else. -/
theorem skipBlank_eq_nil_iff {s : List Char} : skipBlank s = [] ↔ Blank s := by
  constructor
  · intro h
    obtain ⟨w, hs, hw⟩ := exists_skipBlank s
    rw [h, List.append_nil] at hs
    rwa [hs]
  · exact skipBlank_of_blank

/-- What is found behind white space stands behind white space. -/
theorem exists_of_skipBlank_eq {s t : List Char} (h : skipBlank s = t) :
    ∃ w, s = w ++ t ∧ Blank w :=
  h ▸ exists_skipBlank s

/-! ## Words -/

/-- A word is read exactly where it stands. -/
theorem readWord_eq_ok_iff {word s rest : List Char} :
    readWord word s = .ok rest ↔ s = word ++ rest := by
  induction word generalizing s with
  | nil => simp [readWord]
  | cons w word ih =>
    cases s with
    | nil => simp [readWord]
    | cons c s =>
      rw [readWord]
      split
      · -- the first letters agree, the others by induction
        rename_i hc
        rw [ih, hc]
        simp
      · -- the first letters differ: the word does not stand there
        rename_i hc
        simp [hc]

end ChainBoard.Json
