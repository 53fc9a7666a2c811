/-!
# Texts without what stands at their ends

The zeros at the end of a decimal fraction carry no value, and the slashes at the end of an address
carry no meaning. Both are taken off in the same way. Of the parts of a list, white space is taken
off at both ends.

## Main definitions

* `trimEnd c s`: `s` without the repetitions of `c` at its end
* `isWhite`, `trim s`: `s` without white space at its ends

## Main results

* `trimEnd_append_self`: what is taken off is a number of `c`s
* `getLast?_trimEnd_ne`: what is left does not end with `c`
* `trimEnd_append_replicate`: more `c`s at the end change nothing
-/

namespace ChainBoard.Text

/-- The ranges of the code points that are white space. -/
def whiteRanges : List (Nat × Nat) := [
  (0x09, 0x0D), (0x20, 0x20), (0x85, 0x85), (0xA0, 0xA0), (0x1680, 0x1680), (0x2000, 0x200A),
  (0x2028, 0x2029), (0x202F, 0x202F), (0x205F, 0x205F), (0x3000, 0x3000)
]

/-- Whether a character is white space. -/
def isWhite (c : Char) : Bool :=
  whiteRanges.any fun range => range.1 ≤ c.toNat && c.toNat ≤ range.2

/-- The text without white space at its ends. -/
def trim (s : List Char) : List Char :=
  ((s.dropWhile isWhite).reverse.dropWhile isWhite).reverse

/-- The text without the repetitions of `c` at its end. -/
def trimEnd (c : Char) : List Char → List Char
  | [] => []
  | a :: s =>
    match trimEnd c s with
    | [] => if a = c then [] else [a]
    | kept => a :: kept

theorem trimEnd_cons (c a : Char) (s : List Char) :
    trimEnd c (a :: s) = if trimEnd c s = [] ∧ a = c then [] else a :: trimEnd c s := by
  rw [trimEnd]
  split <;> simp_all

/-- The text is what is left, and a number of `c`s behind it. -/
theorem trimEnd_append_self (c : Char) (s : List Char) :
    ∃ k, s = trimEnd c s ++ List.replicate k c := by
  induction s with
  | nil => exact ⟨0, rfl⟩
  | cons a s ih =>
    obtain ⟨k, hk⟩ := ih
    rw [trimEnd_cons]
    split
    · rename_i h
      rw [h.1, List.nil_append] at hk
      exact ⟨k + 1, by rw [List.nil_append, List.replicate_succ, h.2, ← hk]⟩
    · exact ⟨k, by rw [List.cons_append, ← hk]⟩

/-- Nothing is left that was not there. -/
theorem mem_of_mem_trimEnd {c a : Char} {s : List Char} (h : a ∈ trimEnd c s) : a ∈ s := by
  obtain ⟨k, hk⟩ := trimEnd_append_self c s
  rw [hk]
  exact List.mem_append_left _ h

/-- What is left does not end with `c`. -/
theorem getLast?_trimEnd_ne (c : Char) (s : List Char) : (trimEnd c s).getLast? ≠ some c := by
  induction s with
  | nil => simp [trimEnd]
  | cons a s ih =>
    rw [trimEnd_cons]
    split
    · simp
    · rename_i h
      cases hs : trimEnd c s with
      | nil => simpa [hs] using h
      | cons b t =>
        rw [hs] at ih
        rwa [List.getLast?_cons_cons]

@[simp] theorem trimEnd_replicate (c : Char) (k : Nat) : trimEnd c (List.replicate k c) = [] := by
  induction k with
  | zero => rfl
  | succ k ih => simp [List.replicate_succ, trimEnd_cons, ih]

/-- More repetitions at the end change nothing. -/
theorem trimEnd_append_replicate (c : Char) (s : List Char) (k : Nat) :
    trimEnd c (s ++ List.replicate k c) = trimEnd c s := by
  induction s with
  | nil => simp [trimEnd]
  | cons a s ih => simp [trimEnd_cons, ih]

end ChainBoard.Text
