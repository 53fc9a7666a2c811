import ChainBoard.Json.Place

/-!
# Readers

A reader takes the text in front of it and gives a value and the text behind the value. When it
stops it says why and how many bytes it left unread. A reader therefore does not depend on what was
read before it; the place of a stop follows from the whole text.

There are two ways to stop: before the next byte, or on it, when the byte itself is at fault. At the
end of the input both are the same.

## Main definitions

* `Stop`: why a reader stops, and how much it left
* `Stop.before`, `Stop.on`: the two ways to stop
* `Stop.refusal`: the refusal of a whole text
* `skipBlank`: the text behind white space
* `readWord`: reads a fixed word
-/

namespace ChainBoard.Json

/-- Why a reader stops, and the number of bytes that it left unread. -/
structure Stop where
  cause : Cause
  left : Nat
  deriving DecidableEq, Repr

namespace Stop

/-- Stops in front of the text that is left. -/
def before (cause : Cause) (rest : List Char) : Stop :=
  ⟨cause, Text.Utf8.byteSize rest⟩

/-- Stops on the first byte of the text that is left. -/
def on (cause : Cause) (rest : List Char) : Stop :=
  ⟨cause, Text.Utf8.byteSize rest - 1⟩

/-- The place in a whole text at which a reader stops. -/
def place (stop : Stop) (text : List Char) : Place :=
  Place.after text (Text.Utf8.byteSize text - stop.left)

/-- The refusal of a whole text. -/
def refusal (stop : Stop) (text : List Char) : Refusal :=
  ⟨stop.cause, some (stop.place text)⟩

end Stop

/-- White space between the parts of a text. -/
def isBlank (c : Char) : Bool :=
  c = ' ' || c = '\n' || c = '\t' || c = '\r'

/-- The text behind white space. -/
def skipBlank (s : List Char) : List Char :=
  s.dropWhile isBlank

/-- The text behind a fixed word. -/
def readWord : List Char → List Char → Except Stop (List Char)
  | [], s => .ok s
  | _ :: _, [] => .error (Stop.before .endInValue [])
  | w :: ws, c :: s => if c = w then readWord ws s else .error (Stop.on .expectedWord (c :: s))

/-- A mapped result is a value only if the result is. -/
theorem map_eq_ok_iff {ε α β : Type} {f : α → β} {x : Except ε α} {b : β} :
    x.map f = .ok b ↔ ∃ a, x = .ok a ∧ f a = b := by
  cases x <;> simp [Except.map]

/-- A sequence of two readers gives a value only if both do. -/
theorem bind_eq_ok_iff {ε α β : Type} {f : α → Except ε β} {x : Except ε α} {b : β} :
    x >>= f = .ok b ↔ ∃ a, x = .ok a ∧ f a = .ok b := by
  cases x <;> simp [bind, Except.bind]

/-- Renaming the faults of a result leaves its values alone. -/
theorem mapError_eq_ok_iff {ε ε' α : Type} {f : ε → ε'} {x : Except ε α} {a : α} :
    x.mapError f = .ok a ↔ x = .ok a := by
  cases x with
  | error fault =>
    show (Except.error (f fault) : Except ε' α) = .ok a ↔ Except.error fault = .ok a
    simp
  | ok b =>
    show (Except.ok b : Except ε' α) = .ok a ↔ (Except.ok b : Except ε α) = .ok a
    simp

theorem length_skipBlank_le (s : List Char) : (skipBlank s).length ≤ s.length :=
  (List.dropWhile_suffix isBlank).length_le

theorem length_readWord_le {word s rest : List Char} (h : readWord word s = .ok rest) :
    rest.length ≤ s.length := by
  fun_induction readWord word s with
  | case1 => simp_all
  | case2 => simp at h
  | case3 w ws s ih => have := ih h; simp; omega
  | case4 => simp at h

end ChainBoard.Json
