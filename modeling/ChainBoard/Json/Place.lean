import ChainBoard.Json.Fault
import ChainBoard.Text.Utf8

/-!
# Where a text is refused

A refusal names a place: the line and the column that a reader has reached. Lines count from one and
end with a line feed. Columns count bytes, so that a place may lie inside a character.

## Main definitions

* `Place.after`: the place behind a number of bytes
* `Refusal`: a cause, and a place unless the cause has none
* `Refusal.message`: the wording of a refusal
-/

namespace ChainBoard.Json

/-- A line, counted from one, and the number of bytes read of it. -/
structure Place where
  line : Nat
  column : Nat
  deriving DecidableEq, Repr

namespace Place

/-- The start of a text. -/
def start : Place := ⟨1, 0⟩

/-- The place that is reached from `place` by reading `count` bytes of a text. -/
def advance (place : Place) : List Char → Nat → Place
  | [], _ => place
  | c :: s, count =>
    if count = 0 then place
    else if c = '\n' then advance ⟨place.line + 1, 0⟩ s (count - 1)
    else advance ⟨place.line, place.column + min count c.utf8Size⟩ s (count - c.utf8Size)

/-- The place behind the first `count` bytes of a text. -/
def after (text : List Char) (count : Nat) : Place :=
  start.advance text count

/-- A place in a message. -/
def describe (place : Place) : String :=
  " at line " ++ toString place.line ++ " column " ++ toString place.column

end Place

/-- Why a text is refused, and where. -/
structure Refusal where
  cause : Cause
  place? : Option Place
  deriving DecidableEq, Repr

/-- The wording of a refusal: its cause and, if it has one, its place. -/
def Refusal.message (refusal : Refusal) : String :=
  refusal.cause.message ++ (refusal.place?.map Place.describe).getD ""

end ChainBoard.Json
