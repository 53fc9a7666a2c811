/-!
# Texts fitted to a column

A text is first cut to a greatest number of characters and then filled up with spaces to the width
of its column. Centred text takes the smaller half of the spaces in front, so that an odd space goes
behind it. A text stands at the left where no other place is asked for.

## Main definitions

* `Alignment`: where the text stands in its column
* `Alignment.before`: the spaces in front of the text
* `Alignment.fit`: the text cut and filled up
-/

namespace ChainBoard.Text

/-- Where a text stands in its column. -/
inductive Alignment where
  | left
  | centre
  | right
  deriving DecidableEq, Repr

namespace Alignment

/-- A text stands at the left where no other place is asked for. -/
instance : Inhabited Alignment := ⟨left⟩

/-- Of `spaces` spaces in all, those that stand in front of the text. -/
def before : Alignment → Nat → Nat
  | left, _ => 0
  | centre, spaces => spaces / 2
  | right, spaces => spaces

/-- The text cut to at most `most?` characters, then filled up with spaces to `width`. -/
def fit (align : Alignment) (width : Nat) (most? : Option Nat) (s : List Char) : List Char :=
  let cut := match most? with
    | none => s
    | some most => s.take most
  let spaces := width - cut.length
  let front := align.before spaces
  List.replicate front ' ' ++ cut ++ List.replicate (spaces - front) ' '

theorem before_le (align : Alignment) (spaces : Nat) : align.before spaces ≤ spaces := by
  cases align with
  | left => exact Nat.zero_le spaces
  | centre => exact Nat.div_le_self spaces 2
  | right => exact Nat.le_refl spaces

end Alignment

end ChainBoard.Text
