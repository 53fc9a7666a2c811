/-!
# Whole numbers in groups of three digits

A whole number is shown with a comma between each group of three digits, counted from the right.
The commas are decided from the left: one follows a digit exactly when the number of digits still
to come is a positive multiple of three.

## Main definitions

* `group`: puts the commas between digits
* `grouped`: the text of a number

## Main results

* `filter_group`: taking the commas out gives the digits back
-/

namespace ChainBoard.Decimal

/-- A comma follows a digit exactly when a positive multiple of three digits is still to come. -/
def group : List Char → List Char
  | [] => []
  | d :: ds =>
    if ds.length % 3 = 0 ∧ ds ≠ [] then d :: ',' :: group ds else d :: group ds

/-- The decimal digits of `n`, with a comma between groups of three. -/
def grouped (n : Nat) : List Char :=
  group (Nat.toDigits 10 n)

/-- Taking the commas out of a grouped text gives its digits back. -/
theorem filter_group (ds : List Char) (h : ∀ d ∈ ds, d ≠ ',') :
    (group ds).filter (· ≠ ',') = ds := by
  induction ds with
  | nil => rfl
  | cons d ds ih =>
    have hd : d ≠ ',' := h d (by simp)
    have ih := ih fun c hc => h c (by simp [hc])
    unfold group
    split <;> simp_all

end ChainBoard.Decimal
