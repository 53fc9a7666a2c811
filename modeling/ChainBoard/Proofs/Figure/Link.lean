import ChainBoard.Figure.Link
import ChainBoard.Proofs.Decimal.Digits

/-!
# The link to a block names its height twice

The link to a block shows its height in groups of three digits and has the plain digits at the end
of its target. They are the same digits: without its commas the text is what the target ends with.
So either of the two tells which height it is, and no two blocks share a text or a target.

## Main definitions

* `Link.NamesHeight`: how a link names a height

## Main results

* `Link.NamesHeight.height_eq_of_text`, `Link.NamesHeight.height_eq_of_target`: text and target
  each tell the height
* `Link.toBlock_names_height`: the link to a block names the height of the block and no other
-/

namespace ChainBoard.Link

open Decimal (InGroups)

/-- A link that names a height by its digits. In the text they stand in groups of three, in the
target behind what all links to blocks start with. -/
structure NamesHeight (text target : String) (height : Nat) (digits : List Char) : Prop where
  isDigit : ∀ d ∈ digits, d.isDigit = true
  value : Nat.ofDigitChars 10 digits 0 = height
  /-- There is no zero in front but that of the height zero. -/
  eq_zero_of_head? : text.toList.head? = some '0' → height = 0
  text_inGroups : InGroups digits text.toList
  text_filter : text.toList.filter (· ≠ ',') = digits
  target_eq : target = "block.html?height=" ++ String.ofList digits

namespace NamesHeight

variable {text text' target target' : String} {height height' : Nat} {digits digits' : List Char}

theorem height_eq_of_digits (h : NamesHeight text target height digits)
    (h' : NamesHeight text' target' height' digits) : height = height' := by
  rw [← h.value, h'.value]

/-- The text tells the height: it holds the digits between its commas. -/
theorem height_eq_of_text (h : NamesHeight text target height digits)
    (h' : NamesHeight text target' height' digits') : height = height' := by
  obtain rfl : digits = digits' := h.text_filter.symm.trans h'.text_filter
  exact h.height_eq_of_digits h'

/-- The target tells the height: it ends with the digits. -/
theorem height_eq_of_target (h : NamesHeight text target height digits)
    (h' : NamesHeight text' target height' digits') : height = height' := by
  have htarget := congrArg String.toList (h.target_eq.symm.trans h'.target_eq)
  simp only [String.toList_append, String.toList_ofList] at htarget
  obtain rfl : digits = digits' := List.append_cancel_left htarget
  exact h.height_eq_of_digits h'

end NamesHeight

/-- The link to a block names the height of the block. -/
theorem exists_namesHeight (height : Nat) :
    ∃ text target digits, toBlock height = .link text target ∧
      NamesHeight text target height digits := by
  obtain ⟨hgroups, hhead⟩ := Decimal.isGrouped_grouped height
  refine ⟨_, _, Nat.toDigits 10 height, rfl, ?_⟩
  exact {
    isDigit := fun _ => Decimal.isDigit_of_mem_toDigits
    value := Nat.ofDigitChars_ten_toDigits
    eq_zero_of_head? := by rwa [String.toList_ofList]
    text_inGroups := by rwa [String.toList_ofList]
    text_filter := by rw [String.toList_ofList, Decimal.filter_grouped]
    target_eq := by rw [Nat.toString_eq_ofList_toDigits] }

/-- **The link to a block names its height twice.** The text is the height in groups of three
digits, the target ends with the same digits, and both are those of no other height: a block with
the same text, or with the same target, is at the same height. -/
theorem toBlock_names_height (height : Nat) :
    ∃ text target digits, toBlock height = .link text target ∧
      NamesHeight text target height digits ∧
      ∀ height' text' target', toBlock height' = .link text' target' →
        (text' = text ↔ height' = height) ∧ (target' = target ↔ height' = height) := by
  obtain ⟨text, target, digits, hlink, hnames⟩ := exists_namesHeight height
  refine ⟨text, target, digits, hlink, hnames, ?_⟩
  intro height' text' target' hlink'
  obtain ⟨_, _, digits', heq, hnames'⟩ := exists_namesHeight height'
  obtain ⟨rfl, rfl⟩ := Content.link.inj (hlink'.symm.trans heq)
  -- one height has one link
  have hsame : height' = height → text' = text ∧ target' = target := by
    rintro rfl
    exact Content.link.inj (hlink'.symm.trans hlink)
  constructor
  · refine ⟨?_, fun h => (hsame h).1⟩
    rintro rfl
    exact hnames'.height_eq_of_text hnames
  · refine ⟨?_, fun h => (hsame h).2⟩
    rintro rfl
    exact hnames'.height_eq_of_target hnames

/-- The inner groups keep their zeros. -/
example : toBlock 1002030 = .link "1,002,030" "block.html?height=1002030" := by decide

end ChainBoard.Link
