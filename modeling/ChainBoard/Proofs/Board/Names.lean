import ChainBoard.Board.Slot
import ChainBoard.Proofs.Text.Alignment

/-!
# The names of slots in a column

A name is fitted to a column like any other text: it is cut first and filled up with spaces then. No
name has a space in it, so that a name that is shown in full is read back by dropping the spaces,
and no name begins with another one. A column that shows a name in full therefore tells its slot,
also where other columns are of other widths and cut what they show.

## Main results

* `Slot.eq_of_name_prefix`: no name begins with another one
* `Slot.fit_cuts_then_fills`: the name of a slot in a column
-/

namespace ChainBoard.Slot

theorem space_notMem_name (slot : Slot) : ' ' ∉ slot.name.toList := by
  cases slot <;> decide +kernel

/-- No name begins with another one. -/
theorem eq_of_name_prefix {a b : Slot} (h : a.name.toList <+: b.name.toList) : a = b := by
  have hall : ∀ a ∈ all, ∀ b ∈ all, a.name.toList <+: b.name.toList → a = b := by decide +kernel
  exact hall a a.mem_all b b.mem_all h

/-- What a column shows of a name. -/
theorem isFitted_fit (slot : Slot) (align? : Option Text.Alignment) (width : Nat)
    (most? : Option Nat) :
    ∃ cut front behind, Text.Alignment.IsFitted align? width most? slot.name.toList
      (slot.fit (align?.getD default) width most?).toList cut front behind := by
  rw [fit, String.toList_ofList]
  exact Text.Alignment.exists_isFitted align? width most? slot.name.toList

/-- A column that shows a name in full shows no other slot like it, whatever is asked for. -/
theorem eq_of_isFitted {slot slot' : Slot} {align? align?' : Option Text.Alignment}
    {width width' : Nat} {most? most?' : Option Nat} {shown cut cut' : List Char}
    {front front' behind behind' : Nat}
    (h : Text.Alignment.IsFitted align? width most? slot.name.toList shown cut front behind)
    (hmost : ∀ most ∈ most?, slot.name.toList.length ≤ most)
    (h' : Text.Alignment.IsFitted align?' width' most?' slot'.name.toList shown cut'
      front' behind') : slot = slot' := by
  apply eq_of_name_prefix
  calc slot.name.toList = cut := (h.cut_eq hmost).symm
    _ = shown.filter (· ≠ ' ') := (h.filter_shown slot.space_notMem_name).symm
    _ = cut' := h'.filter_shown slot'.space_notMem_name
    _ <+: slot'.name.toList := h'.cut_starts

/-- **The name of a slot is cut first and filled up with spaces then.** A column shows the first
characters of the name, as many as it may show, between spaces that stand where the alignment has
them and fill it up to its width. So what is shown is as long as the column is wide, or as what is
left of the name where that is longer. A name that is shown in full is left when the spaces are
dropped, and what is shown is then shown of no other slot, in no column. -/
theorem fit_cuts_then_fills (slot : Slot) (align? : Option Text.Alignment) (width : Nat)
    (most? : Option Nat) :
    let shown := slot.fit (align?.getD default) width most?
    ∃ cut front behind,
      Text.Alignment.IsFitted align? width most? slot.name.toList shown.toList cut front behind ∧
        shown.length = max width cut.length ∧
        ((∀ most ∈ most?, slot.name.length ≤ most) →
          shown.toList.filter (· ≠ ' ') = slot.name.toList ∧
            ∀ (slot' : Slot) (align?' : Option Text.Alignment) (width' : Nat) (most?' : Option Nat),
              slot'.fit (align?'.getD default) width' most?' = shown → slot' = slot) := by
  intro shown
  obtain ⟨cut, front, behind, h⟩ := slot.isFitted_fit align? width most?
  refine ⟨cut, front, behind, h, h.length_shown, ?_⟩
  intro hmost
  constructor
  · rw [h.filter_shown slot.space_notMem_name, h.cut_eq hmost]
  · intro slot' align?' width' most?' hshown
    obtain ⟨_, _, _, h'⟩ := slot'.isFitted_fit align?' width' most?'
    rw [hshown] at h'
    exact (eq_of_isFitted h hmost h').symm

/-- The height in the centre of a column of nine, where it may just be shown in full. -/
theorem fit_cuts_then_fills_height :
    (∀ most ∈ some 6, height.name.length ≤ most) ∧
      height.fit .centre 9 (some 6) = " height  " ∧
      ∀ (slot' : Slot) (align?' : Option Text.Alignment) (width' : Nat) (most?' : Option Nat),
        slot'.fit (align?'.getD default) width' most?' = " height  " → slot' = height := by
  have hmost : ∀ most ∈ some 6, height.name.length ≤ most := by decide +kernel
  have hshown : height.fit .centre 9 (some 6) = " height  " := by decide +kernel
  obtain ⟨_, _, _, -, -, hfull⟩ := fit_cuts_then_fills height (some .centre) 9 (some 6)
  refine ⟨hmost, hshown, ?_⟩
  rw [← hshown]
  exact (hfull hmost).2

end ChainBoard.Slot
