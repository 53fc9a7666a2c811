import Mathlib.Algebra.BigOperators.Group.List.Basic
import Mathlib.Algebra.GroupWithZero.Nat
import Mathlib.Data.List.Forall2
import ChainBoard.Board.Basic
import ChainBoard.Proofs.Text.Alignment

/-!
# The lines of a board

A board is shown on one line for each slot as long as no slot shows a line feed: then there are as
many lines as slots, and each begins with the name of its slot. Nothing keeps a line feed out of
what a slot shows, and each one ends a line in the middle, so that a board with a line feed in any
slot has more lines than slots.

## Main definitions

* `Text.MadeOf`: the lines that a text is made of
* `Slot.head`: what the line of a slot begins with
* `Board.shown`: what a slot shows
* `Board.HasOneLineEach`: a board is shown on one line for each slot

## Main results

* `Board.toList_line`: the line of a slot
* `Board.count_render`: the line feeds of a board
* `Board.hasOneLineEach_iff`: one line for each slot, unless a slot shows a line feed
-/

namespace ChainBoard

namespace Text

/-- The text is made of these lines, each of them ended by a line feed. -/
def MadeOf (text : List Char) (lines : List (List Char)) : Prop :=
  text = lines.flatMap (· ++ ['\n']) ∧ ∀ line ∈ lines, '\n' ∉ line

/-- As many line feeds as lines. -/
theorem MadeOf.count {text : List Char} {lines : List (List Char)} (h : MadeOf text lines) :
    text.count '\n' = lines.length := by
  obtain ⟨rfl, hlines⟩ := h
  induction lines with
  | nil => rfl
  | cons line lines ih =>
    have hline : line.count '\n' = 0 := List.count_eq_zero.2 (hlines line List.mem_cons_self)
    have ih := ih fun l hl => hlines l (List.mem_cons_of_mem _ hl)
    rw [List.flatMap_cons, List.count_append, List.count_append, ih, hline, List.length_cons,
      List.count_singleton_self]
    omega

end Text

/-- What the line of a slot begins with: its name, filled up with spaces to 20 columns, and a space.
-/
def Slot.head (slot : Slot) : List Char :=
  slot.name.toList.rightpad 20 ' ' ++ [' ']

theorem Slot.newline_notMem_head (slot : Slot) : '\n' ∉ slot.head := by
  cases slot <;> decide +kernel

namespace Board

/-- What a slot shows: its content, or a dash. -/
def shown (board : Board) (slot : Slot) : List Char :=
  (((board.get slot).map Content.render).getD "-").toList

/-- The board is shown on one line for each slot, in the order of the slots, and each line begins
with the name of its slot. -/
def HasOneLineEach (board : Board) : Prop :=
  ∃ lines, Text.MadeOf board.render.toList lines ∧
    List.Forall₂ (fun slot line => slot.head <+: line) Slot.all lines

/-- The line of a slot. -/
theorem toList_line (board : Board) (slot : Slot) :
    (board.line slot).toList = slot.head ++ board.shown slot ++ ['\n'] := by
  have hhead : (slot.fit .left nameWidth none ++ " ").toList = slot.head := by
    rw [Slot.fit, Text.Alignment.fit_left_none, String.toList_append, String.toList_ofList]
    rfl
  rw [line, String.toList_append, String.toList_append, hhead]
  rfl

theorem toList_render (board : Board) :
    board.render.toList =
      (Slot.all.map fun slot => slot.head ++ board.shown slot).flatMap (· ++ ['\n']) := by
  rw [render, String.toList_join, List.flatMap_map, List.flatMap_map]
  exact List.flatMap_congr fun slot _ => board.toList_line slot

/-- A board has one line feed for each slot, and those that its slots show. -/
theorem count_render (board : Board) :
    board.render.toList.count '\n' =
      Slot.all.length + (Slot.all.map fun slot => (board.shown slot).count '\n').sum := by
  have hslot (slot : Slot) : (slot.head ++ board.shown slot ++ ['\n']).count '\n' =
      1 + (board.shown slot).count '\n' := by
    rw [List.count_append, List.count_append, List.count_eq_zero.2 slot.newline_notMem_head]
    simp [Nat.add_comm]
  rw [toList_render, List.flatMap_map, List.count_flatMap]
  simp only [Function.comp_def, hslot, List.sum_map_add, List.map_const', List.sum_replicate]
  simp

/-- **A board is shown on one line for each slot unless a slot shows a line feed.** -/
theorem hasOneLineEach_iff {board : Board} :
    board.HasOneLineEach ↔ ∀ slot, '\n' ∉ board.shown slot := by
  constructor
  · rintro ⟨lines, hlines, hheads⟩ slot
    -- as many line feeds as slots, so none is left for what the slots show
    have hcount := hlines.count
    rw [count_render, ← hheads.length_eq] at hcount
    have hsum : (Slot.all.map fun slot => (board.shown slot).count '\n').sum = 0 := by omega
    apply List.count_eq_zero.1
    exact List.sum_eq_zero_iff_forall_eq_nat.1 hsum _ (List.mem_map_of_mem slot.mem_all)
  · intro h
    refine ⟨Slot.all.map fun slot => slot.head ++ board.shown slot, ⟨board.toList_render, ?_⟩, ?_⟩
    · intro line hline
      obtain ⟨slot, -, rfl⟩ := List.mem_map.1 hline
      simpa using ⟨slot.newline_notMem_head, h slot⟩
    · rw [List.forall₂_map_right_iff, List.forall₂_same]
      exact fun slot _ => List.prefix_append _ _

end Board

end ChainBoard
