import Mathlib.Data.List.Induction
import Mathlib.Data.List.Nodup
import ChainBoard.Board.Basic

/-!
# What a board holds after many entries

A slot holds the last content that was put into it, with the base of links in front. Entries for
different slots do not disturb each other, so that two batches for disjoint slots may be taken in
either order.

## Main results

* `Board.get_putAll`: a slot holds its last entry, or what it held before
* `Board.get_putAll_of_notMem`: slots without entries keep what they hold
* `Board.get_putAll_of_mem`: an entry whose slot occurs once is what the slot holds
* `Board.putAll_comm`: batches for disjoint slots commute
-/

namespace ChainBoard

namespace Board

attribute [ext] Board

/-- Appending one entry to a batch puts it in last. -/
theorem putAll_concat (board : Board) (entries : List (Slot × Content)) (entry : Slot × Content) :
    board.putAll (entries ++ [entry]) = (board.putAll entries).put entry.1 entry.2 := by
  rw [putAll_append, putAll_cons, putAll_nil]

/-- A slot holds the last content put into it, or what it held before. -/
theorem get_putAll (board : Board) (entries : List (Slot × Content)) (slot : Slot) :
    (board.putAll entries).get slot =
      (((entries.filter (·.1 = slot)).getLast?).map (·.2.linkedTo board.linkBase)).or
        (board.get slot) := by
  -- Induction from the end, where the entry stands that counts.
  induction entries using List.reverseRecOn with
  | nil => rfl
  | append_singleton entries entry ih =>
    rw [putAll_concat, get_put, List.filter_append, linkBase_putAll]
    by_cases h : slot = entry.1
    · simp [h]
    · -- an entry for another slot is filtered out
      have hs : entry.1 ≠ slot := fun e => h e.symm
      simpa [h, hs] using ih

/-- A slot without entries keeps what it holds. -/
theorem get_putAll_of_notMem (board : Board) {entries : List (Slot × Content)} {slot : Slot}
    (h : slot ∉ entries.map (·.1)) : (board.putAll entries).get slot = board.get slot := by
  have hf : entries.filter (·.1 = slot) = [] := by
    apply List.filter_eq_nil_iff.2
    intro entry hentry he
    apply h
    exact List.mem_map.2 ⟨entry, hentry, by simpa using he⟩
  simp [get_putAll, hf]

/-- An entry whose slot occurs once is what the slot holds. -/
theorem get_putAll_of_mem (board : Board) {entries : List (Slot × Content)} {slot : Slot}
    {content : Content} (hn : (entries.map (·.1)).Nodup) (h : (slot, content) ∈ entries) :
    (board.putAll entries).get slot = some (content.linkedTo board.linkBase) := by
  induction entries generalizing board with
  | nil => simp at h
  | cons entry entries ih =>
    rw [List.map_cons, List.nodup_cons] at hn
    rw [putAll_cons]
    rcases List.mem_cons.1 h with rfl | h
    · -- no later entry has this slot
      rw [get_putAll_of_notMem _ hn.1, get_put_self]
    · exact ih (board.put entry.1 entry.2) hn.2 h

/-- What a slot holds after a batch that has an entry for it does not depend on what it held before.
-/
theorem get_putAll_congr {board board' : Board} {entries : List (Slot × Content)} {slot : Slot}
    (hb : board.linkBase = board'.linkBase) (h : slot ∈ entries.map (·.1)) :
    (board.putAll entries).get slot = (board'.putAll entries).get slot := by
  obtain ⟨entry, hentry, he⟩ := List.mem_map.1 h
  have hne : entries.filter (·.1 = slot) ≠ [] :=
    List.ne_nil_of_mem (List.mem_filter.2 ⟨hentry, by simpa using he⟩)
  rw [get_putAll, get_putAll, hb, List.getLast?_eq_some_getLast hne]
  rfl

/-- Batches for disjoint slots may be taken in either order. -/
theorem putAll_comm (board : Board) {first second : List (Slot × Content)}
    (h : (first.map (·.1)).Disjoint (second.map (·.1))) :
    (board.putAll first).putAll second = (board.putAll second).putAll first := by
  ext1
  · simp
  · funext slot
    by_cases hs : slot ∈ first.map (·.1)
    · -- the other batch leaves the slot alone, on either side
      rw [get_putAll_of_notMem _ (h hs)]
      exact get_putAll_congr (by simp) hs
    · rw [get_putAll_of_notMem (board.putAll second) hs]
      by_cases hs' : slot ∈ second.map (·.1)
      · exact get_putAll_congr (by simp) hs'
      · rw [get_putAll_of_notMem _ hs', get_putAll_of_notMem _ hs', get_putAll_of_notMem _ hs]

end Board

end ChainBoard
