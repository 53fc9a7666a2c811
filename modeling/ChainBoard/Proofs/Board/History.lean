import ChainBoard.Proofs.Board.Entries
import ChainBoard.Proofs.Board.Lines

/-!
# A board shows the last entries, whatever their history

A board that was filled by any entries holds the last one for each slot: a text as it was, and a link
with the base of the board in front of its target, once, however often the slot was filled before.
The lines of the board follow from these last entries alone. Nothing else of the history is left, so
that entries for different slots may change places, and an entry that is followed by another one for
its slot may be left out.

## Main definitions

* `IsLast`: the last entry for a slot
* `ShowsLast`: what a slot shows after some entries

## Main results

* `isLast_concat_self`, `isLast_concat_of_ne`: what one more entry is the last of
* `Board.get_putAll_eq_some_iff`: what a slot holds after any entries
* `Board.shows_last_entries`: a board holds and shows the last entries
-/

namespace ChainBoard

/-! ## The last entry for a slot -/

/-- The content is that of the last entry for the slot: behind it stands no other entry for the slot.
-/
def IsLast (entries : List (Slot × Content)) (slot : Slot) (content : Content) : Prop :=
  ∃ before after, entries = before ++ (slot, content) :: after ∧ slot ∉ after.map (·.1)

/-- What a slot shows after some entries: a dash without any entry, a text as it is, and a link with
its target behind the base of links. -/
def ShowsLast (linkBase : String) (entries : List (Slot × Content)) (slot : Slot)
    (shown : List Char) : Prop :=
  (slot ∉ entries.map (·.1) ∧ shown = ['-']) ∨
    (∃ text, IsLast entries slot (.text text) ∧ shown = text.toList) ∨
    ∃ text target, IsLast entries slot (.link text target) ∧
      shown = text.toList ++ ' ' :: '<' :: (linkBase.toList ++ target.toList ++ ['>'])

variable {entries : List (Slot × Content)} {slot : Slot} {content : Content}

theorem not_isLast_nil : ¬ IsLast [] slot content := by
  rintro ⟨before, after, he, -⟩
  exact List.append_ne_nil_of_right_ne_nil before (List.cons_ne_nil _ after) he.symm

/-- One more entry is the last for its slot. -/
theorem isLast_concat_self {entry : Slot × Content} :
    IsLast (entries ++ [entry]) entry.1 content ↔ content = entry.2 := by
  constructor
  · rintro ⟨before, after, he, hafter⟩
    -- the entry at the end is the one that is split off, or it stands behind that one
    rcases List.eq_nil_or_concat after with rfl | ⟨after, last, rfl⟩
    · have hend := List.append_inj_right' he rfl
      simp only [List.cons.injEq, and_true] at hend
      rw [hend]
    · rw [List.concat_eq_append, ← List.cons_append, ← List.append_assoc] at he
      have hend := List.append_inj_right' he rfl
      simp only [List.cons.injEq, and_true] at hend
      simp [hend] at hafter
  · rintro rfl
    exact ⟨entries, [], rfl, List.not_mem_nil⟩

/-- One more entry is not the last for another slot. -/
theorem isLast_concat_of_ne {entry : Slot × Content} (h : entry.1 ≠ slot) :
    IsLast (entries ++ [entry]) slot content ↔ IsLast entries slot content := by
  constructor
  · rintro ⟨before, after, he, hafter⟩
    rcases List.eq_nil_or_concat after with rfl | ⟨after, last, rfl⟩
    · -- the entry at the end is for this slot after all
      have hend := List.append_inj_right' he rfl
      simp only [List.cons.injEq, and_true] at hend
      exact absurd (congrArg Prod.fst hend) h
    · rw [List.concat_eq_append, ← List.cons_append, ← List.append_assoc] at he
      refine ⟨before, after, List.append_inj_left' he rfl, ?_⟩
      intro hmem
      apply hafter
      rw [List.concat_eq_append, List.map_append]
      exact List.mem_append_left _ hmem
  · rintro ⟨before, after, rfl, hafter⟩
    refine ⟨before, after ++ [entry], by simp, ?_⟩
    simpa [hafter] using h.symm

/-- There is a last entry for the slots that have one at all. -/
theorem exists_isLast_iff : (∃ content, IsLast entries slot content) ↔ slot ∈ entries.map (·.1) := by
  induction entries using List.reverseRecOn with
  | nil => simp [not_isLast_nil]
  | append_singleton entries entry ih =>
    by_cases h : entry.1 = slot
    · subst h
      simp [isLast_concat_self]
    · simp only [isLast_concat_of_ne h, ih, List.map_append, List.mem_append]
      simp [Ne.symm h]

namespace Board

/-! ## What a slot holds -/

/-- **A slot holds the last content that was put into it**, with the base of links in front. -/
theorem get_putAll_eq_some_iff {linkBase : String} {held : Content} :
    ((blank linkBase).putAll entries).get slot = some held ↔
      ∃ content, IsLast entries slot content ∧ held = content.linkedTo linkBase := by
  -- Induction from the end: each entry is the last for its slot and leaves the other slots alone.
  induction entries using List.reverseRecOn with
  | nil => simp [blank, not_isLast_nil]
  | append_singleton entries entry ih =>
    rw [putAll_concat]
    by_cases h : entry.1 = slot
    · subst h
      rw [get_put_self, linkBase_putAll]
      simp only [isLast_concat_self, exists_eq_left, Option.some.injEq]
      exact eq_comm
    · rw [get_put_of_ne _ (Ne.symm h), ih]
      simp only [isLast_concat_of_ne h]

theorem get_putAll_eq_none_iff {linkBase : String} :
    ((blank linkBase).putAll entries).get slot = none ↔ slot ∉ entries.map (·.1) := by
  rw [← exists_isLast_iff, Option.eq_none_iff_forall_ne_some]
  simp only [ne_eq, get_putAll_eq_some_iff, not_exists, not_and]
  constructor
  · intro h content hlast
    exact h _ content hlast rfl
  · intro h held content hlast
    exact absurd hlast (h content)

theorem get_putAll_eq_text_iff {linkBase text : String} :
    ((blank linkBase).putAll entries).get slot = some (.text text) ↔
      IsLast entries slot (.text text) := by
  rw [get_putAll_eq_some_iff]
  constructor
  · rintro ⟨content, hlast, he⟩
    cases content with
    | text => exact he ▸ hlast
    | link => cases he
  · intro h
    exact ⟨_, h, rfl⟩

theorem get_putAll_eq_link_iff {linkBase text target : String} :
    ((blank linkBase).putAll entries).get slot = some (.link text target) ↔
      ∃ page, IsLast entries slot (.link text page) ∧ target = linkBase ++ page := by
  rw [get_putAll_eq_some_iff]
  constructor
  · rintro ⟨content, hlast, he⟩
    cases content with
    | text => cases he
    | link shown page =>
      obtain ⟨rfl, rfl⟩ := Content.link.inj he
      exact ⟨page, hlast, rfl⟩
  · rintro ⟨page, hlast, rfl⟩
    exact ⟨_, hlast, rfl⟩

/-! ## What a slot shows -/

/-- A slot shows its last entry, or a dash. -/
theorem showsLast_shown (linkBase : String) (entries : List (Slot × Content)) (slot : Slot) :
    ShowsLast linkBase entries slot (((blank linkBase).putAll entries).shown slot) := by
  rw [shown]
  cases hget : ((blank linkBase).putAll entries).get slot with
  | none => exact .inl ⟨get_putAll_eq_none_iff.1 hget, rfl⟩
  | some held =>
    cases held with
    | text text => exact .inr (.inl ⟨text, get_putAll_eq_text_iff.1 hget, rfl⟩)
    | link text target =>
      obtain ⟨page, hlast, rfl⟩ := get_putAll_eq_link_iff.1 hget
      refine .inr (.inr ⟨text, page, hlast, ?_⟩)
      simp [Content.render]

/-! ## Histories that leave the same board -/

/-- Entries with the same last one for each slot leave the same board. -/
theorem putAll_eq_of_isLast {linkBase : String} {entries' : List (Slot × Content)}
    (h : ∀ slot content, IsLast entries' slot content ↔ IsLast entries slot content) :
    (blank linkBase).putAll entries' = (blank linkBase).putAll entries := by
  ext1
  · rw [linkBase_putAll, linkBase_putAll]
  · funext slot
    ext held
    simp only [get_putAll_eq_some_iff, h]

/-- Two entries for different slots, one behind the other, may change places. -/
theorem putAll_swap (board : Board) {first second : Slot × Content} (h : first.1 ≠ second.1)
    (before after : List (Slot × Content)) :
    board.putAll (before ++ second :: first :: after) =
      board.putAll (before ++ first :: second :: after) := by
  have hdisjoint : ([second].map (·.1)).Disjoint ([first].map (·.1)) := by simpa using h
  rw [putAll_append, putAll_append]
  exact congrArg (putAll · after) (putAll_comm (board.putAll before) hdisjoint)

/-- An entry with another one for its slot behind it may be left out. -/
theorem putAll_drop (board : Board) {overwritten : Slot × Content}
    {after : List (Slot × Content)} (h : overwritten.1 ∈ after.map (·.1))
    (before : List (Slot × Content)) :
    board.putAll (before ++ overwritten :: after) = board.putAll (before ++ after) := by
  rw [putAll_append, putAll_append, putAll_cons]
  ext1
  · simp
  · funext slot
    by_cases hslot : slot ∈ after.map (·.1)
    · exact get_putAll_congr (linkBase_put _ _ _) hslot
    · -- a slot that is not filled behind the entry is not the slot of the entry
      have hne : slot ≠ overwritten.1 := fun e => hslot (e ▸ h)
      rw [get_putAll_of_notMem _ hslot, get_putAll_of_notMem _ hslot, get_put_of_ne _ hne]

/-- **A board holds and shows the last entries, whatever their history.** A slot holds nothing if it
has no entry, and otherwise the content of its last entry, a link with the base of links in front of
its target. The board is shown slot by slot in their order: the name in a column of 20, a space, what
the last entry shows, a line feed. So entries with the same last one for each slot leave the same
board with the same lines, entries for different slots may change places, and an entry that is
overwritten may be left out. -/
theorem shows_last_entries (linkBase : String) (entries : List (Slot × Content)) :
    let board := (blank linkBase).putAll entries
    (∀ slot, board.get slot = none ↔ slot ∉ entries.map (·.1)) ∧
      (∀ slot text, board.get slot = some (.text text) ↔ IsLast entries slot (.text text)) ∧
      (∀ slot text target, board.get slot = some (.link text target) ↔
        ∃ page, IsLast entries slot (.link text page) ∧ target = linkBase ++ page) ∧
      (∃ shown : Slot → List Char, (∀ slot, ShowsLast linkBase entries slot (shown slot)) ∧
        board.render.toList = Slot.all.flatMap fun slot =>
          slot.name.toList.rightpad 20 ' ' ++ ' ' :: (shown slot ++ ['\n'])) ∧
      (∀ entries', (∀ slot content, IsLast entries' slot content ↔ IsLast entries slot content) →
        (∀ slot, ((blank linkBase).putAll entries').get slot = board.get slot) ∧
          ((blank linkBase).putAll entries').render = board.render) ∧
      (∀ before first second after, entries = before ++ first :: second :: after →
        first.1 ≠ second.1 →
        (blank linkBase).putAll (before ++ second :: first :: after) = board) ∧
      ∀ before overwritten after, entries = before ++ overwritten :: after →
        overwritten.1 ∈ after.map (·.1) →
        (blank linkBase).putAll (before ++ after) = board := by
  intro board
  refine ⟨fun _ => get_putAll_eq_none_iff, fun _ _ => get_putAll_eq_text_iff,
    fun _ _ _ => get_putAll_eq_link_iff, ?_, ?_, ?_, ?_⟩
  · refine ⟨board.shown, showsLast_shown linkBase entries, ?_⟩
    rw [toList_render, List.flatMap_map]
    apply List.flatMap_congr
    intro slot _
    simp [Slot.head]
  · intro entries' hsame
    have hboard : (blank linkBase).putAll entries' = board := putAll_eq_of_isLast hsame
    exact ⟨fun slot => by rw [hboard], by rw [hboard]⟩
  · rintro before first second after rfl hne
    exact putAll_swap _ hne before after
  · rintro before overwritten after rfl hmem
    exact (putAll_drop _ hmem before).symm

end Board

end ChainBoard
