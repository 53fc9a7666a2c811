import ChainBoard.Proofs.Json.Members
import ChainBoard.Json.Document

/-!
# Records are read from what writes them

A record is read from a list exactly if the elements of the list hold its fields in their order.
With records written as objects this gives what whole texts are accepted: those that write a record,
with white space around it.

## Main results

* `readElements_sound`, `readElements_complete`: the elements of a list are read one by one
* `readList_eq_ok_iff`: records are read from lists that hold their fields
* `Schema.read_eq_ok_iff`: records are read from what writes them
* `Schema.parse_eq_ok_iff_writes`: whole texts hold the records that they write
-/

namespace ChainBoard.Json

/-! ## Separators -/

theorem readSeparator_sound {first : Bool} {s rest : List Char}
    (h : readSeparator first s = .ok (true, rest)) :
    ∃ p w, s = p ++ (w ++ rest) ∧ Divides first p ∧ Blank w := by
  unfold readSeparator at h
  split at h
  · simp at h
  · rename_i c r hs
    obtain ⟨w, rfl, hw⟩ := exists_of_skipBlank_eq hs
    split at h
    · simp at h
    · cases first with
      | true =>
        -- the element stands right behind the bracket
        simp only [if_true, Except.ok.injEq, Prod.mk.injEq, true_and] at h
        exact ⟨[], w, by rw [← h]; rfl, divides_first, hw⟩
      | false =>
        -- a comma stands between, and no closing bracket behind it
        simp only [Bool.false_eq_true, if_false] at h
        split at h
        · rename_i hc
          split at h
          · simp at h
          · rename_i d r' hr
            obtain ⟨w', rfl, hw'⟩ := exists_of_skipBlank_eq hr
            split at h
            · simp at h
            · simp only [Except.ok.injEq, Prod.mk.injEq, true_and] at h
              exact ⟨w ++ [','], w', by simp [hc, ← h], divides_later hw, hw'⟩
        · simp at h

theorem readSeparator_end_sound {first : Bool} {s rest : List Char}
    (h : readSeparator first s = .ok (false, rest)) :
    ∃ w r, s = w ++ rest ∧ rest = ']' :: r ∧ Blank w := by
  unfold readSeparator at h
  split at h
  · simp at h
  · rename_i c r hs
    obtain ⟨w, rfl, hw⟩ := exists_of_skipBlank_eq hs
    split at h
    · rename_i hc
      simp only [Except.ok.injEq, Prod.mk.injEq, true_and] at h
      exact ⟨w, r, by rw [h], by rw [← h, hc], hw⟩
    · split at h
      · simp at h
      · split at h
        · split at h
          · simp at h
          · split at h <;> simp at h
        · simp at h

theorem readSeparator_complete {first : Bool} {p w : List Char} {c : Char} (hp : Divides first p)
    (hw : Blank w) (hc : StartsValue c) (s : List Char) :
    readSeparator first (p ++ (w ++ c :: s)) = .ok (true, c :: s) := by
  have hne : c ≠ ']' := hc.ne_close .list
  unfold readSeparator
  cases first with
  | true =>
    cases hp
    rw [List.nil_append, skipBlank_append hw, skipBlank_cons hc.isBlank_eq_false]
    simp [hne]
  | false =>
    obtain ⟨w', rfl, hw'⟩ := hp
    rw [List.append_assoc, skipBlank_append hw', List.singleton_append, skipBlank_cons rfl]
    simp [skipBlank_append hw, skipBlank_cons hc.isBlank_eq_false, hne]

theorem readSeparator_end {w : List Char} (hw : Blank w) (first : Bool) (s : List Char) :
    readSeparator first (w ++ ']' :: s) = .ok (false, ']' :: s) := by
  unfold readSeparator
  rw [skipBlank_append hw, skipBlank_cons rfl]
  rfl

theorem readListEnd_eq_ok_iff {s rest : List Char} :
    readListEnd s = .ok rest ↔ skipBlank s = ']' :: rest := by
  constructor
  · intro h
    unfold readListEnd at h
    split at h
    · simp at h
    · rename_i c r hs
      split at h
      · rename_i hc
        simp only [Except.ok.injEq] at h
        rw [hs, hc, h]
      · split at h <;> simp at h
  · intro h
    unfold readListEnd
    rw [h]
    rfl

/-! ## Lists -/

/-- The elements that are left in front of the end of a list, without the white space there. -/
def ElementsLeft (first : Bool) (vs : List (List Char)) (s : List Char) : Prop :=
  (vs = [] ∧ Blank s) ∨ ∃ p s', s = p ++ s' ∧ Divides first p ∧ vs ≠ [] ∧ Elements vs s'

theorem elementsLeft_first {vs : List (List Char)} {s : List Char} (h : ElementsLeft true vs s) :
    Elements vs s := by
  rcases h with ⟨rfl, hs⟩ | ⟨p, s', rfl, rfl, -, hs⟩
  · exact .none hs
  · exact hs

/-- An element in front of those that are left. -/
theorem elements_cons {v : List Char} {vs : List (List Char)} {w s : List Char} (hw : Blank w)
    (h : ElementsLeft false vs s) : Elements (v :: vs) (w ++ (v ++ s)) := by
  rcases h with ⟨rfl, hs⟩ | ⟨p, s', rfl, ⟨w', rfl, hw'⟩, hne, hs⟩
  · exact .one hw hs
  · obtain ⟨v', vs, rfl⟩ := List.exists_cons_of_ne_nil hne
    have := Elements.more (v := v) hw hw' hs
    simpa using this

/-- White space may stand behind the elements of a list. -/
theorem Elements.append_blank {vs : List (List Char)} {s w : List Char} (h : Elements vs s)
    (hw : Blank w) : Elements vs (s ++ w) := by
  induction h with
  | none hw' => exact .none (hw'.append hw)
  | @one w₁ v w₂ h₁ h₂ =>
    have := Elements.one (v := v) h₁ (h₂.append hw)
    simpa using this
  | @more w₁ v w₂ v' s vs h₁ h₂ _ ih =>
    have := Elements.more (v := v) h₁ h₂ ih
    simpa using this

/-- In front of the closing bracket no elements are left. -/
theorem eq_nil_of_elementsLeft {vs : List (List Char)} {s r r' : List Char}
    (h : ElementsLeft false vs s) (hs : s ++ r = ']' :: r') : vs = [] := by
  rcases h with ⟨rfl, -⟩ | ⟨p, s', rfl, ⟨w, rfl, hw⟩, -, -⟩
  · rfl
  · cases w with
    | nil => simp at hs
    | cons c w =>
      obtain ⟨rfl, -⟩ := List.cons.inj hs
      have := hw ']' List.mem_cons_self
      simp at this

theorem readElements_sound {schema : Schema} {fields : List Field} {index : Nat}
    {s rest : List Char} {row : Row fields}
    (h : readElements schema fields index s = .ok (row, rest)) :
    ∃ vs body, s = body ++ rest ∧ ElementsLeft (index = 0) vs body ∧
      ElementsHold fields vs row := by
  -- Induction on the fields, each of which takes one element or is absent.
  induction fields generalizing index s with
  | nil =>
    simp only [readElements, Except.ok.injEq, Prod.mk.injEq] at h
    obtain ⟨-, rfl⟩ := h
    exact ⟨[], [], rfl, .inl ⟨rfl, Blank.nil⟩, rfl⟩
  | cons field fields ih =>
    obtain ⟨⟨more, r⟩, hsep, hmore⟩ := bind_eq_ok_iff.1 h
    have hsep := within_eq_ok_iff.1 hsep
    cases more with
    | true =>
      -- one more element, which denotes the value of the field
      obtain ⟨p, w, rfl, hp, hw⟩ := readSeparator_sound hsep
      obtain ⟨⟨x, r'⟩, hx, hvalues⟩ := bind_eq_ok_iff.1 hmore
      obtain ⟨⟨xs, r''⟩, hxs, he⟩ := bind_eq_ok_iff.1 hvalues
      simp only [Except.ok.injEq, Prod.mk.injEq] at he
      obtain ⟨rfl, rfl⟩ := he
      obtain ⟨w', v, rfl, hw', hv⟩ := Kind.read_sound hx
      obtain ⟨vs, body, rfl, hleft, hold⟩ := ih hxs
      have helements : Elements (v :: vs) (w ++ w' ++ (v ++ body)) :=
        elements_cons (hw.append hw') hleft
      exact ⟨v :: vs, p ++ (w ++ w' ++ (v ++ body)), by simp,
        .inr ⟨p, _, rfl, hp, by simp, helements⟩, hv, hold⟩
    | false =>
      -- no more elements: the field and all behind it have to be absent
      obtain ⟨w, r', rfl, rfl, hw⟩ := readSeparator_end_sound hsep
      simp only [Bool.false_eq_true, if_false] at hmore
      split at hmore
      · rename_i x hx
        obtain ⟨⟨xs, r''⟩, hxs, he⟩ := bind_eq_ok_iff.1 hmore
        simp only [Except.ok.injEq, Prod.mk.injEq] at he
        obtain ⟨rfl, rfl⟩ := he
        obtain ⟨vs, body, hs, hleft, hold⟩ := ih hxs
        -- The rest of the list has been seen to be empty already.
        obtain rfl := eq_nil_of_elementsLeft hleft hs.symm
        have hbody : Blank body := by
          rcases hleft with ⟨-, hb⟩ | ⟨_, _, _, _, hne, _⟩
          · exact hb
          · exact absurd rfl hne
        refine ⟨[], w ++ body, by rw [hs, List.append_assoc], .inl ⟨rfl, hw.append hbody⟩, hx, hold⟩
      · simp at hmore

theorem readElements_end (schema : Schema) {fields : List Field} (index : Nat) {w : List Char}
    {row : Row fields} (hw : Blank w) (h : ElementsHold fields [] row) (rest : List Char) :
    ∃ s, readElements schema fields index (w ++ ']' :: rest) = .ok (row, s) ∧
      skipBlank s = ']' :: rest := by
  induction fields generalizing index w with
  | nil => exact ⟨_, rfl, by rw [skipBlank_append hw, skipBlank_cons rfl]⟩
  | cons field fields ih =>
    obtain ⟨x, row⟩ := row
    obtain ⟨hx, hrest⟩ := h
    obtain ⟨s, hread, hs⟩ := ih (index + 1) Blank.nil hrest
    refine ⟨s, ?_, hs⟩
    unfold readElements
    refine bind_eq_ok_iff.2 ⟨_, within_eq_ok_iff.2 (readSeparator_end hw _ rest), ?_⟩
    simp only [Bool.false_eq_true, if_false, hx]
    exact bind_eq_ok_iff.2 ⟨_, hread, rfl⟩

/-- Elements that hold the fields are read, by induction on the elements. -/
theorem readElements_complete {schema : Schema} {vs : List (List Char)} {body : List Char}
    (hbody : Elements vs body) {fields : List Field} {index : Nat} {p : List Char}
    {row : Row fields} (hp : Divides (index = 0) p) (hne : vs ≠ [])
    (h : ElementsHold fields vs row) (rest : List Char) :
    ∃ s, readElements schema fields index (p ++ (body ++ ']' :: rest)) = .ok (row, s) ∧
      skipBlank s = ']' :: rest := by
  -- One value is read, and the reader goes on behind it with the next field.
  have step {field : Field} {fields : List Field} {index : Nat} {p w v t s : List Char}
      {x : field.kind.Carrier} {row : Row fields} (hp : Divides (index = 0) p) (hw : Blank w)
      (hx : field.kind.Denotes v x) (ht : EndsNumber t)
      (hread : readElements schema fields (index + 1) t = .ok (row, s)) :
      readElements schema (field :: fields) index (p ++ (w ++ (v ++ t))) = .ok ((x, row), s) := by
    have hval := Kind.read_complete Blank.nil hx ht
    obtain ⟨c, v', rfl, hc⟩ := (Kind.isValue_of_denotes hx).exists_cons
    unfold readElements
    refine bind_eq_ok_iff.2 ⟨_, within_eq_ok_iff.2 (readSeparator_complete hp hw hc _), ?_⟩
    refine bind_eq_ok_iff.2 ⟨_, hval, ?_⟩
    exact bind_eq_ok_iff.2 ⟨_, hread, rfl⟩
  induction hbody generalizing fields index p with
  | none => exact absurd rfl hne
  | @one w v w' hw hw' =>
    -- the last element: the fields behind it are absent
    cases fields with
    | nil => simp [ElementsHold] at h
    | cons field fields =>
      obtain ⟨x, row⟩ := row
      obtain ⟨s, hread, hs⟩ := readElements_end schema (index + 1) hw' h.2 rest
      refine ⟨s, ?_, hs⟩
      have hend : EndsNumber (']' :: rest) := endsNumber_close .list rest
      have := step hp hw h.1 (hend.blank_append hw') hread
      simpa using this
  | @more w v w' v' body vs hw hw' _ ih =>
    -- a comma follows, and divides the next element from this one
    cases fields with
    | nil => simp [ElementsHold] at h
    | cons field fields =>
      obtain ⟨x, row⟩ := row
      have hd : Divides (index + 1 = 0) (w' ++ [',']) := divides_later hw'
      obtain ⟨s, hread, hs⟩ := ih hd (by simp) h.2
      refine ⟨s, ?_, hs⟩
      rw [List.append_assoc, List.singleton_append] at hread
      have := step hp hw h.1 ((endsNumber_comma _).blank_append hw') hread
      simpa using this

/-- **A record is read from a list exactly if the elements hold its fields.** -/
theorem readList_eq_ok_iff {schema : Schema} {s rest : List Char} {row : Row schema.fields} :
    schema.readList s = .ok (row, rest) ↔
      ∃ vs body, s = body ++ ']' :: rest ∧ Elements vs body ∧
        ElementsHold schema.fields vs row := by
  constructor
  · intro h
    obtain ⟨⟨row', r⟩, hread, hend⟩ := bind_eq_ok_iff.1 h
    obtain ⟨r', hr, he⟩ := bind_eq_ok_iff.1 hend
    simp only [pure, Except.pure, Except.ok.injEq, Prod.mk.injEq] at he
    obtain ⟨rfl, rfl⟩ := he
    obtain ⟨vs, body, rfl, hleft, hold⟩ := readElements_sound (mapError_eq_ok_iff.1 hread)
    obtain ⟨w, rfl, hw⟩ := exists_of_skipBlank_eq (readListEnd_eq_ok_iff.1 hr)
    exact ⟨vs, body ++ w, by simp, (elementsLeft_first hleft).append_blank hw, hold⟩
  · rintro ⟨vs, body, rfl, hbody, hold⟩
    have hread : ∃ r, readElements schema schema.fields 0 (body ++ ']' :: rest) = .ok (row, r) ∧
        skipBlank r = ']' :: rest := by
      have hp : Divides ((0 : Nat) = 0) [] := rfl
      cases hbody with
      | none hw => exact readElements_end schema 0 hw hold rest
      | one hw hw' => exact readElements_complete (.one hw hw') hp (by simp) hold rest
      | more hw hw' hs => exact readElements_complete (.more hw hw' hs) hp (by simp) hold rest
    obtain ⟨r, hread, hr⟩ := hread
    refine bind_eq_ok_iff.2 ⟨_, mapError_eq_ok_iff.2 hread, ?_⟩
    exact bind_eq_ok_iff.2 ⟨_, readListEnd_eq_ok_iff.2 hr, rfl⟩

/-! ## Records -/

namespace Schema

/-- **A record is read exactly from what writes it**, behind white space. -/
theorem read_eq_ok_iff {schema : Schema} {s rest : List Char} {row : Row schema.fields} :
    schema.read s = .ok (row, rest) ↔
      ∃ w t, s = w ++ (t ++ rest) ∧ Blank w ∧ schema.Writes t row := by
  constructor
  · intro h
    obtain ⟨⟨seen, r⟩, hseen, hread⟩ := bind_eq_ok_iff.1 h
    obtain ⟨w, c, s', rfl, hw, hs⟩ := Seen.read_sound hseen
    dsimp only at hread
    split at hread
    · -- an object
      obtain ⟨rfl, rfl⟩ := hs
      obtain ⟨ms, body, he, hbody, hold⟩ := readObject_eq_ok_iff.1 hread
      rw [List.tail_cons] at he
      subst he
      exact ⟨w, '{' :: (body ++ ['}']), by simp, hw, .inl ⟨ms, body, rfl, hbody, hold⟩⟩
    · -- a list
      obtain ⟨rfl, rfl⟩ := hs
      obtain ⟨vs, body, he, hbody, hold⟩ := readList_eq_ok_iff.1 hread
      rw [List.tail_cons] at he
      subst he
      exact ⟨w, '[' :: (body ++ [']']), by simp, hw, .inr ⟨vs, body, rfl, hbody, hold⟩⟩
    · -- a scalar is no record
      simp at hread
  · rintro ⟨w, t, rfl, hw, ⟨ms, body, rfl, hbody, hold⟩ | ⟨vs, body, rfl, hbody, hold⟩⟩
    · refine bind_eq_ok_iff.2 ⟨(.object, '{' :: (body ++ ['}']) ++ rest), ?_, ?_⟩
      · rw [Seen.read_blank_append hw]
        rfl
      · exact readObject_eq_ok_iff.2 ⟨ms, body, by simp, hbody, hold⟩
    · refine bind_eq_ok_iff.2 ⟨(.list, '[' :: (body ++ [']']) ++ rest), ?_, ?_⟩
      · rw [Seen.read_blank_append hw]
        rfl
      · exact readList_eq_ok_iff.2 ⟨vs, body, by simp, hbody, hold⟩

theorem readEnd_eq_ok_iff {s : List Char} : readEnd s = .ok () ↔ Blank s := by
  rw [readEnd, ← skipBlank_eq_nil_iff]
  split <;> simp_all

/-- **A whole text holds a record exactly if it writes it**, with white space around it. -/
theorem parse_eq_ok_iff_writes {schema : Schema} {text : List Char} {row : Row schema.fields} :
    schema.parse text = .ok row ↔
      ∃ w t w', text = w ++ (t ++ w') ∧ Blank w ∧ Blank w' ∧ schema.Writes t row := by
  rw [parse_eq_ok_iff]
  constructor
  · intro h
    obtain ⟨⟨row', rest⟩, hread, hend⟩ := bind_eq_ok_iff.1 h
    obtain ⟨u, hu, he⟩ := bind_eq_ok_iff.1 hend
    simp only [pure, Except.pure, Except.ok.injEq] at he
    subst he
    obtain ⟨w, t, rfl, hw, ht⟩ := read_eq_ok_iff.1 hread
    exact ⟨w, t, rest, rfl, hw, readEnd_eq_ok_iff.1 hu, ht⟩
  · rintro ⟨w, t, w', rfl, hw, hw', ht⟩
    refine bind_eq_ok_iff.2 ⟨(row, w'), read_eq_ok_iff.2 ⟨w, t, rfl, hw, ht⟩, ?_⟩
    exact bind_eq_ok_iff.2 ⟨(), readEnd_eq_ok_iff.2 hw', rfl⟩

end Schema

end ChainBoard.Json
