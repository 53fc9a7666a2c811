import ChainBoard.Proofs.Json.Field

/-!
# Records written as objects

A record is read from an object exactly if the members of the object hold its fields. The invariant
of the reader is what members make of a draft: they give each field that they name a value, which it
may not have had, and leave the other fields as they are. A member that is taken in makes one step of
this, and the members of an object together make a draft of the empty one, which is a row or lacks a
field when the object closes.

## Main definitions

* `Divides`: what stands in front of an item
* `Takes`: what members make of a draft

## Main results

* `membersHold_iff_takes`: members hold a record if they make the empty draft a row
* `member_sound`, `member_complete`: one member is taken into a draft
* `readMembers_sound`, `readMembers_run`: the members of an object are taken in
* `readObject_eq_ok_iff`: records are read from objects that hold their fields
-/

namespace ChainBoard.Json

/-- What divides an item from what is in front of it: nothing in front of the first item, and a
comma behind white space elsewhere. -/
def Divides (first : Bool) (p : List Char) : Prop :=
  if first then p = [] else ∃ w, p = w ++ [','] ∧ Blank w

theorem divides_first : Divides true [] := rfl

theorem divides_later {w : List Char} (hw : Blank w) : Divides false (w ++ [',']) :=
  ⟨w, rfl, hw⟩

/-! ## Members by name -/

theorem valuesOf_cons_self {name : List Char} {m : Member} (h : m.name = name) (ms : List Member) :
    valuesOf name (m :: ms) = m.value :: valuesOf name ms := by
  simp [valuesOf, h]

theorem valuesOf_cons_of_ne {name : List Char} {m : Member} (h : m.name ≠ name)
    (ms : List Member) : valuesOf name (m :: ms) = valuesOf name ms := by
  simp [valuesOf, h]

theorem without_cons_self {name : List Char} {m : Member} (h : m.name = name) (ms : List Member) :
    without name (m :: ms) = without name ms := by
  simp [without, h]

theorem without_cons_of_ne {name : List Char} {m : Member} (h : m.name ≠ name)
    (ms : List Member) : without name (m :: ms) = m :: without name ms := by
  simp [without, h]

/-- A name of plain characters may be written as it stands, and white space may be left out. -/
theorem Member.isWritten_of_isPlain {m : Member} (h : m.name.all (IsPlain ·) = true) :
    m.IsWritten ('"' :: (m.name ++ '"' :: ':' :: m.value)) := by
  refine ⟨[], m.name, [], [], [], ?_, .nil, spells_of_isPlain h, .nil, .nil, .nil⟩
  simp

/-- One more member may stand behind others. -/
theorem Members.concat {m : Member} {ms : List Member} {s s' : List Char} (h : Members ms s)
    (hne : ms ≠ []) (hm : m.IsWritten s') : Members (ms ++ [m]) (s ++ ',' :: s') := by
  induction h with
  | none _ => exact absurd rfl hne
  | one hfirst => exact .more hfirst (.one hm)
  | more hfirst _ ih =>
    rw [List.append_assoc, List.cons_append]
    exact .more hfirst (ih (List.cons_ne_nil _ _))

/-! ## What members make of a draft -/

/-- What the values of members make of a field: nothing without any values, and the only value if it
had none. -/
inductive FieldTakes (field : Field) :
    Option field.kind.Carrier → List (List Char) → Option field.kind.Carrier → Prop
  | keep {value? : Option field.kind.Carrier} : FieldTakes field value? [] value?
  | take {v : List Char} {x : field.kind.Carrier} : field.kind.Denotes v x →
      FieldTakes field none [v] (some x)

/-- What members make of a draft. Members with other names than those of the fields have any values.
-/
def Takes : (fields : List Field) → Draft fields → List Member → Draft fields → Prop
  | [], _, ms, _ => ∀ m ∈ ms, IsValue m.value
  | field :: fields, (value?, draft), ms, (value?', draft') =>
    FieldTakes field value? (valuesOf field.name.toList ms) value?' ∧
      Takes fields draft (without field.name.toList ms) draft'

theorem fieldTakes_nil_iff {field : Field} {value? value?' : Option field.kind.Carrier} :
    FieldTakes field value? [] value?' ↔ value?' = value? := by
  constructor
  · rintro ⟨⟩
    rfl
  · rintro rfl
    exact .keep

theorem fieldTakes_cons_iff {field : Field} {value? value?' : Option field.kind.Carrier}
    {v : List Char} {vs : List (List Char)} :
    FieldTakes field value? (v :: vs) value?' ↔
      value? = none ∧ vs = [] ∧ ∃ x, value?' = some x ∧ field.kind.Denotes v x := by
  constructor
  · rintro ⟨⟩
    exact ⟨rfl, rfl, _, rfl, ‹_›⟩
  · rintro ⟨rfl, rfl, x, rfl, hx⟩
    exact .take hx

/-- A field that has a value takes no other. -/
theorem FieldTakes.of_some {field : Field} {x : field.kind.Carrier}
    {value? : Option field.kind.Carrier} {vs : List (List Char)}
    (h : FieldTakes field (some x) vs value?) : vs = [] ∧ value? = some x := by
  cases h
  exact ⟨rfl, rfl⟩

/-- Without members a draft stays as it is. -/
theorem takes_nil_iff {fields : List Field} {draft draft' : Draft fields} :
    Takes fields draft [] draft' ↔ draft' = draft := by
  induction fields with
  | nil => simp [Takes]
  | cons field fields ih =>
    obtain ⟨value?, draft⟩ := draft
    obtain ⟨value?', draft'⟩ := draft'
    rw [Prod.mk.injEq]
    exact and_congr fieldTakes_nil_iff ih

/-- The values of members hold a field if they give it a value or it need not be there. -/
theorem holds_iff_fieldTakes {field : Field} {vs : List (List Char)} {x : field.kind.Carrier} :
    field.kind.Holds vs x ↔
      ∃ value?, FieldTakes field none vs value? ∧ (value? <|> field.kind.absent?) = some x := by
  constructor
  · rintro (⟨v, rfl, hx⟩ | ⟨rfl, hx⟩)
    · exact ⟨some x, .take hx, rfl⟩
    · exact ⟨none, .keep, hx⟩
  · rintro ⟨value?, hvalue, hx⟩
    cases hvalue with
    | keep => exact .inr ⟨rfl, hx⟩
    | take hv =>
      obtain rfl := Option.some.inj hx
      exact .inl ⟨_, rfl, hv⟩

/-- A draft is a row if each field has a value or need not be there. -/
theorem row_cons_eq_ok_iff {field : Field} {fields : List Field}
    {value? : Option field.kind.Carrier} {draft : Draft fields} {x : field.kind.Carrier}
    {row : Row fields} :
    Draft.row (field :: fields) (value?, draft) = .ok (x, row) ↔
      (value? <|> field.kind.absent?) = some x ∧ Draft.row fields draft = .ok row := by
  simp only [Draft.row]
  split
  · rename_i h
    simp [h]
  · rename_i y h
    rw [h, map_eq_ok_iff]
    constructor
    · rintro ⟨values, hv, he⟩
      obtain ⟨rfl, rfl⟩ := Prod.mk.inj he
      exact ⟨rfl, hv⟩
    · rintro ⟨he, hv⟩
      obtain rfl := Option.some.inj he
      exact ⟨row, hv, rfl⟩

/-- **Members hold a record exactly if they make the empty draft a row.** -/
theorem membersHold_iff_takes {fields : List Field} {ms : List Member} {row : Row fields} :
    MembersHold fields ms row ↔
      ∃ draft, Takes fields (Draft.empty fields) ms draft ∧ Draft.row fields draft = .ok row := by
  induction fields generalizing ms with
  | nil => simp [MembersHold, Takes, Draft.row]
  | cons field fields ih =>
    obtain ⟨x, row⟩ := row
    constructor
    · rintro ⟨hx, hrest⟩
      obtain ⟨value?, hvalue, hx⟩ := holds_iff_fieldTakes.1 hx
      obtain ⟨draft, htakes, hrow⟩ := ih.1 hrest
      exact ⟨(value?, draft), ⟨hvalue, htakes⟩, row_cons_eq_ok_iff.2 ⟨hx, hrow⟩⟩
    · rintro ⟨⟨value?, draft⟩, ⟨hvalue, htakes⟩, hrow⟩
      obtain ⟨hx, hrow⟩ := row_cons_eq_ok_iff.1 hrow
      exact ⟨holds_iff_fieldTakes.2 ⟨value?, hvalue, hx⟩, ih.2 ⟨draft, htakes, hrow⟩⟩

/-! ## One member -/

/-- A member that is taken in is the first of the members that make what becomes of the draft. -/
theorem member_sound {fields : List Field} {draft draft' : Draft fields} {name s rest : List Char}
    (h : Draft.member fields draft name s = .ok (draft', rest)) :
    ∃ w₁ w₂ v, s = w₁ ++ ':' :: (w₂ ++ (v ++ rest)) ∧ Blank w₁ ∧ Blank w₂ ∧
      ∀ ms last, Takes fields draft' ms last → Takes fields draft (⟨name, v⟩ :: ms) last := by
  -- Induction on the fields: the member is the first of them, or it is left to the others.
  induction fields with
  | nil =>
    -- the member is no field at all and may have any value
    obtain ⟨r, hr, he⟩ := map_eq_ok_iff.1 h
    obtain ⟨r', hcolon, hv⟩ := bind_eq_ok_iff.1 (within_eq_ok_iff.1 hr)
    simp only [Prod.mk.injEq] at he
    obtain ⟨-, rfl⟩ := he
    obtain ⟨w₁, rfl, h₁⟩ := Stage.readColon_eq_ok_iff.1 hcolon
    obtain ⟨w₂, v, rfl, h₂, hv⟩ := passValue_sound hv
    refine ⟨w₁, w₂, v, rfl, h₁, h₂, ?_⟩
    intro ms last hms m hm
    rcases List.mem_cons.1 hm with rfl | hm
    · exact hv
    · exact hms m hm
  | cons field fields ih =>
    obtain ⟨value?, draft⟩ := draft
    unfold Draft.member at h
    split at h
    · -- the member is this field, which cannot have been met
      rename_i hname
      cases value? with
      | some y => simp at h
      | none =>
        obtain ⟨r, hr, hread⟩ := bind_eq_ok_iff.1 h
        obtain ⟨⟨x, r'⟩, hv, he⟩ := bind_eq_ok_iff.1 hread
        simp only [Except.ok.injEq, Prod.mk.injEq] at he
        obtain ⟨rfl, rfl⟩ := he
        obtain ⟨w₁, rfl, h₁⟩ := Stage.readColon_eq_ok_iff.1 (within_eq_ok_iff.1 hr)
        obtain ⟨w₂, v, rfl, h₂, hv⟩ := Kind.read_sound hv
        refine ⟨w₁, w₂, v, rfl, h₁, h₂, ?_⟩
        rintro ms ⟨x', last⟩ ⟨hx, hrest⟩
        obtain ⟨hvs, rfl⟩ := hx.of_some
        refine ⟨?_, ?_⟩
        · rw [valuesOf_cons_self hname.symm, hvs]
          exact .take hv
        · rwa [without_cons_self hname.symm]
    · -- the member is left to the other fields
      rename_i hname
      obtain ⟨⟨d, r⟩, hm, he⟩ := map_eq_ok_iff.1 h
      simp only [Prod.mk.injEq] at he
      obtain ⟨rfl, rfl⟩ := he
      obtain ⟨w₁, w₂, v, hs, h₁, h₂, htakes⟩ := ih hm
      refine ⟨w₁, w₂, v, hs, h₁, h₂, ?_⟩
      rintro ms ⟨x, last⟩ ⟨hx, hrest⟩
      have hne : (⟨name, v⟩ : Member).name ≠ field.name.toList := fun e => hname e.symm
      refine ⟨?_, ?_⟩
      · rwa [valuesOf_cons_of_ne hne]
      · rw [without_cons_of_ne hne]
        exact htakes _ _ hrest

/-- The first of the members that make something of a draft is taken in. -/
theorem member_complete {fields : List Field} {draft last : Draft fields} {m : Member}
    {ms : List Member} {w₁ w₂ rest : List Char} (h₁ : Blank w₁) (h₂ : Blank w₂)
    (hr : EndsNumber rest) (h : Takes fields draft (m :: ms) last) :
    ∃ draft', Draft.member fields draft m.name (w₁ ++ ':' :: (w₂ ++ (m.value ++ rest))) =
        .ok (draft', rest) ∧ Takes fields draft' ms last := by
  have hcolon : Stage.readColon (w₁ ++ ':' :: (w₂ ++ (m.value ++ rest))) =
      .ok (w₂ ++ (m.value ++ rest)) := Stage.readColon_eq_ok_iff.2 ⟨w₁, rfl, h₁⟩
  -- Induction on the fields: the member is taken in by the first or left to the others.
  induction fields generalizing ms with
  | nil =>
    have hv : IsValue m.value := h m List.mem_cons_self
    refine ⟨(), ?_, fun m' hm' => h m' (List.mem_cons_of_mem m hm')⟩
    refine map_eq_ok_iff.2 ⟨rest, within_eq_ok_iff.2 ?_, rfl⟩
    exact bind_eq_ok_iff.2 ⟨_, hcolon, passValue_loose_complete h₂ hv hr⟩
  | cons field fields ih =>
    obtain ⟨value?, draft⟩ := draft
    obtain ⟨value?', last⟩ := last
    obtain ⟨hx, hrest⟩ := h
    by_cases hname : m.name = field.name.toList
    · -- the member is this field, which has no value yet and takes that of the member
      rw [valuesOf_cons_self hname] at hx
      rw [without_cons_self hname] at hrest
      obtain ⟨rfl, hvs, x, rfl, hden⟩ := fieldTakes_cons_iff.1 hx
      refine ⟨(some x, draft), ?_, ?_, hrest⟩
      · unfold Draft.member
        rw [if_pos hname.symm]
        refine bind_eq_ok_iff.2 ⟨_, within_eq_ok_iff.2 hcolon, ?_⟩
        exact bind_eq_ok_iff.2 ⟨(x, rest), Kind.read_complete h₂ hden hr, rfl⟩
      · rw [hvs]
        exact .keep
    · -- the member is left to the other fields
      rw [valuesOf_cons_of_ne hname] at hx
      rw [without_cons_of_ne hname] at hrest
      obtain ⟨draft', hm, htakes⟩ := ih hrest
      refine ⟨(value?, draft'), ?_, hx, htakes⟩
      unfold Draft.member
      rw [if_neg fun e => hname e.symm]
      exact map_eq_ok_iff.2 ⟨_, hm, rfl⟩

/-! ## Objects -/

theorem readLaterName_sound {s rest name : List Char}
    (h : readLaterName s = .ok (some name, rest)) :
    ∃ w k, s = w ++ '"' :: (k ++ '"' :: rest) ∧ Blank w ∧ Spells k name := by
  unfold readLaterName at h
  split at h
  · simp at h
  · rename_i c r hs
    obtain ⟨w, rfl, hw⟩ := exists_of_skipBlank_eq hs
    split at h
    · rename_i hc
      obtain ⟨⟨t, r'⟩, hr, he⟩ := map_eq_ok_iff.1 h
      simp only [Prod.mk.injEq, Option.some.injEq] at he
      obtain ⟨rfl, rfl⟩ := he
      obtain ⟨k, rfl, hk⟩ := readText_eq_ok_iff.1 hr
      exact ⟨w, k, by rw [hc], hw, hk⟩
    · split at h <;> simp at h

theorem readName_sound {first : Bool} {s rest name : List Char}
    (h : readName first s = .ok (some name, rest)) :
    ∃ p w k, s = p ++ (w ++ '"' :: (k ++ '"' :: rest)) ∧ Divides first p ∧ Blank w ∧
      Spells k name := by
  unfold readName at h
  split at h
  · simp at h
  · rename_i c r hs
    obtain ⟨w, rfl, hw⟩ := exists_of_skipBlank_eq hs
    split at h
    · simp at h
    · cases first with
      | true =>
        -- the name stands right behind the bracket
        rw [if_pos rfl] at h
        split at h
        · rename_i hc
          obtain ⟨⟨t, r'⟩, hr, he⟩ := map_eq_ok_iff.1 h
          simp only [Prod.mk.injEq, Option.some.injEq] at he
          obtain ⟨rfl, rfl⟩ := he
          obtain ⟨k, rfl, hk⟩ := readText_eq_ok_iff.1 hr
          exact ⟨[], w, k, by rw [hc]; rfl, divides_first, hw, hk⟩
        · simp at h
      | false =>
        -- a comma stands between
        rw [if_neg (by simp)] at h
        split at h
        · rename_i hc
          obtain ⟨w', k, rfl, hw', hk⟩ := readLaterName_sound h
          exact ⟨w ++ [','], w', k, by simp [hc], divides_later hw, hw', hk⟩
        · simp at h

theorem readName_end_sound {first : Bool} {s rest : List Char}
    (h : readName first s = .ok (none, rest)) :
    ∃ w r, s = w ++ '}' :: r ∧ rest = '}' :: r ∧ Blank w := by
  unfold readName at h
  split at h
  · simp at h
  · rename_i c r hs
    obtain ⟨w, rfl, hw⟩ := exists_of_skipBlank_eq hs
    split at h
    · rename_i hc
      simp only [Except.ok.injEq, Prod.mk.injEq, true_and] at h
      exact ⟨w, r, by rw [hc], by rw [← h, hc], hw⟩
    · -- a reader that goes on gives a name
      have named {x : Except Stop (List Char × List Char)}
          (hx : x.map (fun p => (some p.1, p.2)) = .ok (none, rest)) : False := by
        obtain ⟨_, -, he⟩ := map_eq_ok_iff.1 hx
        simp at he
      exfalso
      split at h
      · split at h
        · exact named h
        · simp at h
      · split at h
        · unfold readLaterName at h
          split at h
          · simp at h
          · split at h
            · exact named h
            · split at h <;> simp at h
        · simp at h

theorem readName_complete {first : Bool} {p w k name : List Char} (hp : Divides first p)
    (hw : Blank w) (hk : Spells k name) (rest : List Char) :
    readName first (p ++ (w ++ '"' :: (k ++ '"' :: rest))) = .ok (some name, rest) := by
  have hread : readText (k ++ '"' :: rest) = .ok (name, rest) :=
    readText_eq_ok_iff.2 ⟨k, rfl, hk⟩
  unfold readName
  cases first with
  | true =>
    cases hp
    rw [List.nil_append, skipBlank_append hw, skipBlank_cons rfl]
    exact map_eq_ok_iff.2 ⟨_, hread, rfl⟩
  | false =>
    obtain ⟨w', rfl, hw'⟩ := hp
    rw [List.append_assoc, skipBlank_append hw', List.singleton_append, skipBlank_cons rfl]
    show readLaterName (w ++ '"' :: (k ++ '"' :: rest)) = _
    unfold readLaterName
    rw [skipBlank_append hw, skipBlank_cons rfl]
    exact map_eq_ok_iff.2 ⟨_, hread, rfl⟩

theorem readName_end {w : List Char} (hw : Blank w) (first : Bool) (rest : List Char) :
    readName first (w ++ '}' :: rest) = .ok (none, '}' :: rest) := by
  unfold readName
  rw [skipBlank_append hw, skipBlank_cons rfl]
  rfl

/-- The members that are left in front of a closing bracket: none behind white space, or what
divides the next member and the rest of them. -/
def MembersLeft (first : Bool) (ms : List Member) (s : List Char) : Prop :=
  (ms = [] ∧ Blank s) ∨
    ∃ p s', s = p ++ s' ∧ Divides first p ∧ ms ≠ [] ∧ Members ms s'

theorem membersLeft_first {ms : List Member} {s : List Char} (h : MembersLeft true ms s) :
    Members ms s := by
  rcases h with ⟨rfl, hs⟩ | ⟨p, s', rfl, rfl, -, hs⟩
  · exact .none hs
  · exact hs

/-- A member in front of those that are left. -/
theorem members_cons {m : Member} {ms : List Member} {w k w₁ w₂ s : List Char} (hw : Blank w)
    (hk : Spells k m.name) (h₁ : Blank w₁) (h₂ : Blank w₂) (h : MembersLeft false ms s) :
    Members (m :: ms) (w ++ '"' :: (k ++ '"' :: (w₁ ++ ':' :: (w₂ ++ (m.value ++ s))))) := by
  rcases h with ⟨rfl, hs⟩ | ⟨p, s', rfl, ⟨w', rfl, hw'⟩, hne, hs⟩
  · exact .one ⟨w, k, w₁, w₂, s, rfl, hw, hk, h₁, h₂, hs⟩
  · obtain ⟨m', ms, rfl⟩ := List.exists_cons_of_ne_nil hne
    have := Members.more ⟨w, k, w₁, w₂, w', rfl, hw, hk, h₁, h₂, hw'⟩ hs
    simpa using this

theorem readMembers_sound {fields : List Field} {first : Bool} {draft : Draft fields}
    {s rest : List Char} {row : Row fields}
    (h : readMembers fields first draft s = .ok (row, rest)) :
    ∃ ms body last, s = body ++ '}' :: rest ∧ MembersLeft first ms body ∧
      Takes fields draft ms last ∧ Draft.row fields last = .ok row := by
  -- Induction on the run of the reader: the members that are left make a row of the draft.
  fun_induction readMembers fields first draft s with
  | case1 => simp at h
  | case2 first draft s r hn row' hrow =>
    -- the closing bracket: the draft is complete
    obtain ⟨w, r', rfl, rfl, hw⟩ := readName_end_sound hn
    simp only [Except.ok.injEq, Prod.mk.injEq, List.tail_cons] at h
    obtain ⟨rfl, rfl⟩ := h
    exact ⟨[], w, draft, rfl, .inl ⟨rfl, hw⟩, takes_nil_iff.2 rfl, hrow⟩
  | case3 => simp at h
  | case4 => simp at h
  | case5 first draft s name r hn draft' r' hm ih =>
    -- a member, which the draft behind it has taken in
    obtain ⟨p, w, k, rfl, hp, hw, hk⟩ := readName_sound hn
    obtain ⟨w₁, w₂, v, rfl, h₁, h₂, htakes⟩ := member_sound hm
    obtain ⟨ms, body, last, rfl, hleft, hms, hrow⟩ := ih h
    have hmembers := members_cons (m := ⟨name, v⟩) hw hk h₁ h₂ hleft
    refine ⟨⟨name, v⟩ :: ms, _, last, ?_, .inr ⟨p, _, rfl, hp, by simp, hmembers⟩,
      htakes ms last hms, hrow⟩
    simp

/-- The reader of members, without the proofs that it carries for its termination. -/
theorem readMembers_eq (fields : List Field) (first : Bool) (draft : Draft fields)
    (s : List Char) :
    readMembers fields first draft s =
      match readName first s with
      | .error stop => .error (.stopped stop)
      | .ok (none, rest) =>
        match Draft.row fields draft with
        | .ok row => .ok (row, rest.tail)
        | .error name => .error (.unplaced (.missingField name) rest)
      | .ok (some name, rest) =>
        match Draft.member fields draft name rest with
        | .error failure => .error failure
        | .ok (draft, rest) => readMembers fields false draft rest := by
  rw [readMembers]
  split
  · rename_i hname
    exact hname ▸ rfl
  · rename_i hname
    exact hname ▸ rfl
  · rename_i hname
    rw [hname]
    dsimp only
    split
    · rename_i hmember
      rw [hmember]
    · rename_i hmember
      rw [hmember]

/-- When the object closes, the draft is a row. -/
theorem readMembers_end {fields : List Field} {first : Bool} {draft : Draft fields}
    {w : List Char} {row : Row fields} (hw : Blank w) (h : Draft.row fields draft = .ok row)
    (rest : List Char) : readMembers fields first draft (w ++ '}' :: rest) = .ok (row, rest) := by
  rw [readMembers_eq, readName_end hw first rest]
  dsimp only
  rw [h]
  rfl

theorem readMembers_step {fields : List Field} {first : Bool} {draft draft' : Draft fields}
    {s name r r' : List Char} (hn : readName first s = .ok (some name, r))
    (hm : Draft.member fields draft name r = .ok (draft', r')) :
    readMembers fields first draft s = readMembers fields false draft' r' := by
  rw [readMembers_eq, hn]
  dsimp only
  rw [hm]

/-- A member is read and taken in, and the reader goes on behind the white space that follows. -/
theorem readMembers_cons {fields : List Field} {first : Bool} {draft last : Draft fields}
    {m : Member} {ms : List Member} {p s rest : List Char} (hp : Divides first p)
    (hs : m.IsWritten s) (h : Takes fields draft (m :: ms) last) (hr : EndsNumber rest) :
    ∃ w' draft', Blank w' ∧ Takes fields draft' ms last ∧
      readMembers fields first draft (p ++ (s ++ rest)) =
        readMembers fields false draft' (w' ++ rest) := by
  obtain ⟨w, k, w₁, w₂, w', rfl, hw, hk, h₁, h₂, hw'⟩ := hs
  obtain ⟨draft', hm, htakes⟩ := member_complete h₁ h₂ (hr.blank_append hw') h
  refine ⟨w', draft', hw', htakes, ?_⟩
  have he : p ++ (w ++ '"' :: (k ++ '"' :: (w₁ ++ ':' :: (w₂ ++ (m.value ++ w')))) ++ rest) =
      p ++ (w ++ '"' :: (k ++ '"' :: (w₁ ++ ':' :: (w₂ ++ (m.value ++ (w' ++ rest)))))) := by simp
  rw [he]
  exact readMembers_step (readName_complete hp hw hk _) hm

/-- **Members are taken in one after the other**, by induction on them: the reader comes to stand
behind the last, with what they have made of the draft. -/
theorem readMembers_run {fields : List Field} {ms : List Member} {s : List Char}
    (hs : Members ms s) {first : Bool} {draft last : Draft fields} {p rest : List Char}
    (hp : Divides first p) (hne : ms ≠ []) (h : Takes fields draft ms last)
    (hr : EndsNumber rest) :
    ∃ w, Blank w ∧ readMembers fields first draft (p ++ (s ++ rest)) =
      readMembers fields false last (w ++ rest) := by
  induction hs generalizing first draft p with
  | none hw => exact absurd rfl hne
  | one hm =>
    -- no members are left, so that the draft is as they make it
    obtain ⟨w', draft', hw', htakes, he⟩ := readMembers_cons hp hm h hr
    obtain rfl := takes_nil_iff.1 htakes
    exact ⟨w', hw', he⟩
  | @more m m' ms s s' hm _ ih =>
    -- a comma follows the member, and divides the next one from it
    obtain ⟨w', draft', hw', htakes, he⟩ :=
      readMembers_cons hp hm h (endsNumber_comma (s' ++ rest))
    obtain ⟨w, hw, hih⟩ := ih (divides_later hw') (by simp) htakes
    refine ⟨w, hw, ?_⟩
    rw [List.append_assoc, List.cons_append, he, ← hih]
    simp

/-- The members of an object are taken in, and the reader comes to stand in front of its closing
bracket. -/
theorem readMembers_object {fields : List Field} {ms : List Member} {s : List Char}
    (hs : Members ms s) {draft last : Draft fields} (h : Takes fields draft ms last)
    (rest : List Char) :
    ∃ first w, Blank w ∧ readMembers fields true draft (s ++ '}' :: rest) =
      readMembers fields first last (w ++ '}' :: rest) := by
  by_cases hne : ms = []
  · -- an object without members
    subst hne
    obtain rfl := takes_nil_iff.1 h
    cases hs with
    | none hw => exact ⟨true, s, hw, rfl⟩
  · obtain ⟨w, hw, he⟩ := readMembers_run hs divides_first hne h (endsNumber_close .object rest)
    exact ⟨false, w, hw, he⟩

/-- **A record is read from an object exactly if the members hold its fields.** -/
theorem readObject_eq_ok_iff {schema : Schema} {s rest : List Char} {row : Row schema.fields} :
    schema.readObject s = .ok (row, rest) ↔
      ∃ ms body, s = body ++ '}' :: rest ∧ Members ms body ∧ MembersHold schema.fields ms row := by
  rw [Schema.readObject, mapError_eq_ok_iff]
  constructor
  · intro h
    obtain ⟨ms, body, last, hs, hleft, htakes, hrow⟩ := readMembers_sound h
    exact ⟨ms, body, hs, membersLeft_first hleft, membersHold_iff_takes.2 ⟨last, htakes, hrow⟩⟩
  · rintro ⟨ms, body, rfl, hbody, hhold⟩
    obtain ⟨last, htakes, hrow⟩ := membersHold_iff_takes.1 hhold
    obtain ⟨first, w, hw, he⟩ := readMembers_object hbody htakes rest
    rw [he]
    exact readMembers_end hw hrow rest

end ChainBoard.Json
