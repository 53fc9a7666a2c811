import ChainBoard.Proofs.Explorer.Loader
import ChainBoard.Proofs.Json.Position

/-!
# Other members of a report do not matter

A member that is no field of a report is passed, whatever its value is. With such a member in front
of the others an object holds the same report, or it is refused for the same cause and at the same
character, behind the bytes of the member. The reader is the same behind the member as it was in
front of it: nothing of the draft has changed, and a name that follows a comma is read like the
first.

## Main definitions

* `Json.Refusal.IsMoved`: the same refusal so many bytes further on
* `Feed.schema`: how the reports of a feed are written

## Main results

* `Json.Draft.member_of_other`: a member that is no field leaves a draft as it is
* `Json.readMembers_insert`: such a member in front of the others is passed
* `Feed.parse_insert_other`: a report with such a member is read or refused as it was
-/

namespace ChainBoard

namespace Json

open Text.Utf8 (byteSize)

/-! ## Members that are no fields -/

/-- A member that is no field leaves a draft as it is. -/
theorem Draft.member_of_other {fields : List Field} (draft : Draft fields) {name : List Char}
    (h : ∀ field ∈ fields, field.name.toList ≠ name) (s : List Char) :
    Draft.member fields draft name s =
      (within (Stage.readColon s >>= passValue .loose)).map fun rest => (draft, rest) := by
  induction fields with
  | nil => rfl
  | cons field fields ih =>
    obtain ⟨value?, draft⟩ := draft
    rw [List.forall_mem_cons] at h
    unfold Draft.member
    rw [if_neg h.1, ih draft h.2]
    cases within (Stage.readColon s >>= passValue .loose) <;> rfl

theorem Draft.member_other_complete {fields : List Field} (draft : Draft fields) {m : Member}
    {w₁ w₂ rest : List Char} (h : ∀ field ∈ fields, field.name.toList ≠ m.name)
    (hv : IsValue m.value) (h₁ : Blank w₁) (h₂ : Blank w₂) (hr : EndsNumber rest) :
    Draft.member fields draft m.name (w₁ ++ ':' :: (w₂ ++ (m.value ++ rest))) =
      .ok (draft, rest) := by
  have hcolon : Stage.readColon (w₁ ++ ':' :: (w₂ ++ (m.value ++ rest))) =
      .ok (w₂ ++ (m.value ++ rest)) := Stage.readColon_eq_ok_iff.2 ⟨w₁, rfl, h₁⟩
  have hpass : (Stage.readColon (w₁ ++ ':' :: (w₂ ++ (m.value ++ rest))) >>= passValue .loose) =
      .ok rest := bind_eq_ok_iff.2 ⟨_, hcolon, passValue_loose_complete h₂ hv hr⟩
  rw [Draft.member_of_other draft h, hpass]
  rfl

/-- A name behind a comma is read like the first name. -/
theorem readName_comma {w w' : List Char} (hw : Blank w) (hw' : Blank w') (rest : List Char) :
    readName false (w ++ ',' :: (w' ++ '"' :: rest)) = readName true (w' ++ '"' :: rest) := by
  have hlater : readLaterName (w' ++ '"' :: rest) = readName true (w' ++ '"' :: rest) := by
    rw [readLaterName, readName, skipBlank_append hw', skipBlank_cons rfl]
    rfl
  rw [← hlater, readName, skipBlank_append hw, skipBlank_cons rfl]
  rfl

/-- The next name decides how the members are read on. -/
theorem readMembers_congr {fields : List Field} {first first' : Bool} {draft : Draft fields}
    {s s' : List Char} (h : readName first s = readName first' s') :
    readMembers fields first draft s = readMembers fields first' draft s' := by
  rw [readMembers_eq, readMembers_eq, h]

/-- A member that is no field is passed in front of the others. -/
theorem readMembers_insert {fields : List Field} (draft : Draft fields) {m : Member}
    {written w : List Char} (hm : m.IsWritten written) (hv : IsValue m.value)
    (h : ∀ field ∈ fields, field.name.toList ≠ m.name) (hw : Blank w) (rest : List Char) :
    readMembers fields true draft (written ++ ',' :: (w ++ '"' :: rest)) =
      readMembers fields true draft (w ++ '"' :: rest) := by
  obtain ⟨w₀, k, w₁, w₂, w₃, rfl, hw₀, hk, h₁, h₂, h₃⟩ := hm
  have hends : EndsNumber (w₃ ++ ',' :: (w ++ '"' :: rest)) :=
    (endsNumber_comma _).blank_append h₃
  have hmember := Draft.member_other_complete draft h hv h₁ h₂ hends
  have hname := readName_complete divides_first hw₀ hk
    (w₁ ++ ':' :: (w₂ ++ (m.value ++ (w₃ ++ ',' :: (w ++ '"' :: rest)))))
  have hstep := readMembers_step hname hmember
  -- behind the member stands its comma, and the draft is the one in front of it
  simp only [List.nil_append, List.append_assoc, List.cons_append] at hstep ⊢
  rw [hstep]
  exact readMembers_congr (readName_comma h₃ hw rest)

/-- Behind white space and its bracket an object is read as a record. -/
theorem Schema.read_object (schema : Schema) {w : List Char} (hw : Blank w) (s : List Char) :
    schema.read (w ++ '{' :: s) = schema.readObject s := by
  have hseen : Seen.read (w ++ '{' :: s) = .ok (.object, '{' :: s) := by
    rw [Seen.read_blank_append hw, Seen.read, skipBlank_cons rfl]
    rfl
  rw [Schema.read, hseen]
  rfl

/-- A whole text is read as if a member that is no field were not there. -/
theorem Schema.readWhole_insert (schema : Schema) {m : Member} {w written w' : List Char}
    (hw : Blank w) (hm : m.IsWritten written) (hv : IsValue m.value)
    (h : ∀ field ∈ schema.fields, field.name.toList ≠ m.name) (hw' : Blank w')
    (rest : List Char) :
    schema.readWhole (w ++ '{' :: (written ++ ',' :: (w' ++ '"' :: rest))) =
      schema.readWhole (w ++ '{' :: (w' ++ '"' :: rest)) := by
  rw [readWhole, readWhole, schema.read_object hw, schema.read_object hw, readObject, readObject,
    readMembers_insert _ hm hv h hw' rest]

/-! ## Refusals further on -/

/-- The refusal of another text, in the same words and at a place so many bytes further on. -/
def Refusal.IsMoved (refusal : Refusal) (text : List Char) (refusal' : Refusal)
    (text' : List Char) (count : Nat) : Prop :=
  refusal'.cause = refusal.cause ∧
    ∃ place place' : Place, refusal.message = refusal.cause.message ++ place.describe ∧
      refusal'.message = refusal.cause.message ++ place'.describe ∧
      place'.offset text' = place.offset text + count

/-- A stop is moved by the bytes that one text has more than the other. -/
theorem Stop.isMoved {stop : Stop} {text text' : List Char} {count : Nat}
    (h : stop.left ≤ byteSize text) (hsize : byteSize text' = byteSize text + count) :
    (stop.refusal text).IsMoved text (stop.refusal text') text' count := by
  refine ⟨rfl, stop.place text, stop.place text', rfl, rfl, ?_⟩
  have hplace : (stop.place text).offset text + stop.left = byteSize text := Stop.offset_place h
  have hplace' : (stop.place text').offset text' + stop.left = byteSize text' :=
    Stop.offset_place (by omega)
  omega

end Json

/-! ## Reports -/

namespace Feed

/-- How the reports of a feed are written. -/
def schema : Feed → Json.Schema
  | tip => TipReport.schema
  | coins => CoinReport.schema

/-- The report with the values of its fields. -/
def ofRow : (feed : Feed) → Json.Row feed.schema.fields → feed.Report
  | tip => TipReport.ofRow
  | coins => CoinReport.ofRow

theorem parse_eq (feed : Feed) (text : List Char) :
    feed.parse (String.ofList text) =
      ((feed.schema.readWhole text).mapError (Json.Stop.refusal · text)).map feed.ofRow := by
  cases feed with
  | tip =>
    show (TipReport.schema.parse (String.ofList text).toList).map TipReport.ofRow = _
    rw [String.toList_ofList]
    rfl
  | coins =>
    show (CoinReport.schema.parse (String.ofList text).toList).map CoinReport.ofRow = _
    rw [String.toList_ofList]
    rfl

open Json (Blank IsValue Member)
open Text.Utf8 (byteSize)

/-- **A member that is no field does not matter.** In front of the members of an object, any member
whose name is not that of a field leaves the report as it is, and a refusal too: the words are the
same, and the place is moved by the bytes of the member and its comma. -/
theorem parse_insert_other (feed : Feed) {m : Member} {w written w' : List Char} (hw : Blank w)
    (hm : m.IsWritten written) (hv : IsValue m.value)
    (hother : ∀ field ∈ feed.schema.fields, field.name.toList ≠ m.name) (hw' : Blank w')
    (rest : List Char) :
    let text := w ++ '{' :: (w' ++ '"' :: rest)
    let text' := w ++ '{' :: (written ++ ',' :: (w' ++ '"' :: rest))
    (∀ report, feed.parse (String.ofList text) = .ok report →
      feed.parse (String.ofList text') = .ok report) ∧
    ∀ refusal, feed.parse (String.ofList text) = .error refusal →
      ∃ refusal', feed.parse (String.ofList text') = .error refusal' ∧
        refusal.IsMoved text refusal' text' (byteSize (written ++ [','])) := by
  intro text text'
  have hread : feed.schema.readWhole text' = feed.schema.readWhole text :=
    feed.schema.readWhole_insert hw hm hv hother hw' rest
  have hsize : byteSize text' = byteSize text + byteSize (written ++ [',']) := by
    simp only [text, text', Text.Utf8.byteSize_append, Text.Utf8.byteSize_cons,
      Text.Utf8.byteSize_nil]
    omega
  -- both readers have one result, of which only the place of a stop depends on the text
  rw [parse_eq, parse_eq, hread]
  cases hresult : feed.schema.readWhole text with
  | ok row =>
    refine ⟨fun report hreport => hreport, ?_⟩
    rintro refusal ⟨⟩
  | error stop =>
    have hleft : stop.left ≤ byteSize text := feed.schema.readWhole_stopsIn text stop hresult
    refine ⟨?_, ?_⟩
    · rintro report ⟨⟩
    · rintro refusal ⟨⟩
      exact ⟨stop.refusal text', rfl, Json.Stop.isMoved hleft hsize⟩

/-- A height below zero on the second line of a report is refused nine bytes further on behind a
member with a nested value. -/
theorem parse_insert_other_below_zero :
    let text := "\x7b\n\"height\":-1\x7d".toList
    let text' := "\x7b\"x\":[\x7b\x7d],\n\"height\":-1\x7d".toList
    ∃ refusal refusal', tip.parse (String.ofList text) = .error refusal ∧
      tip.parse (String.ofList text') = .error refusal' ∧
      refusal.IsMoved text refusal' text' 9 := by
  intro text text'
  have hnested : Json.Written (.items .list) "\x7b\x7d".toList :=
    .one (.element Blank.nil (.empty (b := .object) Blank.nil) Blank.nil)
  have hvalue : IsValue "[\x7b\x7d]".toList := .filled (b := .list) hnested
  have hname : Json.Spells ['x'] ['x'] := .plain ⟨by decide, by decide, by decide⟩ .nil
  have hm : Member.IsWritten ⟨['x'], "[\x7b\x7d]".toList⟩ "\"x\":[\x7b\x7d]".toList :=
    ⟨[], ['x'], [], [], [], rfl, Blank.nil, hname, Blank.nil, Blank.nil, Blank.nil⟩
  have hfeed : Blank ['\n'] := by simp [Blank]
  have hread : TipReport.schema.readWhole text = .error ⟨.belowZero 1, 1⟩ := by decide +kernel
  have hrefused : tip.parse (String.ofList text) =
      .error (Json.Stop.refusal ⟨.belowZero 1, 1⟩ text) := by
    rw [parse_eq, show tip.schema.readWhole text = _ from hread]
    rfl
  have h := (parse_insert_other tip Blank.nil hm hvalue (by decide) hfeed
    "height\":-1\x7d".toList).2 _ hrefused
  obtain ⟨refusal', hrefusal', hmoved⟩ := h
  exact ⟨_, refusal', hrefused, hrefusal', hmoved⟩

end Feed

end ChainBoard
