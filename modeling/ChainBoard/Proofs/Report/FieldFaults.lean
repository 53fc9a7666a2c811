import Mathlib.Data.List.Find
import ChainBoard.Proofs.Report.Format
import ChainBoard.Proofs.Report.OtherMembers

/-!
# Missing and repeated fields

Members that are acceptable one by one may still be too few or too many: an object may lack a field,
or give one twice. Both are seen in the draft that the members make of the empty one, where a field
has a value exactly if a member with its name was met, in whatever order the members stand. Null
counts as a value where it is accepted.

A repeated field is refused at its name, so that nothing behind the name matters. A missing field is
noticed at the closing bracket, so that nothing behind the bracket matters; of several the first in
the order of the record is named.

## Main definitions

* `Json.MembersFit`: members that are acceptable one by one
* `Json.firstMissing?`: the first of some names that no member has
* `Json.passedBehind`: what a refusal without a place of its own passes
* `Feed.required`: the fields that a report must have
* `Feed.RefusedAt`: the words with which a text is refused, and the place that they name

## Main results

* `Json.exists_takes`: members that fit make something of the empty draft
* `Json.Draft.member_of_met`, `Json.Draft.row_of_missing`: what the draft tells
* `Feed.parse_missing_field`: an object that lacks a field
* `Feed.parse_repeated_field`: an object that repeats a field
-/

namespace ChainBoard

namespace Json

/-! ## Members that fit -/

/-- The members of an object fit the fields of a record: a field stands nowhere, or once with a value
that denotes something in it, and members with other names have any values. -/
structure MembersFit (fields : List Field) (ms : List Member) : Prop where
  known : ∀ field ∈ fields, valuesOf field.name.toList ms = [] ∨
    Once field.name ms fun v => ∃ x, field.kind.Denotes v x
  others : OthersAreValues (fields.map (·.name)) ms

/-- Leaving out a name does not matter to the names of other fields. -/
theorem valuesOf_without_of_mem {fields : List Field} {other name : String}
    (hother : other ∉ fields.map (·.name)) (hname : name ∈ fields.map (·.name))
    (ms : List Member) :
    valuesOf name.toList (without other.toList ms) = valuesOf name.toList ms := by
  apply valuesOf_without
  intro e
  exact ne_of_mem_of_not_mem hname hother (String.toList_inj.1 e)

theorem MembersFit.tail {field : Field} {fields : List Field} {ms : List Member}
    (hname : field.name ∉ fields.map (·.name)) (h : MembersFit (field :: fields) ms) :
    MembersFit fields (without field.name.toList ms) := by
  refine ⟨?_, othersAreValues_without.2 h.others⟩
  intro field' hfield'
  have hname' : field'.name ∈ fields.map (·.name) := List.mem_map_of_mem hfield'
  rw [Once, valuesOf_without_of_mem hname hname']
  exact h.known field' (List.mem_cons_of_mem field hfield')

/-- **Members that fit are taken into the empty draft.** -/
theorem exists_takes {fields : List Field} {ms : List Member}
    (hnames : (fields.map (·.name)).Nodup) (h : MembersFit fields ms) :
    ∃ last, Takes fields (Draft.empty fields) ms last := by
  -- Induction on the fields: each takes its own members and leaves the others to those behind it,
  -- for which they still fit, since no two fields have one name.
  induction fields generalizing ms with
  | nil => exact ⟨(), fun m hm => h.others m hm List.not_mem_nil⟩
  | cons field fields ih =>
    rw [List.map_cons, List.nodup_cons] at hnames
    obtain ⟨last, hlast⟩ := ih hnames.2 (h.tail hnames.1)
    rcases h.known field List.mem_cons_self with hnil | ⟨v, hv, x, hx⟩
    · refine ⟨(none, last), ?_, hlast⟩
      rw [hnil]
      exact .keep
    · refine ⟨(some x, last), ?_, hlast⟩
      rw [hv]
      exact .take hx

/-! ## Fields that are repeated -/

/-- A field that was met is refused, wherever its name stands. -/
theorem Draft.member_of_met {fields : List Field} {draft last : Draft fields} {ms : List Member}
    {field : Field} (h : Takes fields draft ms last) (hfield : field ∈ fields)
    (hmet : valuesOf field.name.toList ms ≠ []) (s : List Char) :
    Draft.member fields last field.name.toList s =
      .error (.unplaced (.repeatedField field.name) s) := by
  -- Induction on the fields, up to the one that has the name.
  induction fields generalizing ms with
  | nil => cases hfield
  | cons head fields ih =>
    obtain ⟨value?, draft⟩ := draft
    obtain ⟨value?', last⟩ := last
    obtain ⟨hvalue, htakes⟩ := h
    unfold Draft.member
    by_cases hname : head.name = field.name
    · -- the draft has a value for the field, whatever the value is
      obtain ⟨v, vs, hvs⟩ := List.exists_cons_of_ne_nil hmet
      rw [hname, hvs] at hvalue
      obtain ⟨-, -, x, rfl, -⟩ := fieldTakes_cons_iff.1 hvalue
      rw [if_pos (congrArg String.toList hname), hname]
    · have hne : field.name.toList ≠ head.name.toList := fun e => hname (String.toList_inj.1 e).symm
      have hmem : field ∈ fields := by
        rcases List.mem_cons.1 hfield with rfl | hmem
        · exact absurd rfl hname
        · exact hmem
      rw [← valuesOf_without hne ms] at hmet
      rw [if_neg hne.symm, ih htakes hmem hmet]
      rfl

/-- A name that was met stops the reader of members, whatever stands behind it. -/
theorem readMembers_repeated {fields : List Field} {last : Draft fields} {ms : List Member}
    {field : Field} {body w k : List Char} (hbody : Members ms body)
    (h : Takes fields (Draft.empty fields) ms last) (hfield : field ∈ fields)
    (hmet : valuesOf field.name.toList ms ≠ []) (hw : Blank w) (hk : Spells k field.name.toList)
    (rest : List Char) :
    readMembers fields true (Draft.empty fields)
        (body ++ ',' :: (w ++ '"' :: (k ++ '"' :: rest))) =
      .error (.unplaced (.repeatedField field.name) rest) := by
  have hne : ms ≠ [] := by
    rintro rfl
    exact hmet rfl
  -- the comma ends a number in front of it, so that the members are read as they are in an object
  obtain ⟨w', hw', hrun⟩ := readMembers_run hbody divides_first hne h
    (endsNumber_comma (w ++ '"' :: (k ++ '"' :: rest)))
  have hname := readName_complete (divides_later hw') hw hk rest
  rw [List.append_assoc, List.singleton_append] at hname
  rw [List.nil_append] at hrun
  rw [hrun, readMembers_eq, hname]
  dsimp only
  rw [Draft.member_of_met h hfield hmet]

/-! ## Fields that are missing -/

/-- The names of the fields that must be there, in their order. -/
def requiredNames (fields : List Field) : List String :=
  (fields.filter (·.kind.absent?.isNone)).map (·.name)

theorem requiredNames_subset (fields : List Field) :
    requiredNames fields ⊆ fields.map (·.name) :=
  List.map_subset _ (List.filter_subset_self fields)

/-- The first of some names that no member has. -/
def firstMissing? (names : List String) (ms : List Member) : Option String :=
  names.find? fun name => valuesOf name.toList ms = []

theorem firstMissing?_cons_of_missing {name : String} {ms : List Member}
    (h : valuesOf name.toList ms = []) (names : List String) :
    firstMissing? (name :: names) ms = some name :=
  List.find?_cons_of_pos (decide_eq_true h)

theorem firstMissing?_cons_of_met {name : String} {ms : List Member}
    (h : valuesOf name.toList ms ≠ []) (names : List String) :
    firstMissing? (name :: names) ms = firstMissing? names ms :=
  List.find?_cons_of_neg (by simpa using h)

/-- Which name is the first depends only on which of the names members have. -/
theorem firstMissing?_congr {names : List String} {ms ms' : List Member}
    (h : ∀ name ∈ names, valuesOf name.toList ms = [] ↔ valuesOf name.toList ms' = []) :
    firstMissing? names ms = firstMissing? names ms' :=
  List.find?_congr fun name hname => decide_eq_decide.2 (h name hname)

/-- The first of the required fields that was not met keeps the draft from being a row. -/
theorem Draft.row_of_missing {fields : List Field} {last : Draft fields} {ms : List Member}
    {name : String} (hnames : (fields.map (·.name)).Nodup)
    (h : Takes fields (Draft.empty fields) ms last)
    (hfirst : firstMissing? (requiredNames fields) ms = some name) :
    Draft.row fields last = .error name := by
  -- Induction on the fields: the members that a field leaves have the same names for those behind
  -- it, so that the first missing one is the same.
  induction fields generalizing ms with
  | nil => cases hfirst
  | cons field fields ih =>
    obtain ⟨value?, last⟩ := last
    obtain ⟨hvalue, htakes⟩ := h
    rw [List.map_cons, List.nodup_cons] at hnames
    -- a field with a value leaves the fault to the fields behind it
    have behind {x : field.kind.Carrier} (hx : (value? <|> field.kind.absent?) = some x)
        (hfirst : firstMissing? (requiredNames fields) ms = some name) :
        Draft.row (field :: fields) (value?, last) = .error name := by
      have hrest : Draft.row fields last = .error name := by
        apply ih hnames.2 htakes
        rw [← hfirst]
        apply firstMissing?_congr
        intro other hother
        rw [valuesOf_without_of_mem hnames.1 (requiredNames_subset fields hother)]
      simp only [Draft.row, hx, hrest]
      rfl
    cases ha : field.kind.absent? with
    | some x =>
      -- the field need not be there
      have hskip : requiredNames (field :: fields) = requiredNames fields := by
        simp [requiredNames, ha]
      rw [hskip] at hfirst
      cases value? with
      | none => exact behind ha hfirst
      | some y => exact behind rfl hfirst
    | none =>
      have hhead : requiredNames (field :: fields) = field.name :: requiredNames fields := by
        simp [requiredNames, ha]
      rw [hhead] at hfirst
      by_cases hnil : valuesOf field.name.toList ms = []
      · -- the field is the first that is missing
        rw [firstMissing?_cons_of_missing hnil] at hfirst
        obtain rfl := Option.some.inj hfirst
        rw [hnil] at hvalue
        obtain rfl := fieldTakes_nil_iff.1 hvalue
        simp [Draft.row, ha]
      · rw [firstMissing?_cons_of_met hnil] at hfirst
        obtain ⟨v, vs, hvs⟩ := List.exists_cons_of_ne_nil hnil
        rw [hvs] at hvalue
        obtain ⟨-, -, x, rfl, -⟩ := fieldTakes_cons_iff.1 hvalue
        exact behind rfl hfirst

/-- A missing field stops the reader of members in front of the closing bracket. -/
theorem readMembers_missing {fields : List Field} {last : Draft fields} {ms : List Member}
    {name : String} {body : List Char} (hnames : (fields.map (·.name)).Nodup)
    (hbody : Members ms body) (h : Takes fields (Draft.empty fields) ms last)
    (hfirst : firstMissing? (requiredNames fields) ms = some name) (rest : List Char) :
    readMembers fields true (Draft.empty fields) (body ++ '}' :: rest) =
      .error (.unplaced (.missingField name) ('}' :: rest)) := by
  obtain ⟨first, w, hw, hrun⟩ := readMembers_object hbody h rest
  rw [hrun, readMembers_eq, readName_end hw first rest]
  dsimp only
  rw [Draft.row_of_missing hnames h hfirst]

/-! ## The place of the refusal -/

/-- What is passed behind a fault of an object that has no place of its own: white space, and the
closing bracket if that comes next. -/
def passedBehind (rest : List Char) : List Char :=
  rest.takeWhile isBlank ++ if (rest.dropWhile isBlank).head? = some '}' then ['}'] else []

theorem passedBehind_append_leave (rest : List Char) :
    passedBehind rest ++ leave .object rest = rest := by
  have hrest : rest.takeWhile isBlank ++ rest.dropWhile isBlank = rest :=
    List.takeWhile_append_dropWhile
  rw [passedBehind, leave, skipBlank]
  cases hs : rest.dropWhile isBlank with
  | nil =>
    rw [hs] at hrest
    simpa using hrest
  | cons c s =>
    rw [hs] at hrest
    by_cases hc : c = '}'
    · subst hc
      simpa [Bracket.close] using hrest
    · simpa [Bracket.close, hc] using hrest

/-- A fault among the members of an object stops the reader of a whole text. -/
theorem Schema.readWhole_of_readMembers (schema : Schema) {w s : List Char} {failure : Failure}
    (hw : Blank w)
    (h : readMembers schema.fields true (Draft.empty schema.fields) s = .error failure) :
    schema.readWhole (w ++ '{' :: s) = .error (failure.stop .object) := by
  rw [readWhole, schema.read_object hw, readObject, h]
  rfl

end Json

/-! ## Reports -/

namespace Feed

open Json (Blank IsValue Member Members MembersFit Place Spells valuesOf)

/-- The names of the fields that a report must have, in their order. -/
def required : Feed → List String
  | tip => ["height", "blockid", "difficulty"]
  | coins => ["time", "spendabletokens", "spendablelockedtokens", "totalcustodyfeedebt",
      "spenttokens", "paidcustodyfees"]

theorem requiredNames_schema (feed : Feed) :
    Json.requiredNames feed.schema.fields = feed.required := by
  cases feed <;> rfl

theorem nodup_names (feed : Feed) : (feed.schema.fields.map (·.name)).Nodup := by
  cases feed <;> decide

/-- A text is refused with words and a place, which the message names behind the words. -/
def RefusedAt (feed : Feed) (text : List Char) (words : String) (place : Place) : Prop :=
  ∃ refusal, feed.parse (String.ofList text) = .error refusal ∧ refusal.place? = some place ∧
    refusal.message = words ++ " at line " ++ toString place.line ++ " column " ++
      toString place.column

/-- A stop in front of what is left refuses a report behind what was read. -/
theorem parse_of_stop_before (feed : Feed) {front rest : List Char} {cause : Json.Cause}
    (h : feed.schema.readWhole (front ++ rest) = .error (Json.Stop.before cause rest)) :
    feed.parse (String.ofList (front ++ rest)) = .error ⟨cause, some (Place.behind front)⟩ := by
  rw [parse_eq, h, ← Json.Stop.refusal_before cause front rest]
  rfl

/-- The words are those of the cause. -/
theorem refusedAt_of_parse {feed : Feed} {text : List Char} {cause : Json.Cause} {place : Place}
    (h : feed.parse (String.ofList text) = .error ⟨cause, some place⟩) :
    feed.RefusedAt text cause.message place := by
  refine ⟨_, h, rfl, ?_⟩
  simp [Json.Refusal.message, Place.describe, String.append_assoc]

/-- The first field that is missing is named behind the object. -/
theorem refusedAt_of_first_missing (feed : Feed) {ms : List Member} {w body : List Char}
    (hw : Blank w) (hbody : Members ms body) (hfit : MembersFit feed.schema.fields ms)
    {name : String}
    (hfirst : Json.firstMissing? feed.required ms = some name) (rest : List Char) :
    feed.RefusedAt (w ++ '{' :: (body ++ '}' :: rest)) ("missing field `" ++ name ++ "`")
      (Place.behind (w ++ '{' :: (body ++ ['}']))) := by
  obtain ⟨last, hlast⟩ := Json.exists_takes feed.nodup_names hfit
  rw [← feed.requiredNames_schema] at hfirst
  have hread : feed.schema.readWhole (w ++ '{' :: (body ++ '}' :: rest)) =
      .error (Json.Stop.before (.missingField name) rest) :=
    feed.schema.readWhole_of_readMembers hw
      (Json.readMembers_missing feed.nodup_names hbody hlast hfirst rest)
  have htext : w ++ '{' :: (body ++ '}' :: rest) = (w ++ '{' :: (body ++ ['}'])) ++ rest := by simp
  rw [htext] at hread ⊢
  have hwords : Json.Cause.message (.missingField name) = "missing field `" ++ name ++ "`" := rfl
  rw [← hwords]
  exact refusedAt_of_parse (feed.parse_of_stop_before hread)

/-- **A missing field is named in the order of the report, whatever the order of the members.** An
object whose members fit the fields of a report, but for at least one that must be there, is refused
in words that name the first such field, just behind its closing bracket and whatever follows. Any
other object with members for the same fields is refused in the same words. -/
theorem parse_missing_field (feed : Feed) {ms : List Member} {w body : List Char} (hw : Blank w)
    (hbody : Members ms body) (hfit : MembersFit feed.schema.fields ms)
    (hmissing : ∃ name ∈ feed.required, valuesOf name.toList ms = []) (rest : List Char) :
    ∃ name, Json.firstMissing? feed.required ms = some name ∧
      feed.RefusedAt (w ++ '{' :: (body ++ '}' :: rest)) ("missing field `" ++ name ++ "`")
        (Place.behind (w ++ '{' :: (body ++ ['}']))) ∧
      ∀ ms' w' body' rest', Blank w' → Members ms' body' → MembersFit feed.schema.fields ms' →
        (∀ field ∈ feed.schema.fields,
          valuesOf field.name.toList ms' = [] ↔ valuesOf field.name.toList ms = []) →
        feed.RefusedAt (w' ++ '{' :: (body' ++ '}' :: rest')) ("missing field `" ++ name ++ "`")
          (Place.behind (w' ++ '{' :: (body' ++ ['}']))) := by
  obtain ⟨missing, hmem, hnone⟩ := hmissing
  have hsome : (Json.firstMissing? feed.required ms).isSome :=
    List.find?_isSome.2 ⟨missing, hmem, decide_eq_true hnone⟩
  obtain ⟨name, hfirst⟩ := Option.isSome_iff_exists.1 hsome
  refine ⟨name, hfirst, feed.refusedAt_of_first_missing hw hbody hfit hfirst rest, ?_⟩
  intro ms' w' body' rest' hw' hbody' hfit' hsame
  refine feed.refusedAt_of_first_missing hw' hbody' hfit' ?_ rest'
  -- the same fields are missing, so that the same is the first
  rw [← hfirst]
  apply Json.firstMissing?_congr
  intro other hother
  rw [← feed.requiredNames_schema] at hother
  obtain ⟨field, hfield, rfl⟩ := List.mem_map.1 (Json.requiredNames_subset _ hother)
  exact hsame field hfield

/-- Of two fields that an object lacks the first in the order of the report is named, behind a member
with a nested value and in front of another bracket. -/
theorem parse_missing_field_height :
    let ms : List Member := [⟨['x'], "[\x7b\x7d]".toList⟩, ⟨"difficulty".toList, ['7']⟩]
    let body := "\"x\":[\x7b\x7d],\"difficulty\":7".toList
    Members ms body ∧ MembersFit tip.schema.fields ms ∧
      tip.RefusedAt ('{' :: (body ++ ['}', '}'])) "missing field `height`" ⟨1, 25⟩ := by
  intro ms body
  have hnested : Json.Written (.items .list) "\x7b\x7d".toList :=
    .one (.element Blank.nil (.empty (b := .object) Blank.nil) Blank.nil)
  have hvalue : IsValue "[\x7b\x7d]".toList := .filled (b := .list) hnested
  have hseven : Json.IsAmount ['7'] 7 :=
    .inr ⟨⟨⟨by decide, List.forall_mem_singleton.2 rfl⟩, by decide⟩, rfl, by decide⟩
  have hother : Member.IsWritten ⟨['x'], "[\x7b\x7d]".toList⟩ "\"x\":[\x7b\x7d]".toList :=
    Member.isWritten_of_isPlain (by decide)
  have hdifficulty : Member.IsWritten ⟨"difficulty".toList, ['7']⟩ "\"difficulty\":7".toList :=
    Member.isWritten_of_isPlain (by decide)
  have hbody : Members ms body := .more hother (.one hdifficulty)
  have hfit : MembersFit tip.schema.fields ms := by
    refine ⟨?_, ?_⟩
    · intro field hfield
      simp only [schema, List.mem_cons, List.not_mem_nil, or_false] at hfield
      rcases hfield with rfl | rfl | rfl
      · exact .inl (by decide)
      · exact .inl (by decide)
      · exact .inr ⟨['7'], by decide, 7, hseven⟩
    · intro m hm hname
      rcases List.mem_cons.1 hm with rfl | hm
      · exact hvalue
      · rw [List.mem_singleton.1 hm] at hname
        exact absurd (by decide) hname
  obtain ⟨name, hfirst, hrefused, -⟩ :=
    parse_missing_field tip Blank.nil hbody hfit ⟨"blockid", by decide, by decide⟩ ['}']
  obtain rfl : "height" = name := Option.some.inj hfirst
  exact ⟨hbody, hfit, hrefused⟩

/-- **A repeated field is refused at its name, whatever follows.** Behind members that fit the
fields of a report, the name of a field that was met, however it is escaped, refuses the object in
words that name the field: the place is that behind the name, white space, and the closing bracket
if that comes next. -/
theorem parse_repeated_field (feed : Feed) {ms : List Member} {field : Json.Field}
    {w body w' k : List Char} (hw : Blank w) (hbody : Members ms body)
    (hfit : MembersFit feed.schema.fields ms) (hfield : field ∈ feed.schema.fields)
    (hmet : valuesOf field.name.toList ms ≠ []) (hw' : Blank w')
    (hk : Spells k field.name.toList) (rest : List Char) :
    let front := w ++ '{' :: (body ++ ',' :: (w' ++ '"' :: (k ++ ['"'])))
    feed.RefusedAt (front ++ rest) ("duplicate field `" ++ field.name ++ "`")
      (Place.behind (front ++ Json.passedBehind rest)) := by
  intro front
  obtain ⟨last, hlast⟩ := Json.exists_takes feed.nodup_names hfit
  have hread : feed.schema.readWhole (front ++ rest) =
      .error (Json.Stop.before (.repeatedField field.name) (Json.leave .object rest)) := by
    have htext : front ++ rest =
        w ++ '{' :: (body ++ ',' :: (w' ++ '"' :: (k ++ '"' :: rest))) := by simp [front]
    rw [htext]
    exact feed.schema.readWhole_of_readMembers hw
      (Json.readMembers_repeated hbody hlast hfield hmet hw' hk rest)
  -- on the way out of the object a bracket is passed as if the members had ended there
  have hsplit : front ++ rest =
      (front ++ Json.passedBehind rest) ++ Json.leave .object rest := by
    rw [List.append_assoc front, Json.passedBehind_append_leave]
  rw [hsplit] at hread ⊢
  have hwords : Json.Cause.message (.repeatedField field.name) =
      "duplicate field `" ++ field.name ++ "`" := rfl
  rw [← hwords]
  exact refusedAt_of_parse (feed.parse_of_stop_before hread)

/-- The height of a report on the coins counts as met when it was null: its name is refused, also in
an escaped spelling, with no colon behind it and on a line of its own. -/
theorem parse_repeated_field_null :
    let ms : List Member := [⟨"height".toList, "null".toList⟩]
    let body := "\"height\":null".toList
    let front := '{' :: (body ++ ",\n\"h\\u0065ight\"".toList)
    Members ms body ∧ MembersFit coins.schema.fields ms ∧
      coins.RefusedAt (front ++ " \x7dx".toList) "duplicate field `height`" ⟨2, 15⟩ := by
  intro ms body front
  have hbody : Members ms body := .one (Member.isWritten_of_isPlain (by decide))
  have hfit : MembersFit coins.schema.fields ms := by
    refine ⟨?_, ?_⟩
    · intro field hfield
      simp only [schema, List.mem_cons, List.not_mem_nil, or_false] at hfield
      rcases hfield with rfl | rfl | rfl | rfl | rfl | rfl | rfl
      · exact .inr ⟨"null".toList, by decide, none, .inl ⟨rfl, rfl⟩⟩
      all_goals exact .inl (by decide)
    · intro m hm hname
      rw [List.mem_singleton.1 hm] at hname
      exact absurd (by decide) hname
  have hname : Spells "h\\u0065ight".toList "height".toList :=
    .plain (by decide) (.unit (n := 0x65) rfl rfl rfl (Json.spells_of_isPlain (by decide)))
  have hfeed : Blank ['\n'] := by simp [Blank]
  have hheight : (⟨"height", .optional⟩ : Json.Field) ∈ coins.schema.fields := List.mem_cons_self
  have hrefused := parse_repeated_field coins Blank.nil hbody hfit hheight (by decide) hfeed hname
    " \x7dx".toList
  exact ⟨hbody, hfit, hrefused⟩

end Feed

end ChainBoard
