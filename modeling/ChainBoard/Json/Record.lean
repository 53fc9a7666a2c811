import ChainBoard.Json.Field

/-!
# Records

A record has named fields in a fixed order. It is written as an object with a member for each field,
in any order and among any other members, or as a list of the fields in their order.

Members with other names are passed loosely. A field may occur once, and a second occurrence is
refused at its name. Fields that are missing are noticed when the object closes, the first in the
order of the record being named.

A fault without a place of its own is placed where the reader stands once it has tried to leave the
record: behind white space, and behind the closing bracket if that comes next.

## Main definitions

* `Field`, `Schema`: what a record is made of
* `Row`: the values of all fields
* `Draft`: the values of the fields met so far
* `Draft.member`: takes a member into a draft
* `readMembers`, `readElements`: the two ways to write a record
* `Schema.read`: reads a record

## Main results

* `Draft.length_member_lt`: a member takes at least one character
-/

namespace ChainBoard.Json

/-- A field of a record. -/
structure Field where
  name : String
  kind : Kind
  deriving DecidableEq, Repr

/-- The title of a record, and its fields in their order. -/
structure Schema where
  title : String
  fields : List Field
  deriving DecidableEq, Repr

/-- A value for each field. -/
@[reducible] def Row : List Field → Type
  | [] => Unit
  | field :: fields => field.kind.Carrier × Row fields

/-- A value for each field that has been met. -/
@[reducible] def Draft : List Field → Type
  | [] => Unit
  | field :: fields => Option field.kind.Carrier × Draft fields

namespace Draft

/-- No field has been met. -/
def empty : (fields : List Field) → Draft fields
  | [] => ()
  | _ :: fields => (none, empty fields)

/-- The values of all fields, or the name of the first that must be there and is not. -/
def row : (fields : List Field) → Draft fields → Except String (Row fields)
  | [], _ => .ok ()
  | field :: fields, (value?, draft) =>
    match value? <|> field.kind.absent? with
    | none => .error field.name
    | some value => (row fields draft).map fun values => (value, values)

/-- Takes in the member `name`, from behind its name on. A member that is no field is passed. -/
def member : (fields : List Field) → Draft fields → (name s : List Char) →
    Except Failure (Draft fields × List Char)
  | [], _, _, s => (within (Stage.readColon s >>= passValue .loose)).map fun rest => ((), rest)
  | field :: fields, (value?, draft), name, s =>
    if field.name.toList = name then
      match value? with
      | some _ => .error (.unplaced (.repeatedField field.name) s)
      | none => do
        let rest ← within (Stage.readColon s)
        let (value, rest) ← field.kind.read rest
        .ok ((some value, draft), rest)
    else (member fields draft name s).map fun (draft, rest) => ((value?, draft), rest)

end Draft

/-- The name behind a comma, and what stands behind it. -/
def readLaterName (s : List Char) : Except Stop (Option (List Char) × List Char) :=
  match skipBlank s with
  | [] => .error (Stop.before .endInValue [])
  | c :: rest =>
    if c = '"' then (readText rest).map fun (name, rest) => (some name, rest)
    else if c = '}' then .error (Stop.on .trailingComma (c :: rest))
    else .error (Stop.on .expectedKey (c :: rest))

/-- The name of the next member and what stands behind it; no name in front of the closing bracket,
which is not taken. -/
def readName (first : Bool) (s : List Char) : Except Stop (Option (List Char) × List Char) :=
  match skipBlank s with
  | [] => .error (Stop.before .endInObject [])
  | c :: rest =>
    if c = '}' then .ok (none, c :: rest)
    else if first then
      if c = '"' then (readText rest).map fun (name, rest) => (some name, rest)
      else .error (Stop.on .expectedKey (c :: rest))
    else if c = ',' then readLaterName rest
    else .error (Stop.on .expectedCommaInObject (c :: rest))

/-- Whether another element follows, and the text from it or from the closing bracket on. -/
def readSeparator (first : Bool) (s : List Char) : Except Stop (Bool × List Char) :=
  match skipBlank s with
  | [] => .error (Stop.before .endInList [])
  | c :: rest =>
    if c = ']' then .ok (false, c :: rest)
    else if first then .ok (true, c :: rest)
    else if c = ',' then
      match skipBlank rest with
      | [] => .error (Stop.before .endInValue [])
      | d :: rest =>
        if d = ']' then .error (Stop.on .trailingComma (d :: rest)) else .ok (true, d :: rest)
    else .error (Stop.on .expectedCommaInList (c :: rest))

/-- The fields of a record written as a list, the first of them being number `index`, and the text
from the end of the last on. -/
def readElements (schema : Schema) : (fields : List Field) → (index : Nat) → (s : List Char) →
    Except Failure (Row fields × List Char)
  | [], _, s => .ok ((), s)
  | field :: fields, index, s => do
    let (more, rest) ← within (readSeparator (index = 0) s)
    if more then do
      let (value, rest) ← field.kind.read rest
      let (values, rest) ← readElements schema fields (index + 1) rest
      .ok ((value, values), rest)
    else
      match field.kind.absent? with
      | some value => do
        let (values, rest) ← readElements schema fields (index + 1) rest
        .ok ((value, values), rest)
      | none =>
        .error (.unplaced (.tooShort index schema.title schema.fields.length) rest)

theorem length_readLaterName_lt {s name rest : List Char}
    (h : readLaterName s = .ok (some name, rest)) : rest.length < s.length := by
  unfold readLaterName at h
  have hb := length_skipBlank_le s
  split at h
  · simp at h
  · rename_i hs
    rw [hs, List.length_cons] at hb
    split at h
    · obtain ⟨p, hp, he⟩ := map_eq_ok_iff.1 h
      simp only [Prod.mk.injEq, Option.some.injEq] at he
      obtain ⟨-, rfl⟩ := he
      have := length_readText_lt hp
      omega
    · split at h <;> simp at h

theorem length_readName_lt {first : Bool} {s name rest : List Char}
    (h : readName first s = .ok (some name, rest)) : rest.length < s.length := by
  unfold readName at h
  have hb := length_skipBlank_le s
  split at h
  · simp at h
  · rename_i hs
    rw [hs, List.length_cons] at hb
    split at h
    · simp at h
    · split at h
      · split at h
        · obtain ⟨p, hp, he⟩ := map_eq_ok_iff.1 h
          simp only [Prod.mk.injEq, Option.some.injEq] at he
          obtain ⟨-, rfl⟩ := he
          have := length_readText_lt hp
          omega
        · simp at h
      · split at h
        · have := length_readLaterName_lt h
          omega
        · simp at h

theorem Draft.length_member_lt {fields : List Field} {draft draft' : Draft fields}
    {name s rest : List Char} (h : Draft.member fields draft name s = .ok (draft', rest)) :
    rest.length < s.length := by
  induction fields with
  | nil =>
    obtain ⟨r, hr, he⟩ := map_eq_ok_iff.1 h
    obtain ⟨r', hr', hv⟩ := bind_eq_ok_iff.1 (within_eq_ok_iff.1 hr)
    simp only [Prod.mk.injEq] at he
    obtain ⟨-, rfl⟩ := he
    have := Stage.length_readColon_lt hr'
    have := length_passValue_lt hv
    omega
  | cons field fields ih =>
    obtain ⟨value?, draft⟩ := draft
    unfold Draft.member at h
    split at h
    · split at h
      · simp at h
      · obtain ⟨r, hr, h⟩ := bind_eq_ok_iff.1 h
        obtain ⟨⟨value, r'⟩, hv, h⟩ := bind_eq_ok_iff.1 h
        simp only [Except.ok.injEq, Prod.mk.injEq] at h
        obtain ⟨-, rfl⟩ := h
        have := Stage.length_readColon_lt (within_eq_ok_iff.1 hr)
        have := Kind.length_read_lt hv
        omega
    · obtain ⟨⟨d, r⟩, hm, he⟩ := map_eq_ok_iff.1 h
      simp only [Prod.mk.injEq] at he
      obtain ⟨-, rfl⟩ := he
      exact ih hm

/-- The members of an object, from its opening bracket or the end of a member on, and the text
behind its closing bracket. -/
def readMembers (fields : List Field) (first : Bool) (draft : Draft fields) (s : List Char) :
    Except Failure (Row fields × List Char) :=
  match _hn : readName first s with
  | .error stop => .error (.stopped stop)
  | .ok (none, rest) =>
    match Draft.row fields draft with
    | .ok row => .ok (row, rest.tail)
    | .error name => .error (.unplaced (.missingField name) rest)
  | .ok (some name, rest) =>
    match _hm : Draft.member fields draft name rest with
    | .error failure => .error failure
    | .ok (draft, rest) => readMembers fields false draft rest
termination_by s.length
decreasing_by
  have := length_readName_lt _hn
  have := Draft.length_member_lt _hm
  omega

/-- The text behind the end of a list of fields. -/
def readListEnd (s : List Char) : Except Stop (List Char) :=
  match skipBlank s with
  | [] => .error (Stop.before .endInList [])
  | c :: rest =>
    if c = ']' then .ok rest
    else if c = ',' then
      .error <|
        if (skipBlank rest).head? = some ']' then Stop.on .trailingComma (skipBlank rest)
        else Stop.on .trailingCharacters (skipBlank rest)
    else .error (Stop.on .trailingCharacters (c :: rest))

/-- The text that is left when a reader has tried to leave a record behind a fault: white space is
passed, and the closing bracket, or in a list a comma and more white space. -/
def leave (bracket : Bracket) (s : List Char) : List Char :=
  match skipBlank s with
  | [] => []
  | c :: rest =>
    if c = bracket.close then rest
    else if c = ',' ∧ bracket = .list then skipBlank rest
    else c :: rest

/-- The stop for a failure inside a record: a fault without a place is placed where the reader has
left the record. -/
def Failure.stop (bracket : Bracket) : Failure → Stop
  | stopped stop => stop
  | unplaced cause rest => Stop.before cause (leave bracket rest)

namespace Schema

/-- A record written as an object, from behind its opening bracket on. -/
def readObject (schema : Schema) (s : List Char) : Except Stop (Row schema.fields × List Char) :=
  (readMembers schema.fields true (Draft.empty schema.fields) s).mapError (Failure.stop .object)

/-- A record written as a list, from behind its opening bracket on. -/
def readList (schema : Schema) (s : List Char) : Except Stop (Row schema.fields × List Char) := do
  let (row, rest) ← (readElements schema schema.fields 0 s).mapError (Failure.stop .list)
  return (row, ← readListEnd rest)

/-- A record, and the text behind it. -/
def read (schema : Schema) (s : List Char) : Except Stop (Row schema.fields × List Char) := do
  let (seen, rest) ← Seen.read s
  match seen with
  | .object => schema.readObject rest.tail
  | .list => schema.readList rest.tail
  | seen => .error (Stop.before (.wrongType seen (.record schema.title)) rest)

end Schema

end ChainBoard.Json
