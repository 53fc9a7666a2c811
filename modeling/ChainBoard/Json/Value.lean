import ChainBoard.Json.Literal
import ChainBoard.Json.Text

/-!
# Values and their extent

A value is a scalar, a list or an object. A reader that wants a scalar sees what stands in front of
it: the scalar itself, or the bracket of a list or object, which it leaves where it is.

Lists and objects are only passed: nothing but their extent matters. The walk over them keeps the
brackets that are open and takes one step for each scalar, bracket, comma and key, so that nesting
costs no depth of calls. Two walks differ in rigour. The exact walk also asks that scalars have a
value, limits how many brackets may be open, and names a comma in front of a closing bracket as
such. The loose walk asks for the form of values alone.

## Main definitions

* `Seen.read`: what stands in front of a reader
* `Rigour`: exact or loose
* `Stage`: what a walk expects next
* `Stage.step`: one step of a walk
* `passValue`: the text behind a value

## Main results

* `Stage.length_step_lt`: each step takes at least one character
-/

namespace ChainBoard.Json

/-- What stands in front of a reader, behind white space. A scalar is read; a bracket is not. -/
def Seen.read (s : List Char) : Except Stop (Seen × List Char) :=
  match skipBlank s with
  | [] => .error (Stop.before .endInValue [])
  | c :: rest =>
    if c = '"' then (readText rest).map fun (chars, rest) => (.text chars, rest)
    else if c = '[' then .ok (.list, c :: rest)
    else if c = '{' then .ok (.object, c :: rest)
    else if c = 'n' then (readWord ['u', 'l', 'l'] rest).map fun rest => (.null, rest)
    else if c = 't' then (readWord ['r', 'u', 'e'] rest).map fun rest => (.boolean true, rest)
    else if c = 'f' then (readWord ['a', 'l', 's', 'e'] rest).map fun rest => (.boolean false, rest)
    else if c = '-' ∨ c.isDigit then
      (Number.read (c :: rest)).map fun (n, rest) => (.number n, rest)
    else .error (Stop.on .expectedValue (c :: rest))

/-- The two kinds of brackets. -/
inductive Bracket where
  | list
  | object
  deriving DecidableEq, Repr

namespace Bracket

/-- The bracket that closes. -/
def close : Bracket → Char
  | list => ']'
  | object => '}'

/-- The cause of a stop at the end of the input between two brackets. -/
def atEnd : Bracket → Cause
  | list => .endInList
  | object => .endInObject

/-- The cause of a stop where neither a comma nor the closing bracket follows a value. -/
def expectedComma : Bracket → Cause
  | list => .expectedCommaInList
  | object => .expectedCommaInObject

end Bracket

/-- How much a walk over a value asks for. -/
inductive Rigour where
  /-- Scalars have a value, and at most `room` brackets are open at once. -/
  | exact (room : Nat)
  /-- Values have their form, and nothing more. -/
  | loose
  deriving DecidableEq, Repr

namespace Rigour

/-- Whether one more bracket may be open inside those that are. -/
def admits (rigour : Rigour) (outer : List Bracket) : Bool :=
  match rigour with
  | exact room => outer.length < room
  | loose => true

/-- Whether a comma in front of a closing bracket is named as such. -/
def namesTrailingComma : Rigour → Bool
  | exact _ => true
  | loose => false

/-- The text behind a text, from behind its opening quote on. -/
def passText (rigour : Rigour) (s : List Char) : Except Stop (List Char) :=
  match rigour with
  | exact _ => (readText s).map (·.2)
  | loose => Json.passText s

/-- The text behind a number. -/
def passNumber (rigour : Rigour) (s : List Char) : Except Stop (List Char) :=
  match rigour with
  | exact _ => (Number.read s).map (·.2)
  | loose => (Literal.read .invalidNumber s).map (·.2)

/-- The text behind a scalar. -/
def passScalar (rigour : Rigour) (s : List Char) : Except Stop (List Char) :=
  match s with
  | [] => .error (Stop.before .endInValue [])
  | c :: rest =>
    if c = '"' then rigour.passText rest
    else if c = 'n' then readWord ['u', 'l', 'l'] rest
    else if c = 't' then readWord ['r', 'u', 'e'] rest
    else if c = 'f' then readWord ['a', 'l', 's', 'e'] rest
    else if c = '-' ∨ c.isDigit then rigour.passNumber (c :: rest)
    else .error (Stop.on .expectedValue (c :: rest))

end Rigour

/-- What a walk expects next, and the brackets that are open, the innermost first. -/
inductive Stage where
  /-- A value. -/
  | value (outer : List Bracket)
  /-- What may follow an opening bracket. -/
  | opened (inner : Bracket) (outer : List Bracket)
  /-- What may follow a comma. -/
  | next (inner : Bracket) (outer : List Bracket)
  /-- What may follow a value between brackets. -/
  | ended (inner : Bracket) (outer : List Bracket)
  deriving DecidableEq, Repr

namespace Stage

/-- What is expected behind a value; nothing when no bracket is open. -/
def behind : List Bracket → Option Stage
  | [] => none
  | inner :: outer => some (ended inner outer)

/-- The step over the start of a value: a bracket, or a whole scalar. -/
def enter (rigour : Rigour) (outer : List Bracket) (s : List Char) :
    Except Stop (Option Stage × List Char) :=
  match s with
  | '[' :: rest =>
    if rigour.admits outer then .ok (some (opened .list outer), rest)
    else .error (Stop.on .tooDeep s)
  | '{' :: rest =>
    if rigour.admits outer then .ok (some (opened .object outer), rest)
    else .error (Stop.on .tooDeep s)
  | s => (rigour.passScalar s).map fun rest => (behind outer, rest)

/-- The text behind the colon that follows a key. -/
def readColon (s : List Char) : Except Stop (List Char) :=
  match skipBlank s with
  | [] => .error (Stop.before .endInObject [])
  | c :: rest => if c = ':' then .ok rest else .error (Stop.on .expectedColon (c :: rest))

/-- The step over a key and its colon. At the end of the input the refusal is `atEnd`. -/
def key (rigour : Rigour) (atEnd : Cause) (outer : List Bracket) (s : List Char) :
    Except Stop (Option Stage × List Char) :=
  match s with
  | [] => .error (Stop.before atEnd [])
  | c :: rest =>
    if c = '"' then do
      let rest ← readColon (← rigour.passText rest)
      .ok (some (value (.object :: outer)), rest)
    else .error (Stop.on .expectedKey (c :: rest))

/-- The step over what stands at the start of a text without white space in front. -/
def stepOn (rigour : Rigour) (stage : Stage) (s : List Char) :
    Except Stop (Option Stage × List Char) :=
  match stage with
  | value outer => enter rigour outer s
  | opened inner outer =>
    if s.head? = some inner.close then .ok (behind outer, s.tail)
    else if s = [] then .error (Stop.before inner.atEnd [])
    else match inner with
      | .list => enter rigour (.list :: outer) s
      | .object => key rigour .endInObject outer s
  | next inner outer =>
    if rigour.namesTrailingComma ∧ s.head? = some inner.close then
      .error (Stop.on .trailingComma s)
    else match inner with
      | .list => enter rigour (.list :: outer) s
      | .object =>
        key rigour (if rigour.namesTrailingComma then .endInValue else .endInObject) outer s
  | ended inner outer =>
    if s.head? = some inner.close then .ok (behind outer, s.tail)
    else if s.head? = some ',' then .ok (some (next inner outer), s.tail)
    else if s = [] then .error (Stop.before inner.atEnd [])
    else .error (Stop.on inner.expectedComma s)

/-- One step of a walk: what it expects next, if anything, and the text left. -/
def step (rigour : Rigour) (stage : Stage) (s : List Char) :
    Except Stop (Option Stage × List Char) :=
  stepOn rigour stage (skipBlank s)

end Stage

theorem Rigour.length_passText_lt {rigour : Rigour} {s rest : List Char}
    (h : rigour.passText s = .ok rest) : rest.length < s.length := by
  unfold Rigour.passText at h
  split at h
  · obtain ⟨p, hp, rfl⟩ := map_eq_ok_iff.1 h
    exact length_readText_lt hp
  · exact Json.length_passText_lt h

theorem Rigour.length_passNumber_lt {rigour : Rigour} {s rest : List Char}
    (h : rigour.passNumber s = .ok rest) : rest.length < s.length := by
  unfold Rigour.passNumber at h
  split at h
  · obtain ⟨p, hp, rfl⟩ := map_eq_ok_iff.1 h
    exact Number.length_read_lt hp
  · obtain ⟨p, hp, rfl⟩ := map_eq_ok_iff.1 h
    exact Literal.length_read_lt hp

theorem Rigour.length_passScalar_lt {rigour : Rigour} {s rest : List Char}
    (h : rigour.passScalar s = .ok rest) : rest.length < s.length := by
  unfold Rigour.passScalar at h
  split at h
  · simp at h
  · rename_i c s
    have word (w : List Char) (hw : readWord w s = .ok rest) : rest.length < (c :: s).length :=
      Nat.lt_succ_of_le (length_readWord_le hw)
    split at h
    · exact Nat.lt_succ_of_lt (length_passText_lt h)
    · split at h
      · exact word _ h
      · split at h
        · exact word _ h
        · split at h
          · exact word _ h
          · split at h
            · exact length_passNumber_lt h
            · simp at h

namespace Stage

theorem length_enter_lt {rigour : Rigour} {outer : List Bracket} {s rest : List Char}
    {stage? : Option Stage} (h : enter rigour outer s = .ok (stage?, rest)) :
    rest.length < s.length := by
  unfold enter at h
  split at h
  · split at h
    · simp only [Except.ok.injEq, Prod.mk.injEq] at h
      simp [← h.2]
    · simp at h
  · split at h
    · simp only [Except.ok.injEq, Prod.mk.injEq] at h
      simp [← h.2]
    · simp at h
  · obtain ⟨r, hr, he⟩ := map_eq_ok_iff.1 h
    simp only [Prod.mk.injEq] at he
    exact he.2 ▸ Rigour.length_passScalar_lt hr

theorem length_readColon_lt {s rest : List Char} (h : readColon s = .ok rest) :
    rest.length < s.length := by
  unfold readColon at h
  have hb := length_skipBlank_le s
  split at h
  · simp at h
  · rename_i hs
    split at h
    · simp only [Except.ok.injEq] at h
      subst h
      rw [hs, List.length_cons] at hb
      omega
    · simp at h

theorem length_key_lt {rigour : Rigour} {atEnd : Cause} {outer : List Bracket}
    {s rest : List Char} {stage? : Option Stage}
    (h : key rigour atEnd outer s = .ok (stage?, rest)) : rest.length < s.length := by
  unfold key at h
  split at h
  · simp at h
  · rename_i c s
    split at h
    · obtain ⟨r, hr, h⟩ := bind_eq_ok_iff.1 h
      obtain ⟨r', hr', h⟩ := bind_eq_ok_iff.1 h
      simp only [Except.ok.injEq, Prod.mk.injEq] at h
      obtain ⟨-, rfl⟩ := h
      have := Rigour.length_passText_lt hr
      have := length_readColon_lt hr'
      rw [List.length_cons]
      omega
    · simp at h

theorem length_tail_lt {s : List Char} {c : Char} (h : s.head? = some c) :
    s.tail.length < s.length := by
  cases s with
  | nil => simp at h
  | cons c s => simp

theorem length_stepOn_lt {rigour : Rigour} {stage : Stage} {s rest : List Char}
    {stage? : Option Stage} (h : stepOn rigour stage s = .ok (stage?, rest)) :
    rest.length < s.length := by
  unfold stepOn at h
  split at h
  · exact length_enter_lt h
  · split at h
    · rename_i hs
      simp only [Except.ok.injEq, Prod.mk.injEq] at h
      exact h.2 ▸ length_tail_lt hs
    · split at h
      · simp at h
      · split at h
        · exact length_enter_lt h
        · exact length_key_lt h
  · split at h
    · simp at h
    · split at h
      · exact length_enter_lt h
      · exact length_key_lt h
  · split at h
    · rename_i hs
      simp only [Except.ok.injEq, Prod.mk.injEq] at h
      exact h.2 ▸ length_tail_lt hs
    · split at h
      · rename_i hs
        simp only [Except.ok.injEq, Prod.mk.injEq] at h
        exact h.2 ▸ length_tail_lt hs
      · split at h <;> simp at h

/-- Each step takes at least one character. -/
theorem length_step_lt {rigour : Rigour} {stage : Stage} {s rest : List Char}
    {stage? : Option Stage} (h : step rigour stage s = .ok (stage?, rest)) :
    rest.length < s.length :=
  Nat.lt_of_lt_of_le (length_stepOn_lt h) (length_skipBlank_le s)

end Stage

/-- The text behind what a walk expects. -/
def pass (rigour : Rigour) (stage : Stage) (s : List Char) : Except Stop (List Char) :=
  match _h : stage.step rigour s with
  | .error stop => .error stop
  | .ok (none, rest) => .ok rest
  | .ok (some stage, rest) => pass rigour stage rest
termination_by s.length
decreasing_by exact Stage.length_step_lt _h

/-- The text behind a value. -/
def passValue (rigour : Rigour) (s : List Char) : Except Stop (List Char) :=
  pass rigour (.value []) s

theorem length_pass_lt {rigour : Rigour} {stage : Stage} {s rest : List Char}
    (h : pass rigour stage s = .ok rest) : rest.length < s.length := by
  fun_induction pass rigour stage s with
  | case1 => simp at h
  | case2 _ _ _ hs =>
    simp only [Except.ok.injEq] at h
    exact h ▸ Stage.length_step_lt hs
  | case3 _ _ _ _ hs ih => exact Nat.lt_trans (ih h) (Stage.length_step_lt hs)

/-- A value takes at least one character. -/
theorem length_passValue_lt {rigour : Rigour} {s rest : List Char}
    (h : passValue rigour s = .ok rest) : rest.length < s.length :=
  length_pass_lt h

end ChainBoard.Json
