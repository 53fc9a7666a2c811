import ChainBoard.Proofs.Json.Text
import ChainBoard.Proofs.Json.Literal

/-!
# The extent of values

A walk takes one step at a time and keeps no more than the brackets that are open. Each stage of it
demands something of the text that is still to be passed: the rest of the value, up to the bracket
that closes the outermost one. A step takes a piece of text, and whatever satisfies the next stage
satisfies the stage in front of the step once that piece is put in front of it. A walk that comes
to its end has therefore passed a value. In turn, a walk passes every value that its rigour lets
pass, by induction on how the value is written. A loose walk lets every value pass; an exact one
wants texts that stand for something, numbers in range, and no more open brackets than it has room
for.

## Main definitions

* `Tail`, `Closes`: what stands behind a value inside brackets, up to the outermost bracket
* `Stage.Demands`: what a stage demands of the text in front of it
* `Passable`: what a walk of some rigour has to pass
* `Rigour.Allows`: how a walk may go on inside of open brackets
* `resume`: the rest of a walk behind a step

## Main results

* `pass_sound`, `passValue_sound`: a walk of any rigour passes what its stage demands
* `Passable.passes`, `passValue_complete`: a walk passes what it has to pass
* `passValue_loose_complete`: a loose walk passes every value
-/

namespace ChainBoard.Json

/-! ## How values start -/

/-- A character that values start with. -/
def StartsValue (c : Char) : Prop :=
  c = '"' ∨ c = '[' ∨ c = '{' ∨ c = 'n' ∨ c = 't' ∨ c = 'f' ∨ c = '-' ∨ c.isDigit = true

/-- White space, commas and closing brackets are no start of a value. -/
theorem not_startsValue :
    ∀ d ∈ [' ', '\t', '\n', '\r', ',', ']', '}'], ¬ StartsValue d := by
  simp [StartsValue]

theorem StartsValue.isBlank_eq_false {c : Char} (h : StartsValue c) : isBlank c = false := by
  apply Bool.eq_false_iff.2
  intro hb
  rcases isBlank_iff.1 hb with rfl | rfl | rfl | rfl
  all_goals exact not_startsValue _ (by simp) h

theorem StartsValue.ne_close {c : Char} (h : StartsValue c) (b : Bracket) : c ≠ b.close := by
  rintro rfl
  cases b with
  | list => exact not_startsValue ']' (by simp) h
  | object => exact not_startsValue '}' (by simp) h

theorem startsValue_of_number {c : Char} (h : c = '-' ∨ c.isDigit = true) : StartsValue c := by
  simp only [StartsValue]
  grind

/-- A number starts with its sign or with a digit. -/
theorem IsNumber.exists_cons {v : List Char} (h : IsNumber v) :
    ∃ c v', v = c :: v' ∧ (c = '-' ∨ c.isDigit = true) := by
  obtain ⟨sign, whole, f, e, rfl, rfl | rfl, hw, -, -⟩ := h
  · obtain ⟨d, ds, rfl, hd⟩ := Literal.exists_cons_of_isDigits hw.1
    exact ⟨d, ds ++ (f ++ e), by simp, .inr hd⟩
  · exact ⟨'-', whole ++ (f ++ e), rfl, .inl rfl⟩

theorem IsValue.exists_cons {v : List Char} (h : IsValue v) :
    ∃ c v', v = c :: v' ∧ StartsValue c := by
  cases h with
  | null => exact ⟨_, _, rfl, by simp [StartsValue]⟩
  | yes => exact ⟨_, _, rfl, by simp [StartsValue]⟩
  | no => exact ⟨_, _, rfl, by simp [StartsValue]⟩
  | text _ => exact ⟨_, _, rfl, by simp [StartsValue]⟩
  | number hn =>
    obtain ⟨c, v', rfl, hc⟩ := hn.exists_cons
    exact ⟨c, v', rfl, startsValue_of_number hc⟩
  | @empty b _ _ => exact ⟨_, _, rfl, by cases b <;> simp [StartsValue, Bracket.opening]⟩
  | @filled b _ _ => exact ⟨_, _, rfl, by cases b <;> simp [StartsValue, Bracket.opening]⟩

/-! ## What stages demand -/

/-- What stands between a value and the closing bracket behind it: white space, or a comma and more
items. -/
def Tail (b : Bracket) (r : List Char) : Prop :=
  Blank r ∨ ∃ w s, r = w ++ ',' :: s ∧ Blank w ∧ Written (.items b) s

/-- What stands behind a value, up to the bracket that closes the outermost one. -/
def Closes : List Bracket → List Char → Prop
  | [], t => t = []
  | b :: outer, t => ∃ r t', t = r ++ b.close :: t' ∧ Tail b r ∧ Closes outer t'

/-- What a stage demands of the text in front of it. -/
def Stage.Demands : Stage → List Char → Prop
  | value outer, t => ∃ w v t', t = w ++ (v ++ t') ∧ Blank w ∧ IsValue v ∧ Closes outer t'
  | opened b outer, t =>
    ∃ s t', t = s ++ b.close :: t' ∧ (Blank s ∨ Written (.items b) s) ∧ Closes outer t'
  | next b outer, t => ∃ s t', t = s ++ b.close :: t' ∧ Written (.items b) s ∧ Closes outer t'
  | ended b outer, t => Closes (b :: outer) t

/-- What a walk demands behind a step; nothing once it is at its end. -/
def Follows : Option Stage → List Char → Prop
  | none, t => t = []
  | some stage, t => stage.Demands t

theorem follows_behind {outer : List Bracket} {t : List Char} :
    Follows (Stage.behind outer) t ↔ Closes outer t := by
  cases outer <;> rfl

/-- White space may stand in front of an item. -/
theorem Written.blank_item {w s : List Char} {b : Bracket} (hw : Blank w)
    (h : Written (.item b) s) : Written (.item b) (w ++ s) := by
  cases h with
  | element hw' hv hw'' =>
    rw [← List.append_assoc]
    exact .element (hw.append hw') hv hw''
  | member hw' hk h₁ h₂ hv hw'' =>
    rw [← List.append_assoc]
    exact .member (hw.append hw') hk h₁ h₂ hv hw''

/-- White space may stand in front of a sequence of items. -/
theorem Written.blank_items {w s : List Char} {b : Bracket} (hw : Blank w)
    (h : Written (.items b) s) : Written (.items b) (w ++ s) := by
  cases h with
  | one hi => exact .one (hi.blank_item hw)
  | more hi hs =>
    rw [← List.append_assoc]
    exact .more (hi.blank_item hw) hs

theorem Tail.blank_append {w r : List Char} {b : Bracket} (hw : Blank w) (h : Tail b r) :
    Tail b (w ++ r) := by
  rcases h with hr | ⟨w', s, rfl, hw', hs⟩
  · exact .inl (hw.append hr)
  · exact .inr ⟨w ++ w', s, by simp, hw.append hw', hs⟩

/-- White space in front of a text changes no demand. -/
theorem Stage.Demands.blank_append {stage : Stage} {w t : List Char} (hw : Blank w)
    (h : stage.Demands t) : stage.Demands (w ++ t) := by
  cases stage with
  | value outer =>
    obtain ⟨w', v, t', rfl, hw', hv, ht⟩ := h
    exact ⟨w ++ w', v, t', by simp, hw.append hw', hv, ht⟩
  | opened b outer =>
    obtain ⟨s, t', rfl, hs | hs, ht⟩ := h
    · exact ⟨w ++ s, t', by simp, .inl (hw.append hs), ht⟩
    · exact ⟨w ++ s, t', by simp, .inr (hs.blank_items hw), ht⟩
  | next b outer =>
    obtain ⟨s, t', rfl, hs, ht⟩ := h
    exact ⟨w ++ s, t', by simp, hs.blank_items hw, ht⟩
  | ended b outer =>
    obtain ⟨r, t', rfl, hr, ht⟩ := h
    exact ⟨w ++ r, t', by simp, hr.blank_append hw, ht⟩

/-- A value and what stands behind it in a list are elements. -/
theorem Tail.elements {v r : List Char} (hr : Tail .list r) (hv : IsValue v) :
    Written (.items .list) (v ++ r) := by
  rcases hr with hr | ⟨w, s, rfl, hw, hs⟩
  · exact .one (.element Blank.nil hv hr)
  · have := Written.more (.element Blank.nil hv hw) hs
    simpa using this

/-- A key, a value and what stands behind it in an object are members. -/
theorem Tail.members {k w₁ w₂ v r : List Char} (hr : Tail .object r) (hk : IsQuotable k)
    (h₁ : Blank w₁) (h₂ : Blank w₂) (hv : IsValue v) :
    Written (.items .object) ('"' :: (k ++ '"' :: (w₁ ++ ':' :: (w₂ ++ (v ++ r))))) := by
  rcases hr with hr | ⟨w, s, rfl, hw, hs⟩
  · exact .one (.member Blank.nil hk h₁ h₂ hv hr)
  · have := Written.more (.member Blank.nil hk h₁ h₂ hv hw) hs
    simpa using this

/-! ## Walks pass nothing else -/

theorem Rigour.passText_sound {rigour : Rigour} {s rest : List Char}
    (h : rigour.passText s = .ok rest) : ∃ body, s = body ++ '"' :: rest ∧ IsQuotable body := by
  cases rigour with
  | exact room =>
    obtain ⟨⟨t, r⟩, hr, rfl⟩ := map_eq_ok_iff.1 h
    obtain ⟨body, rfl, hb⟩ := readText_eq_ok_iff.1 hr
    exact ⟨body, rfl, hb.isQuotable⟩
  | loose => exact Json.passText_sound h

theorem Rigour.passNumber_sound {rigour : Rigour} {s rest : List Char}
    (h : rigour.passNumber s = .ok rest) : ∃ v, s = v ++ rest ∧ IsNumber v := by
  cases rigour with
  | exact room =>
    obtain ⟨⟨x, r⟩, hr, rfl⟩ := map_eq_ok_iff.1 h
    exact Number.read_sound hr
  | loose =>
    obtain ⟨⟨l, r⟩, hr, rfl⟩ := map_eq_ok_iff.1 h
    obtain ⟨v, rfl, hv⟩ := Literal.read_sound hr
    exact ⟨v, rfl, Literal.isNumber_iff.2 ⟨l, hv⟩⟩

theorem Rigour.passScalar_sound {rigour : Rigour} {s rest : List Char}
    (h : rigour.passScalar s = .ok rest) : ∃ v, s = v ++ rest ∧ IsValue v := by
  unfold Rigour.passScalar at h
  split at h
  · simp at h
  · -- the first character says what kind of scalar stands there
    rename_i c s
    split at h
    · rename_i hc
      obtain ⟨body, rfl, hb⟩ := Rigour.passText_sound h
      exact ⟨'"' :: (body ++ ['"']), by simp [hc], .text hb⟩
    · split at h
      · rename_i hc
        exact ⟨_, by rw [hc, readWord_eq_ok_iff.1 h]; rfl, .null⟩
      · split at h
        · rename_i hc
          exact ⟨_, by rw [hc, readWord_eq_ok_iff.1 h]; rfl, .yes⟩
        · split at h
          · rename_i hc
            exact ⟨_, by rw [hc, readWord_eq_ok_iff.1 h]; rfl, .no⟩
          · split at h
            · obtain ⟨v, hs, hv⟩ := Rigour.passNumber_sound h
              exact ⟨v, hs, .number hv⟩
            · simp at h

namespace Stage

/-- The step over the start of a value leaves the rest of a value. -/
theorem enter_sound {rigour : Rigour} {outer : List Bracket} {s rest : List Char}
    {next? : Option Stage} (h : enter rigour outer s = .ok (next?, rest)) :
    ∃ u, s = u ++ rest ∧
      ∀ t, Follows next? t → ∃ v t', u ++ t = v ++ t' ∧ IsValue v ∧ Closes outer t' := by
  -- Behind an opening bracket, white space or items and the closing bracket complete a value.
  have opening (b : Bracket) (t : List Char) (ht : Follows (some (opened b outer)) t) :
      ∃ v t', b.opening :: t = v ++ t' ∧ IsValue v ∧ Closes outer t' := by
    obtain ⟨s, t', rfl, hs, hc⟩ := ht
    refine ⟨b.opening :: (s ++ [b.close]), t', by simp, ?_, hc⟩
    rcases hs with hs | hs
    · exact .empty hs
    · exact .filled hs
  unfold enter at h
  split at h
  · split at h
    · simp only [Except.ok.injEq, Prod.mk.injEq] at h
      obtain ⟨rfl, rfl⟩ := h
      exact ⟨['['], rfl, opening .list⟩
    · simp at h
  · split at h
    · simp only [Except.ok.injEq, Prod.mk.injEq] at h
      obtain ⟨rfl, rfl⟩ := h
      exact ⟨['{'], rfl, opening .object⟩
    · simp at h
  · -- a scalar is a value by itself
    obtain ⟨r, hr, he⟩ := map_eq_ok_iff.1 h
    simp only [Prod.mk.injEq] at he
    obtain ⟨rfl, rfl⟩ := he
    obtain ⟨v, hs, hv⟩ := Rigour.passScalar_sound hr
    exact ⟨v, hs, fun t ht => ⟨v, t, rfl, hv, follows_behind.1 ht⟩⟩

theorem readColon_eq_ok_iff {s rest : List Char} :
    readColon s = .ok rest ↔ ∃ w, s = w ++ ':' :: rest ∧ Blank w := by
  constructor
  · intro h
    unfold readColon at h
    split at h
    · simp at h
    · rename_i c r hs
      split at h
      · rename_i hc
        simp only [Except.ok.injEq] at h
        subst hc h
        exact exists_of_skipBlank_eq hs
      · simp at h
  · rintro ⟨w, rfl, hw⟩
    unfold readColon
    rw [skipBlank_append hw, skipBlank_cons rfl]
    rfl

/-- The step over a key leaves the rest of the members. -/
theorem key_sound {rigour : Rigour} {atEnd : Cause} {outer : List Bracket} {s rest : List Char}
    {next? : Option Stage} (h : key rigour atEnd outer s = .ok (next?, rest)) :
    ∃ u, s = u ++ rest ∧ ∀ t, Follows next? t → (next .object outer).Demands (u ++ t) := by
  unfold key at h
  split at h
  · simp at h
  · rename_i c s
    split at h
    · rename_i hc
      obtain ⟨r, hr, hv⟩ := bind_eq_ok_iff.1 h
      obtain ⟨r', hr', he⟩ := bind_eq_ok_iff.1 hv
      simp only [Except.ok.injEq, Prod.mk.injEq] at he
      obtain ⟨rfl, rfl⟩ := he
      obtain ⟨k, rfl, hk⟩ := Rigour.passText_sound hr
      obtain ⟨w₁, rfl, h₁⟩ := readColon_eq_ok_iff.1 hr'
      -- The step takes the key and the colon; the value and what is behind it complete a member.
      refine ⟨'"' :: (k ++ '"' :: (w₁ ++ [':'])), by simp [hc], ?_⟩
      rintro t ⟨w₂, v, t', rfl, h₂, hv, r'', t'', rfl, ht, hcl⟩
      exact ⟨_, t'', by simp, ht.members hk h₁ h₂ hv, hcl⟩
    · simp at h

theorem exists_of_head? {s : List Char} {c : Char} (h : s.head? = some c) : s = c :: s.tail := by
  cases s with
  | nil => simp at h
  | cons d s => simpa using h

/-- The step over an element leaves the rest of the elements. -/
theorem element_sound {rigour : Rigour} {outer : List Bracket} {s rest : List Char}
    {next? : Option Stage} (h : enter rigour (.list :: outer) s = .ok (next?, rest)) :
    ∃ u, s = u ++ rest ∧ ∀ t, Follows next? t → (next .list outer).Demands (u ++ t) := by
  obtain ⟨u, rfl, hu⟩ := enter_sound h
  refine ⟨u, rfl, ?_⟩
  intro t ht
  obtain ⟨v, t', he, hv, r, t'', rfl, hr, hc⟩ := hu t ht
  exact ⟨v ++ r, t'', by simpa using he, hr.elements hv, hc⟩

theorem stepOn_sound {rigour : Rigour} {stage : Stage} {s rest : List Char}
    {next? : Option Stage} (h : stepOn rigour stage s = .ok (next?, rest)) :
    ∃ u, s = u ++ rest ∧ ∀ t, Follows next? t → stage.Demands (u ++ t) := by
  -- What may follow a comma may follow an opening bracket.
  have opened_of_next {b : Bracket} {outer : List Bracket}
      (hn : ∃ u, s = u ++ rest ∧ ∀ t, Follows next? t → (next b outer).Demands (u ++ t)) :
      ∃ u, s = u ++ rest ∧ ∀ t, Follows next? t → (opened b outer).Demands (u ++ t) := by
    obtain ⟨u, hs, hu⟩ := hn
    refine ⟨u, hs, ?_⟩
    intro t ht
    obtain ⟨s', t', he, hs', hc⟩ := hu t ht
    exact ⟨s', t', he, .inr hs', hc⟩
  cases stage with
  | value outer =>
    obtain ⟨u, hs, hu⟩ := enter_sound h
    refine ⟨u, hs, ?_⟩
    intro t ht
    obtain ⟨v, t', he, hv, hc⟩ := hu t ht
    exact ⟨[], v, t', he, Blank.nil, hv, hc⟩
  | opened b outer =>
    simp only [stepOn] at h
    split at h
    · -- the closing bracket: nothing is between the two
      rename_i hs
      simp only [Except.ok.injEq, Prod.mk.injEq] at h
      obtain ⟨rfl, rfl⟩ := h
      refine ⟨[b.close], exists_of_head? hs, ?_⟩
      intro t ht
      exact ⟨[], t, rfl, .inl Blank.nil, follows_behind.1 ht⟩
    · split at h
      · simp at h
      · -- the first item
        cases b with
        | list => exact opened_of_next (element_sound h)
        | object => exact opened_of_next (key_sound h)
  | next b outer =>
    simp only [stepOn] at h
    split at h
    · simp at h
    · cases b with
      | list => exact element_sound h
      | object => exact key_sound h
  | ended b outer =>
    simp only [stepOn] at h
    split at h
    · -- the closing bracket: no more items
      rename_i hs
      simp only [Except.ok.injEq, Prod.mk.injEq] at h
      obtain ⟨rfl, rfl⟩ := h
      refine ⟨[b.close], exists_of_head? hs, ?_⟩
      intro t ht
      exact ⟨[], t, rfl, .inl Blank.nil, follows_behind.1 ht⟩
    · split at h
      · -- a comma: more items have to follow
        rename_i hs
        simp only [Except.ok.injEq, Prod.mk.injEq] at h
        obtain ⟨rfl, rfl⟩ := h
        refine ⟨[','], exists_of_head? hs, ?_⟩
        rintro t ⟨s', t', rfl, hs', hc⟩
        exact ⟨',' :: s', t', rfl, .inr ⟨[], s', rfl, Blank.nil, hs'⟩, hc⟩
      · split at h <;> simp at h

/-- **One step of a walk**: whatever satisfies the next stage satisfies this one behind what the
step takes. -/
theorem step_sound {rigour : Rigour} {stage : Stage} {s rest : List Char}
    {next? : Option Stage} (h : step rigour stage s = .ok (next?, rest)) :
    ∃ u, s = u ++ rest ∧ ∀ t, Follows next? t → stage.Demands (u ++ t) := by
  obtain ⟨u, hs, hu⟩ := stepOn_sound h
  obtain ⟨w, hw, hb⟩ := exists_of_skipBlank_eq hs
  refine ⟨w ++ u, by rw [hw, List.append_assoc], ?_⟩
  intro t ht
  rw [List.append_assoc]
  exact (hu t ht).blank_append hb

end Stage

/-- A walk passes what its stage demands. -/
theorem pass_sound {rigour : Rigour} {stage : Stage} {s rest : List Char}
    (h : pass rigour stage s = .ok rest) : ∃ t, s = t ++ rest ∧ stage.Demands t := by
  -- Induction on the steps of the walk; each step puts its piece in front of what the next demands.
  fun_induction pass rigour stage s with
  | case1 => simp at h
  | case2 stage s rest' hs =>
    -- the last step, behind which nothing is demanded
    simp only [Except.ok.injEq] at h
    subst h
    obtain ⟨u, rfl, hu⟩ := Stage.step_sound hs
    have := hu [] rfl
    rw [List.append_nil] at this
    exact ⟨u, rfl, this⟩
  | case3 stage s stage' rest' hs ih =>
    obtain ⟨t, rfl, ht⟩ := ih h
    obtain ⟨u, rfl, hu⟩ := Stage.step_sound hs
    exact ⟨u ++ t, by simp, hu t ht⟩

/-- What is passed as a value is a value behind white space. -/
theorem passValue_sound {rigour : Rigour} {s rest : List Char}
    (h : passValue rigour s = .ok rest) : ∃ w v, s = w ++ (v ++ rest) ∧ Blank w ∧ IsValue v := by
  obtain ⟨t, rfl, w, v, t', rfl, hw, hv, rfl⟩ := pass_sound h
  exact ⟨w, v, by simp, hw, hv⟩

/-! ## What may stand behind a number -/

theorem endsNumber_nil : EndsNumber [] := by
  intro c hc
  cases hc

theorem endsNumber_cons {c : Char} (s : List Char)
    (h : c.isDigit = false ∧ c ≠ '.' ∧ c ≠ 'e' ∧ c ≠ 'E') : EndsNumber (c :: s) := by
  intro d hd
  cases hd
  exact h

/-- White space ends a number. -/
theorem EndsNumber.blank_append {w s : List Char} (hw : Blank w) (h : EndsNumber s) :
    EndsNumber (w ++ s) := by
  cases w with
  | nil => exact h
  | cons c w =>
    rcases hw c List.mem_cons_self with rfl | rfl | rfl | rfl
    all_goals exact endsNumber_cons _ (by decide)

theorem endsNumber_comma (s : List Char) : EndsNumber (',' :: s) :=
  endsNumber_cons s (by decide)

theorem endsNumber_close (b : Bracket) (s : List Char) : EndsNumber (b.close :: s) :=
  endsNumber_cons s (by cases b <;> decide)

/-! ## What walks have to pass -/

namespace Rigour

/-- The rigour inside one more bracket, if one more may be open. -/
def inner? : Rigour → Option Rigour
  | exact 0 => none
  | exact (room + 1) => some (exact room)
  | loose => some loose

/-- What may stand between quotes: an exact walk asks for the text that it stands for. -/
def Quotes : Rigour → List Char → Prop
  | exact _, s => ∃ t, Spells s t
  | loose, s => IsQuotable s

/-- The numbers: an exact walk asks for the value of a number, which is in the range of binary
fractions or has at most 64 bits. -/
def Counts : Rigour → List Char → Prop
  | exact _, v => ∃ x, Number.read v = .ok (x, [])
  | loose, v => IsNumber v

theorem Quotes.isQuotable {rigour : Rigour} {s : List Char} (h : rigour.Quotes s) :
    IsQuotable s := by
  cases rigour with
  | exact room =>
    obtain ⟨t, ht⟩ := h
    exact ht.isQuotable
  | loose => exact h

theorem Counts.isNumber {rigour : Rigour} {v : List Char} (h : rigour.Counts v) : IsNumber v := by
  cases rigour with
  | exact room =>
    obtain ⟨x, hx⟩ := h
    obtain ⟨v, rfl, hv⟩ := Number.read_sound hx
    rwa [List.append_nil]
  | loose => exact h

end Rigour

/-- How the parts of values are written that a walk of some rigour has to pass: texts and numbers are
restricted, and so is the number of brackets that are open at once. -/
inductive Passable : Rigour → Part → List Char → Prop
  | null {r : Rigour} : Passable r .value ['n', 'u', 'l', 'l']
  | yes {r : Rigour} : Passable r .value ['t', 'r', 'u', 'e']
  | no {r : Rigour} : Passable r .value ['f', 'a', 'l', 's', 'e']
  | text {r : Rigour} {s : List Char} : r.Quotes s → Passable r .value ('"' :: (s ++ ['"']))
  | number {r : Rigour} {s : List Char} : r.Counts s → Passable r .value s
  | empty {r r' : Rigour} {b : Bracket} {w : List Char} : r.inner? = some r' → Blank w →
      Passable r .value (b.opening :: (w ++ [b.close]))
  | filled {r r' : Rigour} {b : Bracket} {s : List Char} : r.inner? = some r' →
      Passable r' (.items b) s → Passable r .value (b.opening :: (s ++ [b.close]))
  | element {r : Rigour} {w v w' : List Char} : Blank w → Passable r .value v → Blank w' →
      Passable r (.item .list) (w ++ (v ++ w'))
  | member {r : Rigour} {w k w₁ w₂ v w' : List Char} : Blank w → r.Quotes k → Blank w₁ →
      Blank w₂ → Passable r .value v → Blank w' →
      Passable r (.item .object) (w ++ '"' :: (k ++ '"' :: (w₁ ++ ':' :: (w₂ ++ (v ++ w')))))
  | one {r : Rigour} {b : Bracket} {s : List Char} : Passable r (.item b) s →
      Passable r (.items b) s
  | more {r : Rigour} {b : Bracket} {s s' : List Char} : Passable r (.item b) s →
      Passable r (.items b) s' → Passable r (.items b) (s ++ ',' :: s')

/-- What has to be passed is part of a value. -/
theorem Passable.written {r : Rigour} {part : Part} {s : List Char} (h : Passable r part s) :
    Written part s := by
  induction h with
  | null => exact .null
  | yes => exact .yes
  | no => exact .no
  | text hs => exact .text hs.isQuotable
  | number hn => exact .number hn.isNumber
  | empty _ hw => exact .empty hw
  | filled _ _ ih => exact .filled ih
  | element hw _ hw' ih => exact .element hw ih hw'
  | member hw hk h₁ h₂ _ hw' ih => exact .member hw hk.isQuotable h₁ h₂ ih hw'
  | one _ ih => exact .one ih
  | more _ _ ih ih' => exact .more ih ih'

/-- A loose walk has to pass every part of a value. -/
theorem Written.passable {part : Part} {s : List Char} (h : Written part s) :
    Passable .loose part s := by
  induction h with
  | null => exact .null
  | yes => exact .yes
  | no => exact .no
  | text hs => exact .text hs
  | number hn => exact .number hn
  | empty hw => exact .empty rfl hw
  | filled _ ih => exact .filled rfl ih
  | element hw _ hw' ih => exact .element hw ih hw'
  | member hw hk h₁ h₂ _ hw' ih => exact .member hw hk h₁ h₂ ih hw'
  | one _ ih => exact .one ih
  | more _ _ ih ih' => exact .more ih ih'

/-- A walk inside of open brackets may go on at some rigour. -/
def Rigour.Allows (walk : Rigour) (outer : List Bracket) (r : Rigour) : Prop :=
  match walk, r with
  | exact limit, exact room => outer.length + room ≤ limit
  | loose, loose => True
  | _, _ => False

namespace Rigour.Allows

variable {walk r : Rigour} {outer : List Bracket}

theorem passText {s : List Char} (h : walk.Allows outer r) (hs : r.Quotes s) (rest : List Char) :
    walk.passText (s ++ '"' :: rest) = .ok rest := by
  cases walk with
  | exact limit =>
    cases r with
    | exact room =>
      obtain ⟨t, ht⟩ := hs
      exact map_eq_ok_iff.2 ⟨(t, rest), readText_eq_ok_iff.2 ⟨s, rfl, ht⟩, rfl⟩
    | loose => exact h.elim
  | loose =>
    cases r with
    | exact room => exact h.elim
    | loose => exact passText_complete hs rest

theorem passNumber {v rest : List Char} (h : walk.Allows outer r) (hv : r.Counts v)
    (hr : EndsNumber rest) : walk.passNumber (v ++ rest) = .ok rest := by
  cases walk with
  | exact limit =>
    cases r with
    | exact room =>
      obtain ⟨x, hx⟩ := hv
      exact map_eq_ok_iff.2 ⟨(x, rest), Number.read_append hx hr, rfl⟩
    | loose => exact h.elim
  | loose =>
    cases r with
    | exact room => exact h.elim
    | loose =>
      obtain ⟨l, hl⟩ := Literal.isNumber_iff.1 hv
      exact map_eq_ok_iff.2 ⟨(l, rest), Literal.read_complete _ hl hr, rfl⟩

/-- Where one more bracket may be open, the walk admits it and goes on inside. -/
theorem inner {r' : Rigour} (h : walk.Allows outer r) (hi : r.inner? = some r') (b : Bracket) :
    walk.admits outer = true ∧ walk.Allows (b :: outer) r' := by
  cases walk with
  | exact limit =>
    cases r with
    | exact room =>
      cases room with
      | zero => cases hi
      | succ room =>
        cases hi
        have hle : outer.length + (room + 1) ≤ limit := h
        refine ⟨decide_eq_true (by omega), ?_⟩
        show (b :: outer).length + room ≤ limit
        rw [List.length_cons]
        omega
    | loose => exact h.elim
  | loose =>
    cases r with
    | exact room => exact h.elim
    | loose =>
      cases hi
      exact ⟨rfl, trivial⟩

end Rigour.Allows

/-! ## Walks pass it -/

section Walk

variable {walk : Rigour}

/-- The rest of a walk behind a step. -/
def resume (walk : Rigour) : Option Stage → List Char → Except Stop (List Char)
  | none, s => .ok s
  | some stage, s => pass walk stage s

theorem pass_eq_resume {stage : Stage} {s rest : List Char} {next? : Option Stage}
    (h : stage.step walk s = .ok (next?, rest)) : pass walk stage s = resume walk next? rest := by
  rw [pass]
  split
  · rename_i he
    rw [h] at he
    simp at he
  · rename_i he
    rw [h] at he
    simp only [Except.ok.injEq, Prod.mk.injEq] at he
    obtain ⟨rfl, rfl⟩ := he
    rfl
  · rename_i he
    rw [h] at he
    simp only [Except.ok.injEq, Prod.mk.injEq] at he
    obtain ⟨rfl, rfl⟩ := he
    rfl

theorem pass_of_step {stage next : Stage} {s rest : List Char}
    (h : stage.step walk s = .ok (some next, rest)) :
    pass walk stage s = pass walk next rest :=
  pass_eq_resume h

theorem pass_congr {stage stage' : Stage} {s s' : List Char}
    (h : stage.step walk s = stage'.step walk s') :
    pass walk stage s = pass walk stage' s' := by
  cases hs : stage'.step walk s' with
  | error stop =>
    rw [hs] at h
    rw [pass, pass]
    split <;> split <;> simp_all
  | ok p => rw [pass_eq_resume (h.trans hs), pass_eq_resume hs]

/-- White space in front of any stage makes no difference. -/
theorem pass_blank_append {stage : Stage} {w : List Char} (hw : Blank w) (s : List Char) :
    pass walk stage (w ++ s) = pass walk stage s := by
  refine pass_congr ?_
  rw [Stage.step, Stage.step, skipBlank_append hw]

/-- A number is a scalar. -/
theorem passScalar_number {v rest : List Char} (h : IsNumber v)
    (hn : walk.passNumber (v ++ rest) = .ok rest) : walk.passScalar (v ++ rest) = .ok rest := by
  obtain ⟨c, v', rfl, hc⟩ := h.exists_cons
  rw [List.cons_append] at hn ⊢
  have hne : c ≠ '"' ∧ c ≠ 'n' ∧ c ≠ 't' ∧ c ≠ 'f' := by
    rcases hc with rfl | hc
    · decide
    · refine ⟨?_, ?_, ?_, ?_⟩ <;> rintro rfl <;> simp at hc
  rw [Rigour.passScalar, if_neg hne.1, if_neg hne.2.1, if_neg hne.2.2.1, if_neg hne.2.2.2,
    if_pos hc, hn]

/-- A walk passes a scalar in one step. -/
theorem pass_scalar {s rest : List Char} (outer : List Bracket) (hb : skipBlank s = s)
    (hl : s.head? ≠ some '[') (ho : s.head? ≠ some '{') (h : walk.passScalar s = .ok rest) :
    pass walk (.value outer) s = resume walk (Stage.behind outer) rest := by
  refine pass_eq_resume ?_
  rw [Stage.step, hb, Stage.stepOn]
  unfold Stage.enter
  split
  · exact absurd rfl hl
  · exact absurd rfl ho
  · rw [h]
    rfl

/-- A walk enters every list and object that it admits. -/
theorem pass_opening (b : Bracket) {outer : List Bracket} (h : walk.admits outer = true)
    (s : List Char) :
    pass walk (.value outer) (b.opening :: s) = pass walk (.opened b outer) s := by
  refine pass_of_step ?_
  cases b with
  | list => exact if_pos h
  | object => exact if_pos h

/-- The closing bracket ends what it closes. -/
theorem pass_close (b : Bracket) (outer : List Bracket) (s : List Char) {stage : Stage}
    (h : stage = .opened b outer ∨ stage = .ended b outer) :
    pass walk stage (b.close :: s) = resume walk (Stage.behind outer) s := by
  have hb : isBlank b.close = false := by cases b <;> rfl
  refine pass_eq_resume ?_
  rw [Stage.step, skipBlank_cons hb]
  rcases h with rfl | rfl
  · simp [Stage.stepOn]
  · simp [Stage.stepOn]

theorem pass_comma (b : Bracket) (outer : List Bracket) (s : List Char) :
    pass walk (.ended b outer) (',' :: s) = pass walk (.next b outer) s := by
  cases b with
  | list => exact pass_of_step rfl
  | object => exact pass_of_step rfl

/-- Between brackets an element is expected like any other value. -/
theorem pass_next_list {c : Char} (hc : StartsValue c) (outer : List Bracket) (s : List Char) :
    pass walk (.next .list outer) (c :: s) = pass walk (.value (.list :: outer)) (c :: s) := by
  refine pass_congr ?_
  have hne : c ≠ Bracket.list.close := hc.ne_close .list
  rw [Stage.step, Stage.step, skipBlank_cons hc.isBlank_eq_false]
  simp [Stage.stepOn, hne]

/-- A key and its colon are passed. -/
theorem pass_key {k w₁ : List Char} (outer : List Bracket) {s : List Char}
    (hk : walk.passText (k ++ '"' :: (w₁ ++ ':' :: s)) = .ok (w₁ ++ ':' :: s)) (h₁ : Blank w₁) :
    pass walk (.next .object outer) ('"' :: (k ++ '"' :: (w₁ ++ ':' :: s))) =
      pass walk (.value (.object :: outer)) s := by
  refine pass_of_step ?_
  have hne : '"' ≠ Bracket.object.close := by decide
  rw [Stage.step, skipBlank_cons rfl]
  simp only [Stage.stepOn, List.head?_cons, Option.some.injEq, hne, and_false, if_false]
  refine bind_eq_ok_iff.2 ⟨_, hk, ?_⟩
  exact bind_eq_ok_iff.2 ⟨_, Stage.readColon_eq_ok_iff.2 ⟨w₁, rfl, h₁⟩, rfl⟩

/-- An item starts, behind white space, with something else than a closing bracket. -/
theorem Written.exists_item {b : Bracket} {s : List Char} (h : Written (.item b) s) :
    ∃ w c s', s = w ++ c :: s' ∧ Blank w ∧ StartsValue c := by
  cases h with
  | @element w v w' hw hv _ =>
    obtain ⟨c, v', rfl, hc⟩ := IsValue.exists_cons hv
    exact ⟨w, c, v' ++ w', by simp, hw, hc⟩
  | member hw _ _ _ _ _ => exact ⟨_, '"', _, rfl, hw, .inl rfl⟩

theorem Written.exists_items {b : Bracket} {s : List Char} (h : Written (.items b) s) :
    ∃ w c s', s = w ++ c :: s' ∧ Blank w ∧ StartsValue c := by
  cases h with
  | one hi => exact hi.exists_item
  | @more _ _ s₂ hi _ =>
    obtain ⟨w, c, s', rfl, hw, hc⟩ := hi.exists_item
    exact ⟨w, c, s' ++ ',' :: s₂, by simp, hw, hc⟩

/-- In front of items an opening bracket and a comma are the same to a walk. -/
theorem pass_opened {b : Bracket} {s : List Char} (h : Written (.items b) s) (outer : List Bracket)
    (rest : List Char) :
    pass walk (.opened b outer) (s ++ rest) = pass walk (.next b outer) (s ++ rest) := by
  obtain ⟨w, c, s', rfl, hw, hc⟩ := h.exists_items
  refine pass_congr ?_
  rw [List.append_assoc, Stage.step, Stage.step, skipBlank_append hw, List.cons_append,
    skipBlank_cons hc.isBlank_eq_false]
  have hne : (c :: (s' ++ rest)).head? ≠ some b.close := by
    simpa using hc.ne_close b
  simp only [Stage.stepOn]
  rw [if_neg hne, if_neg (List.cons_ne_nil c _), if_neg fun htrailing => hne htrailing.2]
  cases b <;> rfl

/-- What it means that a walk passes a part of a value, whatever stands behind it: inside of any
brackets at which it may go on at the rigour of that part. -/
def Passes (walk r : Rigour) : Part → List Char → Prop
  | .value, s => ∀ outer rest, walk.Allows outer r → EndsNumber rest →
      pass walk (.value outer) (s ++ rest) = resume walk (Stage.behind outer) rest
  | .item b, s => ∀ outer rest, walk.Allows (b :: outer) r → EndsNumber rest →
      pass walk (.next b outer) (s ++ rest) = pass walk (.ended b outer) rest
  | .items b, s => ∀ outer rest, walk.Allows (b :: outer) r →
      pass walk (.next b outer) (s ++ b.close :: rest) = resume walk (Stage.behind outer) rest

/-- **A walk passes every part of a value that it has to pass**, by induction on how it is written.
-/
theorem Passable.passes {r : Rigour} {part : Part} {s : List Char} (h : Passable r part s) :
    Passes walk r part s := by
  -- Induction on how the part is written; the brackets around it and the text behind it vary.
  induction h with
  | null =>
    intro outer rest _ _
    exact pass_scalar outer rfl (by simp) (by simp) rfl
  | yes =>
    intro outer rest _ _
    exact pass_scalar outer rfl (by simp) (by simp) rfl
  | no =>
    intro outer rest _ _
    exact pass_scalar outer rfl (by simp) (by simp) rfl
  | @text r s hs =>
    intro outer rest ha _
    have he : '"' :: (s ++ ['"']) ++ rest = '"' :: (s ++ '"' :: rest) := by simp
    rw [he]
    exact pass_scalar outer rfl (by simp) (by simp) (ha.passText hs rest)
  | number hn =>
    -- the only scalar that does not say itself where it ends
    intro outer rest ha hr
    have hscalar := passScalar_number hn.isNumber (ha.passNumber hn hr)
    obtain ⟨c, v, rfl, hc⟩ := hn.isNumber.exists_cons
    have hs : StartsValue c := startsValue_of_number hc
    refine pass_scalar outer (skipBlank_cons hs.isBlank_eq_false _) ?_ ?_ hscalar
    · rcases hc with rfl | hc
      · simp
      · rintro ⟨⟩
        simp at hc
    · rcases hc with rfl | hc
      · simp
      · rintro ⟨⟩
        simp at hc
  | @empty r r' b w hi hw =>
    intro outer rest ha _
    have he : b.opening :: (w ++ [b.close]) ++ rest = b.opening :: (w ++ b.close :: rest) := by simp
    rw [he, pass_opening b (ha.inner hi b).1, pass_blank_append hw,
      pass_close b outer rest (.inl rfl)]
  | @filled r r' b s hi hs ih =>
    -- behind the opening bracket the walk goes on as behind a comma
    intro outer rest ha _
    have he : b.opening :: (s ++ [b.close]) ++ rest = b.opening :: (s ++ b.close :: rest) := by simp
    obtain ⟨hadmits, hinner⟩ := ha.inner hi b
    rw [he, pass_opening b hadmits, pass_opened hs.written, ih outer rest hinner]
  | @element r w v w' hw hv hw' ih =>
    -- the value is passed with the list as its innermost bracket
    intro outer rest ha hr
    have hvalue := ih (.list :: outer) (w' ++ rest) ha (hr.blank_append hw')
    obtain ⟨c, v, rfl, hc⟩ := IsValue.exists_cons hv.written
    rw [List.append_assoc, List.append_assoc, pass_blank_append hw, List.cons_append,
      pass_next_list hc, ← List.cons_append, hvalue]
    exact pass_blank_append hw' rest
  | @member r w k w₁ w₂ v w' hw hk h₁ h₂ _ hw' ih =>
    -- one step for the key and its colon, then the value inside the object
    intro outer rest ha hr
    simp only [List.append_assoc, List.cons_append]
    rw [pass_blank_append hw, pass_key outer (ha.passText hk _) h₁, pass_blank_append h₂,
      ih _ _ ha (hr.blank_append hw')]
    exact pass_blank_append hw' rest
  | @one r b s _ ih =>
    -- the closing bracket ends the number that may stand last
    intro outer rest ha
    rw [ih outer _ ha (endsNumber_close b rest), pass_close b outer rest (.inr rfl)]
  | @more r b s s' _ _ ih ih' =>
    -- the first item up to the comma, and the other items from it on
    intro outer rest ha
    rw [List.append_assoc, List.cons_append, ih outer _ ha (endsNumber_comma _), pass_comma,
      ih' outer rest ha]

/-- **A walk passes the values that it has to pass**, behind white space and in front of what a
number may end in front of. -/
theorem passValue_complete {r : Rigour} {w v rest : List Char} (ha : walk.Allows [] r)
    (hw : Blank w) (hv : Passable r .value v) (hr : EndsNumber rest) :
    passValue walk (w ++ (v ++ rest)) = .ok rest := by
  rw [passValue, pass_blank_append hw, hv.passes [] rest ha hr]
  rfl

end Walk

/-- A loose walk passes every value. -/
theorem passValue_loose_complete {w v rest : List Char} (hw : Blank w) (hv : IsValue v)
    (hr : EndsNumber rest) : passValue .loose (w ++ (v ++ rest)) = .ok rest := by
  have ha : Rigour.loose.Allows [] .loose := trivial
  exact passValue_complete ha hw (Written.passable hv) hr

end ChainBoard.Json
