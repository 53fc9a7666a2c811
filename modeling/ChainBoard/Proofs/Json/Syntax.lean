import ChainBoard.Json.Document

/-!
# Walks stop for the way a text is written

What is wrong with a text is either the way it is written, which is wrong for any JSON text, or a
value that is not what its place demands. Whatever only looks what stands in front of it, walks over
a value or looks for the end of a text stops for the first reason alone. An amount is walked over
before it is looked at, so that its own faults are never those of the walk.

## Main definitions

* `Cause.IsSyntactic`: the causes for which any JSON text is refused
* `Syntactic`: a reader that stops for such a cause

## Main results

* `Seen.read_syntactic`, `passValue_syntactic`: looking at a value and walking over it
* `readAmount_syntactic`: reading an amount, whose own faults are a result
-/

namespace ChainBoard.Json

/-- The causes for which any JSON text is refused, whatever its places demand. -/
def Cause.IsSyntactic : Cause → Prop
  | wrongType _ _ | belowZero _ | missingField _ | repeatedField _ | tooShort _ _ _ | amount _ =>
    False
  | _ => True

theorem Cause.IsSyntactic.ne_amount {cause : Cause} (h : cause.IsSyntactic) (fault : Amount.Fault) :
    cause ≠ .amount fault := by
  rintro rfl
  exact h

/-- A result that is no stop, or a stop for the way the text is written. -/
def Syntactic {α : Type} (x : Except Stop α) : Prop :=
  ∀ stop, x = .error stop → stop.cause.IsSyntactic

section Combinators

variable {α β : Type} {x : Except Stop α}

@[simp] theorem syntactic_ok (a : α) : Syntactic (.ok a) := by
  rintro stop ⟨⟩

@[simp] theorem syntactic_error {stop : Stop} :
    Syntactic (.error stop : Except Stop α) ↔ stop.cause.IsSyntactic := by
  refine ⟨fun h => h stop rfl, ?_⟩
  rintro h stop' ⟨⟩
  exact h

@[simp] theorem syntactic_map {f : α → β} : Syntactic (x.map f) ↔ Syntactic x := by
  cases x with
  | error stop => exact syntactic_error.trans syntactic_error.symm
  | ok a => exact iff_of_true (syntactic_ok (f a)) (syntactic_ok a)

theorem Syntactic.bind {f : α → Except Stop β} (h : Syntactic x) (hf : ∀ a, Syntactic (f a)) :
    Syntactic (x >>= f) := by
  cases x with
  | error stop => exact syntactic_error.2 (h stop rfl)
  | ok a => exact hf a

end Combinators

/-! ## Words and texts -/

theorem readWord_syntactic (word s : List Char) : Syntactic (readWord word s) := by
  fun_induction readWord word s with
  | case1 => exact syntactic_ok _
  | case2 => exact syntactic_error.2 trivial
  | case3 _ _ _ ih => exact ih
  | case4 => exact syntactic_error.2 trivial

theorem readUnit_syntactic (s : List Char) : Syntactic (readUnit s) := by
  have hnot : Syntactic (.error (notUnit s) : Except Stop (Nat × List Char)) := by
    unfold notUnit
    split <;> exact syntactic_error.2 trivial
  unfold readUnit
  split
  · split
    · exact syntactic_ok _
    · exact hnot
  · exact hnot

theorem readTrailing_syntactic (s : List Char) : Syntactic (readTrailing s) := by
  unfold readTrailing
  split
  case h_3 =>
    apply (readUnit_syntactic _).bind
    intro p
    dsimp only
    split
    · exact syntactic_ok _
    · exact syntactic_error.2 trivial
  all_goals exact syntactic_error.2 trivial

theorem readCoded_syntactic (s : List Char) : Syntactic (readCoded s) := by
  unfold readCoded
  apply (readUnit_syntactic s).bind
  intro p
  dsimp only
  split
  · exact syntactic_error.2 trivial
  · split
    · exact (readTrailing_syntactic p.2).bind fun _ => syntactic_ok _
    · exact syntactic_ok _

theorem readEscape_syntactic (s : List Char) : Syntactic (readEscape s) := by
  unfold readEscape
  split
  · exact syntactic_error.2 trivial
  · exact readCoded_syntactic _
  · split
    · exact syntactic_ok _
    · exact syntactic_error.2 trivial

theorem readText_syntactic (s : List Char) : Syntactic (readText s) := by
  unfold readText
  generalize [] = done
  fun_induction readTextOnto done s with
  | case1 => exact syntactic_error.2 trivial
  | case2 => exact syntactic_ok _
  | case3 _ _ _ _ _ _ ih => exact ih
  | case4 _ s stop hescape => exact syntactic_error.2 (readEscape_syntactic s stop hescape)
  | case5 => exact syntactic_error.2 trivial
  | case6 _ _ _ _ _ _ ih => exact ih

/-! ## Numbers -/

namespace Literal

theorem readDigits_syntactic {atEnd : Cause} (h : atEnd.IsSyntactic) (s : List Char) :
    Syntactic (readDigits atEnd s) := by
  unfold readDigits
  split
  · exact syntactic_ok _
  · split
    · exact syntactic_error.2 h
    · exact syntactic_error.2 trivial

theorem readWhole_syntactic {atEnd : Cause} (h : atEnd.IsSyntactic) (s : List Char) :
    Syntactic (readWhole atEnd s) := by
  unfold readWhole
  split
  · split
    · exact syntactic_error.2 trivial
    · exact syntactic_ok _
  · exact readDigits_syntactic h _

theorem readFraction_syntactic {atEnd : Cause} (h : atEnd.IsSyntactic) (s : List Char) :
    Syntactic (readFraction atEnd s) := by
  unfold readFraction
  split
  · exact readDigits_syntactic h _
  · exact syntactic_ok _

theorem readExponent_syntactic {atEnd : Cause} (h : atEnd.IsSyntactic) (s : List Char) :
    Syntactic (readExponent atEnd s) := by
  have hpower (s : List Char) : Syntactic (readPower atEnd s) :=
    syntactic_map.2 (readDigits_syntactic h _)
  unfold readExponent
  split
  · exact hpower _
  · exact hpower _
  · exact syntactic_ok _

theorem read_syntactic {atEnd : Cause} (h : atEnd.IsSyntactic) (s : List Char) :
    Syntactic (read atEnd s) := by
  unfold read
  apply (readWhole_syntactic h _).bind
  intro whole
  apply (readFraction_syntactic h _).bind
  intro fraction
  apply (readExponent_syntactic h _).bind
  intro exponent
  exact syntactic_ok _

theorem number_syntactic (literal : Literal) (rest : List Char) :
    Syntactic (literal.number rest) := by
  have hrange (rest : List Char) :
      Syntactic (.error (Stop.before .numberOutOfRange rest) : Except Stop Number) :=
    syntactic_error.2 trivial
  unfold number fractional
  dsimp only
  -- a whole literal has its value, and every other one is in range or not
  split
  · exact syntactic_ok _
  split
  · exact syntactic_ok _
  split
  · split
    · exact syntactic_ok _
    · exact hrange _
  split
  · split
    · exact syntactic_ok _
    · exact hrange _
  split
  · exact hrange _
  · exact syntactic_ok _

end Literal

theorem Number.read_syntactic (s : List Char) : Syntactic (Number.read s) := by
  unfold Number.read
  have hend : Cause.endInValue.IsSyntactic := trivial
  apply (Literal.read_syntactic hend s).bind
  intro p
  exact (Literal.number_syntactic p.1 p.2).bind fun _ => syntactic_ok _

/-! ## Values -/

theorem Seen.read_syntactic (s : List Char) : Syntactic (Seen.read s) := by
  unfold Seen.read
  split
  · exact syntactic_error.2 trivial
  -- one case for each test of the reader, in its order
  split
  · exact syntactic_map.2 (readText_syntactic _)
  split
  · exact syntactic_ok _
  split
  · exact syntactic_ok _
  split
  · exact syntactic_map.2 (readWord_syntactic _ _)
  split
  · exact syntactic_map.2 (readWord_syntactic _ _)
  split
  · exact syntactic_map.2 (readWord_syntactic _ _)
  split
  · exact syntactic_map.2 (Number.read_syntactic _)
  · exact syntactic_error.2 trivial

section Walks

variable (room : Nat)

theorem Rigour.passScalar_syntactic (s : List Char) :
    Syntactic ((Rigour.exact room).passScalar s) := by
  unfold Rigour.passScalar
  split
  · exact syntactic_error.2 trivial
  split
  · exact syntactic_map.2 (readText_syntactic _)
  split
  · exact readWord_syntactic _ _
  split
  · exact readWord_syntactic _ _
  split
  · exact readWord_syntactic _ _
  split
  · exact syntactic_map.2 (Number.read_syntactic _)
  · exact syntactic_error.2 trivial

namespace Stage

theorem enter_syntactic (outer : List Bracket) (s : List Char) :
    Syntactic (enter (.exact room) outer s) := by
  unfold enter
  split
  · split
    · exact syntactic_ok _
    · exact syntactic_error.2 trivial
  · split
    · exact syntactic_ok _
    · exact syntactic_error.2 trivial
  · exact syntactic_map.2 (Rigour.passScalar_syntactic room _)

theorem readColon_syntactic (s : List Char) : Syntactic (readColon s) := by
  unfold readColon
  split
  · exact syntactic_error.2 trivial
  · split
    · exact syntactic_ok _
    · exact syntactic_error.2 trivial

theorem key_syntactic {atEnd : Cause} (h : atEnd.IsSyntactic) (outer : List Bracket)
    (s : List Char) : Syntactic (key (.exact room) atEnd outer s) := by
  unfold key
  split
  · exact syntactic_error.2 h
  · split
    · apply Syntactic.bind (syntactic_map.2 (readText_syntactic _))
      intro rest
      exact (readColon_syntactic rest).bind fun _ => syntactic_ok _
    · exact syntactic_error.2 trivial

theorem stepOn_syntactic (stage : Stage) (s : List Char) :
    Syntactic (stepOn (.exact room) stage s) := by
  -- at the end of the input, and where a comma is missing, each bracket has a cause of its own
  have hatEnd (bracket : Bracket) : bracket.atEnd.IsSyntactic := by
    cases bracket <;> exact trivial
  have hcomma (bracket : Bracket) : bracket.expectedComma.IsSyntactic := by
    cases bracket <;> exact trivial
  unfold stepOn
  cases stage with
  | value outer => exact enter_syntactic room outer s
  | opened inner outer =>
    dsimp only
    split
    · exact syntactic_ok _
    split
    · exact syntactic_error.2 (hatEnd inner)
    · cases inner with
      | list => exact enter_syntactic room _ s
      | object => exact key_syntactic room (hatEnd .object) outer s
  | next inner outer =>
    dsimp only
    split
    · exact syntactic_error.2 trivial
    · have hvalue : Cause.endInValue.IsSyntactic := trivial
      cases inner with
      | list => exact enter_syntactic room _ s
      | object => exact key_syntactic room hvalue outer s
  | ended inner outer =>
    dsimp only
    split
    · exact syntactic_ok _
    split
    · exact syntactic_ok _
    split
    · exact syntactic_error.2 (hatEnd inner)
    · exact syntactic_error.2 (hcomma inner)

end Stage

/-- What is walked over exactly is refused for the way it is written alone. -/
theorem passValue_syntactic (s : List Char) : Syntactic (passValue (.exact room) s) := by
  unfold passValue
  generalize Stage.value [] = stage
  generalize hrigour : Rigour.exact room = rigour
  -- Induction on the steps of the walk, each of which may be at any stage.
  fun_induction pass rigour stage s with
  | case1 stage s stop hstep =>
    subst hrigour
    exact syntactic_error.2 (Stage.stepOn_syntactic room stage _ stop hstep)
  | case2 => exact syntactic_ok _
  | case3 _ _ _ _ _ ih => exact ih

/-- An amount is refused for the way it is written; whether it is an amount is a result. -/
theorem readAmount_syntactic (s : List Char) : Syntactic (readAmount room s) := by
  unfold readAmount
  apply (Seen.read_syntactic s).bind
  intro p
  dsimp only
  split
  · exact (passValue_syntactic room s).bind fun _ => syntactic_ok _
  · exact (passValue_syntactic room s).bind fun _ => syntactic_ok _
  · exact syntactic_ok _

end Walks

theorem readEnd_syntactic (s : List Char) : Syntactic (readEnd s) := by
  unfold readEnd
  split
  · exact syntactic_ok _
  · exact syntactic_error.2 trivial

end ChainBoard.Json
