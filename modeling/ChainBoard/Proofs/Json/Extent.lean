import ChainBoard.Proofs.Json.Record

/-!
# No reader leaves more than it was given

A reader that stops says how many bytes it left unread. These are never more than the bytes in front
of it: it stops in front of or on a byte of what it was given, or of what another reader has left.
The place of a stop is therefore behind the bytes that were read, and there are that many.

## Main definitions

* `Keeps`: a fault leaves no more than a text
* `StopsIn`, `FailsIn`: the same for the stops of readers and the failures inside records

## Main results

* `Keeps.bind`: a sequence of readers
* `Schema.readWhole_stopsIn`: a reader of whole texts leaves no more than the text
-/

namespace ChainBoard.Json

open Text.Utf8 (byteSize)

/-! ## What a fault leaves -/

theorem byteSize_le_of_suffix {s rest : List Char} (h : rest <:+ s) :
    byteSize rest ≤ byteSize s := by
  obtain ⟨u, rfl⟩ := h
  rw [Text.Utf8.byteSize_append]
  exact Nat.le_add_left _ _

/-- What is left when a record fails. -/
def Failure.left : Failure → Nat
  | stopped stop => stop.left
  | unplaced _ rest => byteSize rest

/-- A result whose fault, if it is one, leaves no more than `s`. -/
def Keeps {ε α : Type} (left : ε → Nat) (s : List Char) (x : Except ε α) : Prop :=
  ∀ fault, x = .error fault → left fault ≤ byteSize s

/-- A reader of `s` that leaves no more than `s` when it stops. -/
@[reducible] def StopsIn {α : Type} (s : List Char) (x : Except Stop α) : Prop :=
  Keeps Stop.left s x

/-- A reader of `s` inside a record that leaves no more than `s` when it fails. -/
@[reducible] def FailsIn {α : Type} (s : List Char) (x : Except Failure α) : Prop :=
  Keeps Failure.left s x

namespace Keeps

variable {ε ε' α β : Type} {left : ε → Nat} {left' : ε' → Nat} {s rest : List Char}
  {x : Except ε α}

theorem ok (left : ε → Nat) (s : List Char) (a : α) : Keeps left s (.ok a) := by
  intro fault h
  cases h

theorem error {fault : ε} (h : left fault ≤ byteSize s) :
    Keeps left s (.error fault : Except ε α) := by
  intro fault' h'
  cases h'
  exact h

/-- What is left of the end of a text is left of the text. -/
theorem of_suffix (h : Keeps left rest x) (hs : rest <:+ s) : Keeps left s x := by
  intro fault hfault
  exact (h fault hfault).trans (byteSize_le_of_suffix hs)

theorem map (h : Keeps left s x) (f : α → β) : Keeps left s (x.map f) := by
  cases x with
  | error fault => exact error (h fault rfl)
  | ok a => exact ok left s (f a)

/-- In a sequence of readers, each one leaves no more than the one before it. -/
theorem bind {f : α → Except ε β} (h : Keeps left s x)
    (hf : ∀ a, x = .ok a → Keeps left s (f a)) : Keeps left s (x >>= f) := by
  cases x with
  | error fault => exact error (h fault rfl)
  | ok a => exact hf a rfl

theorem mapError {f : ε → ε'} (h : Keeps left s x)
    (hf : ∀ fault, left fault ≤ byteSize s → left' (f fault) ≤ byteSize s) :
    Keeps left' s (x.mapError f) := by
  cases x with
  | error fault => exact error (hf fault (h fault rfl))
  | ok a => exact ok left' s a

end Keeps

section Stops

variable {α : Type} {s rest : List Char}

/-- A stop in front of the end of a text. -/
theorem stopsIn_before (cause : Cause) (h : rest <:+ s) :
    StopsIn s (.error (Stop.before cause rest) : Except Stop α) :=
  Keeps.error (byteSize_le_of_suffix h)

/-- A stop on the first byte of the end of a text. -/
theorem stopsIn_on (cause : Cause) (h : rest <:+ s) :
    StopsIn s (.error (Stop.on cause rest) : Except Stop α) :=
  Keeps.error ((Nat.sub_le _ _).trans (byteSize_le_of_suffix h))

theorem failsIn_unplaced (cause : Cause) (h : rest <:+ s) :
    FailsIn s (.error (.unplaced cause rest) : Except Failure α) :=
  Keeps.error (byteSize_le_of_suffix h)

theorem failsIn_within {x : Except Stop α} (h : StopsIn s x) : FailsIn s (within x) :=
  h.mapError fun _ hle => hle

end Stops

theorem suffix_skipBlank (s : List Char) : skipBlank s <:+ s :=
  List.dropWhile_suffix isBlank

/-- What stands behind a character that follows white space. -/
theorem suffix_of_skipBlank_eq {s rest : List Char} {c : Char} (h : skipBlank s = c :: rest) :
    rest <:+ s :=
  (List.suffix_cons c rest).trans (h ▸ suffix_skipBlank s)

theorem readWord_stopsIn (word s : List Char) : StopsIn s (readWord word s) := by
  fun_induction readWord word s with
  | case1 s => exact Keeps.ok _ _ _
  | case2 w ws => exact stopsIn_before _ List.suffix_rfl
  | case3 w ws s ih => exact ih.of_suffix (List.suffix_cons _ _)
  | case4 w ws c s hne => exact stopsIn_on _ List.suffix_rfl

/-! ## Texts -/

theorem readUnit_stopsIn (s : List Char) : StopsIn s (readUnit s) := by
  have hnot : (notUnit s).left ≤ byteSize s := by
    unfold notUnit
    -- at the end of the text, or behind four bytes of it
    split
    · exact byteSize_le_of_suffix List.nil_suffix
    · exact Nat.sub_le _ _
  unfold readUnit
  split
  · split
    · exact Keeps.ok _ _ _
    · exact Keeps.error hnot
  · exact Keeps.error hnot

theorem suffix_of_readUnit {s rest : List Char} {n : Nat} (h : readUnit s = .ok (n, rest)) :
    rest <:+ s := by
  obtain ⟨a, b, c, d, rfl, -⟩ := readUnit_eq_ok_iff.1 h
  exact ⟨[a, b, c, d], rfl⟩

theorem readTrailing_stopsIn (s : List Char) : StopsIn s (readTrailing s) := by
  unfold readTrailing
  split
  · exact stopsIn_before _ List.suffix_rfl
  · exact stopsIn_before _ List.nil_suffix
  · rename_i s
    have hunit : s <:+ '\\' :: 'u' :: s := ⟨['\\', 'u'], rfl⟩
    apply Keeps.bind
    · exact (readUnit_stopsIn s).of_suffix hunit
    · intro p hp
      dsimp only
      split
      · exact Keeps.ok _ _ _
      · exact stopsIn_before _ ((suffix_of_readUnit hp).trans hunit)
  · exact stopsIn_on _ (List.suffix_cons _ _)
  · exact stopsIn_on _ List.suffix_rfl

theorem readCoded_stopsIn (s : List Char) : StopsIn s (readCoded s) := by
  unfold readCoded
  apply (readUnit_stopsIn s).bind
  intro p hp
  have hrest : p.2 <:+ s := suffix_of_readUnit hp
  dsimp only
  split
  · exact stopsIn_before _ hrest
  · split
    · apply ((readTrailing_stopsIn p.2).of_suffix hrest).bind
      intro q hq
      exact Keeps.ok _ _ _
    · exact Keeps.ok _ _ _

theorem readEscape_stopsIn (s : List Char) : StopsIn s (readEscape s) := by
  unfold readEscape
  split
  · exact stopsIn_before _ List.suffix_rfl
  · exact (readCoded_stopsIn _).of_suffix (List.suffix_cons _ _)
  · split
    · exact Keeps.ok _ _ _
    · exact stopsIn_on _ List.suffix_rfl

theorem passEscape_stopsIn (s : List Char) : StopsIn s (passEscape s) := by
  unfold passEscape
  split
  · exact stopsIn_before _ List.suffix_rfl
  · exact ((readUnit_stopsIn _).map _).of_suffix (List.suffix_cons _ _)
  · split
    · exact Keeps.ok _ _ _
    · exact stopsIn_on _ List.suffix_rfl

theorem readTextOnto_stopsIn (done s : List Char) : StopsIn s (readTextOnto done s) := by
  fun_induction readTextOnto done s with
  | case1 => exact stopsIn_before _ List.suffix_rfl
  | case2 => exact Keeps.ok _ _ _
  | case3 done s e rest hescape _ ih =>
    -- the reader goes on with what the escape has left
    obtain ⟨u, rfl, -⟩ := readEscape_sound hescape
    exact ih.of_suffix ⟨'\\' :: u, rfl⟩
  | case4 done s stop hescape =>
    -- the stop is inside the escape
    have hstop : stop.left ≤ byteSize s := readEscape_stopsIn s stop hescape
    exact Keeps.error (hstop.trans (byteSize_le_of_suffix (List.suffix_cons _ s)))
  | case5 => exact stopsIn_on _ List.suffix_rfl
  | case6 done c s _ _ _ ih => exact ih.of_suffix (List.suffix_cons c s)

theorem readText_stopsIn (s : List Char) : StopsIn s (readText s) :=
  readTextOnto_stopsIn [] s

theorem passText_stopsIn (s : List Char) : StopsIn s (passText s) := by
  fun_induction passText s with
  | case1 => exact stopsIn_before _ List.suffix_rfl
  | case2 => exact Keeps.ok _ _ _
  | case3 s rest hescape _ ih =>
    obtain ⟨u, rfl, -⟩ := passEscape_sound hescape
    exact ih.of_suffix ⟨'\\' :: u, rfl⟩
  | case4 s stop hescape =>
    have hstop : stop.left ≤ byteSize s := passEscape_stopsIn s stop hescape
    exact Keeps.error (hstop.trans (byteSize_le_of_suffix (List.suffix_cons _ s)))
  | case5 => exact stopsIn_before _ List.suffix_rfl
  | case6 c s _ _ _ ih => exact ih.of_suffix (List.suffix_cons c s)

/-! ## Numbers -/

namespace Literal

theorem readDigits_stopsIn (atEnd : Cause) (s : List Char) : StopsIn s (readDigits atEnd s) := by
  unfold readDigits
  split
  · exact Keeps.ok _ _ _
  · split
    · exact stopsIn_before _ List.suffix_rfl
    · exact stopsIn_on _ List.suffix_rfl

theorem readWhole_stopsIn (atEnd : Cause) (s : List Char) : StopsIn s (readWhole atEnd s) := by
  unfold readWhole
  split
  · split
    · exact stopsIn_on _ (List.suffix_cons _ _)
    · exact Keeps.ok _ _ _
  · exact readDigits_stopsIn atEnd _

theorem readFraction_stopsIn (atEnd : Cause) (s : List Char) :
    StopsIn s (readFraction atEnd s) := by
  unfold readFraction
  split
  · exact (readDigits_stopsIn atEnd _).of_suffix (List.suffix_cons _ _)
  · exact Keeps.ok _ _ _

theorem readPower_stopsIn (atEnd : Cause) (s : List Char) : StopsIn s (readPower atEnd s) := by
  obtain ⟨sign, hs, -⟩ := readSign_sound s
  have hsign : (readSign s).2 <:+ s := ⟨sign, hs.symm⟩
  exact ((readDigits_stopsIn atEnd _).of_suffix hsign).map _

theorem readExponent_stopsIn (atEnd : Cause) (s : List Char) :
    StopsIn s (readExponent atEnd s) := by
  unfold readExponent
  split
  · exact (readPower_stopsIn atEnd _).of_suffix (List.suffix_cons _ _)
  · exact (readPower_stopsIn atEnd _).of_suffix (List.suffix_cons _ _)
  · exact Keeps.ok _ _ _

theorem read_stopsIn (atEnd : Cause) (s : List Char) : StopsIn s (read atEnd s) := by
  obtain ⟨sign, hs, -⟩ := readMinus_sound s
  have hminus : (readMinus s).2 <:+ s := ⟨sign, hs.symm⟩
  unfold read
  -- sign, whole part, fraction and exponent, each with what the one before it has left
  apply ((readWhole_stopsIn atEnd _).of_suffix hminus).bind
  intro whole hwhole
  have hw : whole.2 <:+ s := by
    refine List.IsSuffix.trans ?_ hminus
    rw [(readWhole_sound hwhole).1]
    exact List.suffix_append _ _
  apply ((readFraction_stopsIn atEnd _).of_suffix hw).bind
  intro fraction hfraction
  obtain ⟨f, hf, -⟩ := readFraction_sound hfraction
  have hfrac : fraction.2 <:+ s := List.IsSuffix.trans ⟨f, hf.symm⟩ hw
  apply ((readExponent_stopsIn atEnd _).of_suffix hfrac).bind
  intro exponent _
  exact Keeps.ok _ _ _

/-- What is not read of an exponent is the end of its digits. -/
theorem suffix_of_overrun {power : Nat} {ds unread : List Char}
    (h : overrun? power ds = some unread) : unread <:+ ds := by
  induction ds generalizing power with
  | nil => cases h
  | cons d ds ih =>
    rw [overrun?] at h
    split at h
    · exact (ih h).trans (List.suffix_cons _ _)
    · cases h
      exact List.suffix_cons _ _

theorem fractional_stopsIn {literal : Literal} {t : List Char} (h : literal.Spelled t)
    (rest : List Char) : StopsIn (t ++ rest) (literal.fractional rest) := by
  -- a number out of range is noticed behind the literal
  have hbehind : StopsIn (t ++ rest)
      (.error (Stop.before .numberOutOfRange rest) : Except Stop Number) :=
    stopsIn_before _ (List.suffix_append t rest)
  unfold fractional
  dsimp only
  split
  · split
    · exact Keeps.ok _ _ _
    · exact hbehind
  · rename_i exponent hexponent
    split
    · split
      · exact Keeps.ok _ _ _
      · exact hbehind
    · rename_i unread hunread
      split
      · -- the stop is inside the exponent, whose digits end the literal
        have hdigits : exponent.digits <:+ t := by
          obtain ⟨sign, f, e, rfl, -, -, -, he⟩ := h
          rw [hexponent] at he
          obtain ⟨-, letter, sign', rfl, -⟩ := he
          exact ⟨sign ++ (literal.whole ++ (f ++ letter :: sign')), by simp⟩
        obtain ⟨u, hu⟩ := (suffix_of_overrun hunread).trans hdigits
        apply stopsIn_before
        exact ⟨u, by rw [← List.append_assoc, hu]⟩
      · exact Keeps.ok _ _ _

theorem number_stopsIn {literal : Literal} {t : List Char} (h : literal.Spelled t)
    (rest : List Char) : StopsIn (t ++ rest) (literal.number rest) := by
  unfold number
  dsimp only
  split
  · exact Keeps.ok _ _ _
  · split
    · exact Keeps.ok _ _ _
    · exact fractional_stopsIn h rest

end Literal

theorem Number.read_stopsIn (s : List Char) : StopsIn s (Number.read s) := by
  unfold Number.read
  apply (Literal.read_stopsIn _ s).bind
  intro p hp
  obtain ⟨t, rfl, ht⟩ := Literal.read_sound hp
  apply (Literal.number_stopsIn ht p.2).bind
  intro x _
  exact Keeps.ok _ _ _

/-! ## Values -/

theorem Seen.read_stopsIn (s : List Char) : StopsIn s (Seen.read s) := by
  unfold Seen.read
  split
  · exact stopsIn_before _ List.nil_suffix
  · rename_i c rest hs
    have hrest : rest <:+ s := suffix_of_skipBlank_eq hs
    have hcons : c :: rest <:+ s := hs ▸ suffix_skipBlank s
    -- one case for each test of the reader, in its order
    split
    · exact ((readText_stopsIn rest).of_suffix hrest).map _
    split
    · exact Keeps.ok _ _ _
    split
    · exact Keeps.ok _ _ _
    split
    · exact ((readWord_stopsIn _ rest).of_suffix hrest).map _
    split
    · exact ((readWord_stopsIn _ rest).of_suffix hrest).map _
    split
    · exact ((readWord_stopsIn _ rest).of_suffix hrest).map _
    split
    · exact ((Number.read_stopsIn _).of_suffix hcons).map _
    · exact stopsIn_on _ hcons

/-- What is left behind what is seen. -/
theorem Seen.suffix_of_read {s rest : List Char} {seen : Seen}
    (h : Seen.read s = .ok (seen, rest)) : rest <:+ s := by
  obtain ⟨w, c, s', rfl, -, hseen⟩ := Seen.read_sound h
  apply List.IsSuffix.trans ?_ (List.suffix_append w (c :: s'))
  -- of a bracket nothing is read, and of all else its characters
  cases seen with
  | null => exact hseen.2 ▸ ⟨[c, 'u', 'l', 'l'], rfl⟩
  | boolean b =>
    cases b with
    | true => exact hseen.2 ▸ ⟨[c, 'r', 'u', 'e'], rfl⟩
    | false => exact hseen.2 ▸ ⟨[c, 'a', 'l', 's', 'e'], rfl⟩
  | number x =>
    obtain ⟨v, hv, -⟩ := Number.read_sound hseen
    exact ⟨v, hv.symm⟩
  | text t =>
    obtain ⟨-, body, rfl, -⟩ := hseen
    exact ⟨c :: (body ++ ['"']), by simp⟩
  | list => exact hseen.2 ▸ List.suffix_rfl
  | object => exact hseen.2 ▸ List.suffix_rfl

namespace Rigour

theorem passText_stopsIn (rigour : Rigour) (s : List Char) : StopsIn s (rigour.passText s) := by
  cases rigour with
  | exact room => exact (readText_stopsIn s).map _
  | loose => exact Json.passText_stopsIn s

theorem passNumber_stopsIn (rigour : Rigour) (s : List Char) :
    StopsIn s (rigour.passNumber s) := by
  cases rigour with
  | exact room => exact (Number.read_stopsIn s).map _
  | loose => exact (Literal.read_stopsIn _ s).map _

theorem passScalar_stopsIn (rigour : Rigour) (s : List Char) :
    StopsIn s (rigour.passScalar s) := by
  unfold passScalar
  split
  · exact stopsIn_before _ List.suffix_rfl
  · rename_i c rest
    have hrest : rest <:+ c :: rest := List.suffix_cons c rest
    split
    · exact (rigour.passText_stopsIn rest).of_suffix hrest
    split
    · exact (readWord_stopsIn _ rest).of_suffix hrest
    split
    · exact (readWord_stopsIn _ rest).of_suffix hrest
    split
    · exact (readWord_stopsIn _ rest).of_suffix hrest
    split
    · exact rigour.passNumber_stopsIn _
    · exact stopsIn_on _ List.suffix_rfl

end Rigour

namespace Stage

theorem enter_stopsIn (rigour : Rigour) (outer : List Bracket) (s : List Char) :
    StopsIn s (enter rigour outer s) := by
  unfold enter
  split
  · split
    · exact Keeps.ok _ _ _
    · exact stopsIn_on _ List.suffix_rfl
  · split
    · exact Keeps.ok _ _ _
    · exact stopsIn_on _ List.suffix_rfl
  · exact (rigour.passScalar_stopsIn _).map _

theorem readColon_stopsIn (s : List Char) : StopsIn s (readColon s) := by
  unfold readColon
  split
  · exact stopsIn_before _ List.nil_suffix
  · rename_i c rest hs
    split
    · exact Keeps.ok _ _ _
    · exact stopsIn_on _ (hs ▸ suffix_skipBlank s)

theorem key_stopsIn (rigour : Rigour) (atEnd : Cause) (outer : List Bracket) (s : List Char) :
    StopsIn s (key rigour atEnd outer s) := by
  unfold key
  split
  · exact stopsIn_before _ List.suffix_rfl
  · rename_i c rest
    split
    · apply ((rigour.passText_stopsIn rest).of_suffix (List.suffix_cons c rest)).bind
      intro behind hbehind
      obtain ⟨body, rfl, -⟩ := Rigour.passText_sound hbehind
      have hsuffix : behind <:+ c :: (body ++ '"' :: behind) := ⟨c :: (body ++ ['"']), by simp⟩
      apply ((readColon_stopsIn behind).of_suffix hsuffix).bind
      intro value _
      exact Keeps.ok _ _ _
    · exact stopsIn_on _ List.suffix_rfl

theorem stepOn_stopsIn (rigour : Rigour) (stage : Stage) (s : List Char) :
    StopsIn s (stepOn rigour stage s) := by
  unfold stepOn
  cases stage with
  | value outer => exact enter_stopsIn rigour outer s
  | opened inner outer =>
    dsimp only
    split
    · exact Keeps.ok _ _ _
    split
    · exact stopsIn_before _ List.nil_suffix
    · cases inner with
      | list => exact enter_stopsIn rigour _ s
      | object => exact key_stopsIn rigour _ outer s
  | next inner outer =>
    dsimp only
    split
    · exact stopsIn_on _ List.suffix_rfl
    · cases inner with
      | list => exact enter_stopsIn rigour _ s
      | object => exact key_stopsIn rigour _ outer s
  | ended inner outer =>
    dsimp only
    split
    · exact Keeps.ok _ _ _
    split
    · exact Keeps.ok _ _ _
    split
    · exact stopsIn_before _ List.nil_suffix
    · exact stopsIn_on _ List.suffix_rfl

theorem step_stopsIn (rigour : Rigour) (stage : Stage) (s : List Char) :
    StopsIn s (stage.step rigour s) :=
  (stepOn_stopsIn rigour stage _).of_suffix (suffix_skipBlank s)

end Stage

/-- A walk stops inside of what its steps have left. -/
theorem pass_stopsIn (rigour : Rigour) (stage : Stage) (s : List Char) :
    StopsIn s (pass rigour stage s) := by
  fun_induction pass rigour stage s with
  | case1 stage s stop hstep => exact Keeps.error (Stage.step_stopsIn rigour stage s stop hstep)
  | case2 => exact Keeps.ok _ _ _
  | case3 stage s next rest hstep ih =>
    obtain ⟨u, rfl, -⟩ := Stage.step_sound hstep
    exact ih.of_suffix (List.suffix_append u rest)

theorem passValue_stopsIn (rigour : Rigour) (s : List Char) : StopsIn s (passValue rigour s) :=
  pass_stopsIn rigour (.value []) s

/-! ## Fields -/

theorem readNatural_stopsIn (s : List Char) : StopsIn s (readNatural s) := by
  unfold readNatural
  apply (Seen.read_stopsIn s).bind
  intro p hp
  have hrest : p.2 <:+ s := Seen.suffix_of_read hp
  dsimp only
  split
  · exact Keeps.ok _ _ _
  · exact stopsIn_before _ hrest
  · exact stopsIn_before _ hrest

theorem readOptional_stopsIn (s : List Char) : StopsIn s (readOptional s) := by
  unfold readOptional
  split
  · rename_i rest hs
    exact ((readWord_stopsIn _ rest).of_suffix (suffix_of_skipBlank_eq hs)).map _
  · exact (readNatural_stopsIn s).map _

theorem readTextValue_stopsIn (s : List Char) : StopsIn s (readTextValue s) := by
  unfold readTextValue
  apply (Seen.read_stopsIn s).bind
  intro p hp
  dsimp only
  split
  · exact Keeps.ok _ _ _
  · exact stopsIn_before _ (Seen.suffix_of_read hp)

theorem readAmount_stopsIn (room : Nat) (s : List Char) : StopsIn s (readAmount room s) := by
  have hpass (amount : Except Amount.Fault Nat) :
      StopsIn s (do return (amount, ← passValue (.exact room) s)) := by
    apply (passValue_stopsIn _ s).bind
    intro rest _
    exact Keeps.ok _ _ _
  unfold readAmount
  apply (Seen.read_stopsIn s).bind
  intro p _
  dsimp only
  split
  · exact hpass _
  · exact hpass _
  · exact Keeps.ok _ _ _

theorem suffix_of_readAmount {room : Nat} {s rest : List Char} {amount : Except Amount.Fault Nat}
    (h : readAmount room s = .ok (amount, rest)) : rest <:+ s := by
  have hpass {amount' : Except Amount.Fault Nat}
      (h : (do return (amount', ← passValue (.exact room) s)) =
        (.ok (amount, rest) : Except Stop _)) : rest <:+ s := by
    obtain ⟨rest', hrest, hpair⟩ := bind_eq_ok_iff.1 h
    obtain ⟨-, rfl⟩ := Prod.mk.inj (Except.ok.inj hpair)
    obtain ⟨w, v, rfl, -⟩ := passValue_sound hrest
    exact ⟨w ++ v, by rw [List.append_assoc]⟩
  unfold readAmount at h
  obtain ⟨p, hp, h⟩ := bind_eq_ok_iff.1 h
  dsimp only at h
  split at h
  · exact hpass h
  · exact hpass h
  · cases h
    exact Seen.suffix_of_read hp

theorem readAmountField_failsIn (s : List Char) : FailsIn s (readAmountField s) := by
  unfold readAmountField
  split
  · exact Keeps.ok _ _ _
  · rename_i hread
    exact failsIn_unplaced _ (suffix_of_readAmount hread)
  · rename_i stop hread
    have hstop : stop.left ≤ byteSize s := readAmount_stopsIn _ s stop hread
    exact Keeps.error hstop

theorem Kind.read_failsIn (kind : Kind) (s : List Char) : FailsIn s (kind.read s) := by
  cases kind with
  | natural => exact failsIn_within (readNatural_stopsIn s)
  | optional => exact failsIn_within (readOptional_stopsIn s)
  | text => exact failsIn_within (readTextValue_stopsIn s)
  | amount => exact readAmountField_failsIn s

theorem Kind.suffix_of_read {kind : Kind} {s rest : List Char} {x : kind.Carrier}
    (h : kind.read s = .ok (x, rest)) : rest <:+ s := by
  obtain ⟨w, v, rfl, -⟩ := Kind.read_sound h
  exact ⟨w ++ v, by rw [List.append_assoc]⟩

/-! ## Records written as objects -/

theorem readLaterName_stopsIn (s : List Char) : StopsIn s (readLaterName s) := by
  unfold readLaterName
  split
  · exact stopsIn_before _ List.nil_suffix
  · rename_i c rest hs
    split
    · exact ((readText_stopsIn rest).of_suffix (suffix_of_skipBlank_eq hs)).map _
    split
    · exact stopsIn_on _ (hs ▸ suffix_skipBlank s)
    · exact stopsIn_on _ (hs ▸ suffix_skipBlank s)

theorem readName_stopsIn (first : Bool) (s : List Char) : StopsIn s (readName first s) := by
  unfold readName
  split
  · exact stopsIn_before _ List.nil_suffix
  · rename_i c rest hs
    have hrest : rest <:+ s := suffix_of_skipBlank_eq hs
    split
    · exact Keeps.ok _ _ _
    split
    · split
      · exact ((readText_stopsIn rest).of_suffix hrest).map _
      · exact stopsIn_on _ (hs ▸ suffix_skipBlank s)
    split
    · exact (readLaterName_stopsIn rest).of_suffix hrest
    · exact stopsIn_on _ (hs ▸ suffix_skipBlank s)

theorem suffix_of_readName {first : Bool} {s name rest : List Char}
    (h : readName first s = .ok (some name, rest)) : rest <:+ s := by
  obtain ⟨p, w, k, rfl, -⟩ := readName_sound h
  exact ⟨p ++ (w ++ '"' :: (k ++ ['"'])), by simp⟩

theorem Draft.member_failsIn {fields : List Field} (draft : Draft fields) (name s : List Char) :
    FailsIn s (Draft.member fields draft name s) := by
  induction fields with
  | nil =>
    -- no field: the member is passed
    apply Keeps.map
    apply failsIn_within
    apply (Stage.readColon_stopsIn s).bind
    intro rest hcolon
    obtain ⟨w, rfl, -⟩ := Stage.readColon_eq_ok_iff.1 hcolon
    exact (passValue_stopsIn .loose rest).of_suffix ⟨w ++ [':'], by simp⟩
  | cons field fields ih =>
    obtain ⟨value?, draft⟩ := draft
    unfold Draft.member
    split
    · split
      · -- the field has been met before
        exact failsIn_unplaced _ List.suffix_rfl
      · apply (failsIn_within (Stage.readColon_stopsIn s)).bind
        intro rest hcolon
        obtain ⟨w, rfl, -⟩ := Stage.readColon_eq_ok_iff.1 (within_eq_ok_iff.1 hcolon)
        apply ((field.kind.read_failsIn rest).of_suffix ⟨w ++ [':'], by simp⟩).bind
        intro p _
        exact Keeps.ok _ _ _
    · exact (ih draft).map _

theorem Draft.suffix_of_member {fields : List Field} {draft draft' : Draft fields}
    {name s rest : List Char} (h : Draft.member fields draft name s = .ok (draft', rest)) :
    rest <:+ s := by
  obtain ⟨w, w', v, rfl, -⟩ := member_sound h
  exact ⟨w ++ ':' :: (w' ++ v), by simp⟩

/-- A record fails inside of what its members have left. -/
theorem readMembers_failsIn (fields : List Field) (first : Bool) (draft : Draft fields)
    (s : List Char) : FailsIn s (readMembers fields first draft s) := by
  -- Induction on the run of the reader, which goes on with what a member has left.
  fun_induction readMembers fields first draft s with
  | case1 first draft s stop hname =>
    have hstop : stop.left ≤ byteSize s := readName_stopsIn first s stop hname
    exact Keeps.error hstop
  | case2 => exact Keeps.ok _ _ _
  | case3 first draft s rest hname name hrow =>
    -- a field is missing, which is noticed in front of the closing bracket
    obtain ⟨w, r, rfl, rfl, -⟩ := readName_end_sound hname
    exact failsIn_unplaced _ (List.suffix_append w _)
  | case4 first draft s name rest hname failure hmember =>
    -- the failure is inside a member
    have hfailure : failure.left ≤ byteSize rest :=
      Draft.member_failsIn draft name rest failure hmember
    exact Keeps.error (hfailure.trans (byteSize_le_of_suffix (suffix_of_readName hname)))
  | case5 first draft s name rest hname draft' rest' hmember ih =>
    exact ih.of_suffix ((Draft.suffix_of_member hmember).trans (suffix_of_readName hname))

/-! ## Records written as lists -/

theorem readSeparator_stopsIn (first : Bool) (s : List Char) :
    StopsIn s (readSeparator first s) := by
  unfold readSeparator
  split
  · exact stopsIn_before _ List.nil_suffix
  · rename_i c rest hs
    split
    · exact Keeps.ok _ _ _
    split
    · exact Keeps.ok _ _ _
    split
    · split
      · exact stopsIn_before _ List.nil_suffix
      · rename_i d rest' hrest
        split
        · apply stopsIn_on
          exact (hrest ▸ suffix_skipBlank rest).trans (suffix_of_skipBlank_eq hs)
        · exact Keeps.ok _ _ _
    · exact stopsIn_on _ (hs ▸ suffix_skipBlank s)

theorem suffix_of_readSeparator {first more : Bool} {s rest : List Char}
    (h : readSeparator first s = .ok (more, rest)) : rest <:+ s := by
  cases more with
  | true =>
    obtain ⟨p, w, rfl, -⟩ := readSeparator_sound h
    exact ⟨p ++ w, by rw [List.append_assoc]⟩
  | false =>
    obtain ⟨w, r, rfl, -⟩ := readSeparator_end_sound h
    exact List.suffix_append w rest

theorem readElements_failsIn (schema : Schema) (fields : List Field) (index : Nat)
    (s : List Char) : FailsIn s (readElements schema fields index s) := by
  induction fields generalizing index s with
  | nil => exact Keeps.ok _ _ _
  | cons field fields ih =>
    unfold readElements
    apply (failsIn_within (readSeparator_stopsIn _ s)).bind
    rintro ⟨more, rest⟩ hseparator
    have hrest : rest <:+ s := suffix_of_readSeparator (within_eq_ok_iff.1 hseparator)
    dsimp only
    split
    · -- an element, and the fields behind it
      apply ((field.kind.read_failsIn rest).of_suffix hrest).bind
      intro p hp
      apply ((ih _ p.2).of_suffix ((Kind.suffix_of_read hp).trans hrest)).bind
      intro q _
      exact Keeps.ok _ _ _
    · -- the list is over, and the field may be left out or not
      split
      · apply ((ih _ rest).of_suffix hrest).bind
        intro q _
        exact Keeps.ok _ _ _
      · exact failsIn_unplaced _ hrest

theorem readListEnd_stopsIn (s : List Char) : StopsIn s (readListEnd s) := by
  unfold readListEnd
  split
  · exact stopsIn_before _ List.nil_suffix
  · rename_i c rest hs
    have hrest : skipBlank rest <:+ s := (suffix_skipBlank rest).trans (suffix_of_skipBlank_eq hs)
    split
    · exact Keeps.ok _ _ _
    split
    · split
      · exact stopsIn_on _ hrest
      · exact stopsIn_on _ hrest
    · exact stopsIn_on _ (hs ▸ suffix_skipBlank s)

/-! ## Whole texts -/

theorem readEnd_stopsIn (s : List Char) : StopsIn s (readEnd s) := by
  unfold readEnd
  split
  · exact Keeps.ok _ _ _
  · exact stopsIn_on _ (suffix_skipBlank s)

theorem suffix_leave (bracket : Bracket) (s : List Char) : leave bracket s <:+ s := by
  unfold leave
  split
  · exact List.nil_suffix
  · rename_i c rest hs
    have hrest : rest <:+ s := suffix_of_skipBlank_eq hs
    split
    · exact hrest
    split
    · exact (suffix_skipBlank rest).trans hrest
    · exact hs ▸ suffix_skipBlank s

/-- To leave a record reads on. -/
theorem Failure.left_stop_le {failure : Failure} {s : List Char} (bracket : Bracket)
    (h : failure.left ≤ byteSize s) : (failure.stop bracket).left ≤ byteSize s := by
  cases failure with
  | stopped stop => exact h
  | unplaced cause rest => exact (byteSize_le_of_suffix (suffix_leave bracket rest)).trans h

namespace Schema

theorem readObject_stopsIn (schema : Schema) (s : List Char) : StopsIn s (schema.readObject s) :=
  (readMembers_failsIn _ _ _ s).mapError fun _ h => Failure.left_stop_le .object h

theorem readList_stopsIn (schema : Schema) (s : List Char) : StopsIn s (schema.readList s) := by
  unfold readList
  apply ((readElements_failsIn schema _ 0 s).mapError
    fun _ h => Failure.left_stop_le .list h).bind
  intro p hp
  obtain ⟨vs, body, rfl, -⟩ := readElements_sound (mapError_eq_ok_iff.1 hp)
  apply ((readListEnd_stopsIn p.2).of_suffix (List.suffix_append body p.2)).bind
  intro rest _
  exact Keeps.ok _ _ _

theorem read_stopsIn (schema : Schema) (s : List Char) : StopsIn s (schema.read s) := by
  unfold read
  apply (Seen.read_stopsIn s).bind
  intro p hp
  have hrest : p.2 <:+ s := Seen.suffix_of_read hp
  have htail : p.2.tail <:+ s := (List.tail_suffix p.2).trans hrest
  dsimp only
  split
  · exact (schema.readObject_stopsIn _).of_suffix htail
  · exact (schema.readList_stopsIn _).of_suffix htail
  · exact stopsIn_before _ hrest

/-- **A reader of whole texts leaves no more than the text.** -/
theorem readWhole_stopsIn (schema : Schema) (text : List Char) :
    StopsIn text (schema.readWhole text) := by
  unfold readWhole
  apply (schema.read_stopsIn text).bind
  intro p hp
  obtain ⟨w, t, rfl, -⟩ := read_eq_ok_iff.1 hp
  apply ((readEnd_stopsIn p.2).of_suffix ⟨w ++ t, by rw [List.append_assoc]⟩).bind
  intro _ _
  exact Keeps.ok _ _ _

end Schema

end ChainBoard.Json
