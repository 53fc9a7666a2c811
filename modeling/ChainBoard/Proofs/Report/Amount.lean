import ChainBoard.Proofs.Report.Format

/-!
# Amounts that stand alone

A whole text holds an amount exactly if, up to white space around it, it is a text in quotes that
names the amount, or a whole number of at most 64 bits. No value of another kind is taken for an
amount near it: signs, fractions and exponents are refused, even where they change nothing, and so
are whole numbers that are too great.

White space around a value can be told from the value, so that what a text holds is determined by
the text.

## Main definitions

* `IsNoAmount`: the values that are refused for what they are

## Main results

* `parseAmount_eq_ok_iff`: whole texts hold the amounts that they write, and nothing else
* `Padded.unique`: a text holds one value
* `IsNoAmount.not_isAmount`: what is refused is written unlike any amount
* `amounts_parse_exactly`: all of this, and both ways to write an amount of at most 64 bits
-/

namespace ChainBoard

namespace Json

/-! ## Whole texts that hold an amount -/

/-- A text is accepted if an amount is read from it, and only white space is left. -/
theorem parseAmount_eq_ok_iff_read {text : List Char} {n : Nat} :
    parseAmount text = .ok n ↔
      ∃ rest, readAmount bracketLimit text = .ok (.ok n, rest) ∧ Blank rest := by
  constructor
  · intro h
    obtain ⟨⟨amount, rest⟩, hread, h⟩ := bind_eq_ok_iff.1 h
    obtain ⟨m, hm, h⟩ := bind_eq_ok_iff.1 h
    obtain ⟨u, hu, he⟩ := bind_eq_ok_iff.1 h
    simp only [pure, Except.pure, Except.ok.injEq] at he
    subst he
    rw [mapError_eq_ok_iff] at hread hm hu
    exact ⟨rest, by rw [hread, hm], Schema.readEnd_eq_ok_iff.1 hu⟩
  · rintro ⟨rest, hread, hblank⟩
    refine bind_eq_ok_iff.2 ⟨(.ok n, rest), mapError_eq_ok_iff.2 hread, ?_⟩
    refine bind_eq_ok_iff.2 ⟨n, rfl, ?_⟩
    exact bind_eq_ok_iff.2 ⟨(), mapError_eq_ok_iff.2 (Schema.readEnd_eq_ok_iff.2 hblank), rfl⟩

/-- **A whole text holds an amount exactly if it writes it**, with white space around it. -/
theorem parseAmount_eq_ok_iff {text : List Char} {n : Nat} :
    parseAmount text = .ok n ↔ Padded (IsAmount · n) text := by
  rw [parseAmount_eq_ok_iff_read]
  constructor
  · rintro ⟨rest, hread, hblank⟩
    obtain ⟨w, v, rfl, hw, hv⟩ := readAmount_sound hread
    exact ⟨w, v, rest, rfl, hw, hblank, hv⟩
  · rintro ⟨w, v, w', rfl, hw, hw', hv⟩
    have hend : EndsNumber w' := by
      have := endsNumber_nil.blank_append hw'
      rwa [List.append_nil] at this
    exact ⟨w', readAmount_complete hw hv hend, hw'⟩

/-! ## White space around a value -/

theorem isBlank_eq_false_of_isDigit {c : Char} (h : c.isDigit = true) : isBlank c = false :=
  StartsValue.isBlank_eq_false (by simp [StartsValue, h])

/-- No character of a number is white space. -/
theorem IsNumber.isBlank_eq_false {v : List Char} (h : IsNumber v) :
    ∀ c ∈ v, isBlank c = false := by
  obtain ⟨sign, whole, fraction, exponent, rfl, hsign, hwhole, hfraction, hexponent⟩ := h
  have digits {ds : List Char} (hds : IsDigits ds) : ∀ c ∈ ds, isBlank c = false :=
    fun c hc => isBlank_eq_false_of_isDigit (hds.2 c hc)
  rw [List.forall_mem_append, List.forall_mem_append, List.forall_mem_append]
  refine ⟨?_, digits hwhole.1, ?_, ?_⟩
  · -- the sign
    rcases hsign with rfl | rfl
    · exact List.forall_mem_nil _
    · exact List.forall_mem_singleton.2 rfl
  · -- the fraction
    rcases hfraction with rfl | ⟨ds, rfl, hds⟩
    · exact List.forall_mem_nil _
    · exact List.forall_mem_cons.2 ⟨rfl, digits hds⟩
  · -- the exponent
    rcases hexponent with rfl | ⟨letter, sign, ds, rfl, hletter, hs, hds⟩
    · exact List.forall_mem_nil _
    refine List.forall_mem_cons.2 ⟨?_, List.forall_mem_append.2 ⟨?_, digits hds⟩⟩
    · rcases hletter with rfl | rfl
      · rfl
      · rfl
    · rcases hs with rfl | rfl | rfl
      · exact List.forall_mem_nil _
      · exact List.forall_mem_singleton.2 rfl
      · exact List.forall_mem_singleton.2 rfl

/-- A value does not end with white space. -/
theorem IsValue.exists_concat {v : List Char} (h : IsValue v) :
    ∃ v' c, v = v' ++ [c] ∧ isBlank c = false := by
  cases h with
  | null => exact ⟨['n', 'u', 'l'], 'l', rfl, rfl⟩
  | yes => exact ⟨['t', 'r', 'u'], 'e', rfl, rfl⟩
  | no => exact ⟨['f', 'a', 'l', 's'], 'e', rfl, rfl⟩
  | @text s _ => exact ⟨'"' :: s, '"', rfl, rfl⟩
  | number hn =>
    obtain ⟨c, v', rfl, -⟩ := hn.exists_cons
    refine ⟨_, _, (List.dropLast_concat_getLast (List.cons_ne_nil c v')).symm, ?_⟩
    exact hn.isBlank_eq_false _ (List.getLast_mem _)
  | @empty b w _ => exact ⟨b.opening :: w, b.close, rfl, by cases b <;> rfl⟩
  | @filled b s _ => exact ⟨b.opening :: s, b.close, rfl, by cases b <;> rfl⟩

/-- White space in front can be told from what does not start with it. -/
theorem append_blank_cancel {w w' s s' : List Char} {c c' : Char} (hw : Blank w) (hw' : Blank w')
    (hc : isBlank c = false) (hc' : isBlank c' = false)
    (h : w ++ c :: s = w' ++ c' :: s') : c :: s = c' :: s' := by
  have hskip := congrArg skipBlank h
  rwa [skipBlank_append hw, skipBlank_append hw', skipBlank_cons hc, skipBlank_cons hc'] at hskip

/-- **A text holds one value**: the white space around it can be told from it. -/
theorem Padded.unique {text v x : List Char} (hv : IsValue v) (hx : IsValue x)
    (h : Padded (· = v) text) (h' : Padded (· = x) text) : v = x := by
  obtain ⟨w, v, u, rfl, hw, hu, rfl⟩ := h
  obtain ⟨w', x, u', he, hw', hu', rfl⟩ := h'
  -- take the white space off in front, then turn around and do it again
  have hfront : v ++ u = x ++ u' := by
    obtain ⟨c, s, rfl, hc⟩ := hv.exists_cons
    obtain ⟨c', s', rfl, hc'⟩ := hx.exists_cons
    exact append_blank_cancel hw hw' hc.isBlank_eq_false hc'.isBlank_eq_false he
  have blank {w : List Char} (hw : Blank w) : Blank w.reverse :=
    fun c hc => hw c (List.mem_reverse.1 hc)
  have hback : u.reverse ++ v.reverse = u'.reverse ++ x.reverse := by
    rw [← List.reverse_append, ← List.reverse_append, hfront]
  obtain ⟨s, c, rfl, hc⟩ := hv.exists_concat
  obtain ⟨s', c', rfl, hc'⟩ := hx.exists_concat
  rw [List.reverse_concat, List.reverse_concat] at hback
  have hrev := append_blank_cancel (blank hu) (blank hu') hc hc' hback
  rw [← List.reverse_concat, ← List.reverse_concat] at hrev
  exact List.reverse_inj.1 hrev

/-! ## Values that are no amounts -/

/-- The values that are refused as amounts for what they are: numbers with a minus sign, a fraction
or an exponent, whole numbers of more than 64 bits, words, lists and objects. -/
inductive IsNoAmount : List Char → Prop
  | negative {v : List Char} : IsNumber ('-' :: v) → IsNoAmount ('-' :: v)
  | fraction {v : List Char} : IsNumber v → '.' ∈ v → IsNoAmount v
  | exponent {v : List Char} : IsNumber v → 'e' ∈ v ∨ 'E' ∈ v → IsNoAmount v
  | great {v : List Char} : IsWhole v → 2 ^ 64 ≤ Nat.ofDigitChars 10 v 0 → IsNoAmount v
  | null : IsNoAmount ['n', 'u', 'l', 'l']
  | yes : IsNoAmount ['t', 'r', 'u', 'e']
  | no : IsNoAmount ['f', 'a', 'l', 's', 'e']
  | bracket {b : Bracket} {v : List Char} : IsValue (b.opening :: v) →
      IsNoAmount (b.opening :: v)

theorem IsNoAmount.isValue {v : List Char} (h : IsNoAmount v) : IsValue v := by
  cases h with
  | negative hn => exact .number hn
  | fraction hn _ => exact .number hn
  | exponent hn _ => exact .number hn
  | great hw _ => exact .number (isNumber_of_isWhole hw)
  | null => exact .null
  | yes => exact .yes
  | no => exact .no
  | bracket hv => exact hv

/-- An amount starts with a quote or with a digit. -/
theorem IsAmount.head {c : Char} {v : List Char} {n : Nat} (h : IsAmount (c :: v) n) :
    c = '"' ∨ c.isDigit = true := by
  rcases h with ⟨t, ⟨s, hs, -⟩, -⟩ | hn
  · exact .inl (List.cons.inj hs).1
  · obtain ⟨d, ds, hd, hdigit⟩ := hn.exists_cons
    rw [(List.cons.inj hd).1]
    exact .inr hdigit

/-- A number is an amount only if it is a whole number of at most 64 bits. -/
theorem IsNumber.isNatural {v : List Char} {n : Nat} (hv : IsNumber v) (h : IsAmount v n) :
    IsNatural v n := by
  rcases h with ⟨t, ⟨s, rfl, -⟩, -⟩ | hn
  · -- a number does not start with a quote
    obtain ⟨c, v', he, hc⟩ := hv.exists_cons
    rw [← (List.cons.inj he).1] at hc
    simp at hc
  · exact hn

/-- What is refused is written unlike any amount. -/
theorem IsNoAmount.not_isAmount {v : List Char} {n : Nat} (h : IsNoAmount v) : ¬ IsAmount v n := by
  intro ha
  have digit {c : Char} (hn : IsNumber v) (hc : c ∈ v) : c.isDigit = true :=
    (hn.isNatural ha).1.1.2 c hc
  cases h with
  | negative hn => simpa using digit hn List.mem_cons_self
  | fraction hn hc => simpa using digit hn hc
  | exponent hn hc =>
    rcases hc with hc | hc
    · simpa using digit hn hc
    · simpa using digit hn hc
  | great hw hle =>
    obtain ⟨-, hvalue, hlt⟩ := (isNumber_of_isWhole hw).isNatural ha
    omega
  | null => simpa using ha.head
  | yes => simpa using ha.head
  | no => simpa using ha.head
  | @bracket b v _ =>
    have hhead := ha.head
    cases b <;> simp [Bracket.opening] at hhead

/-- A text that holds a value which is no amount is refused. -/
theorem parseAmount_of_isNoAmount {v text : List Char} (hv : IsNoAmount v)
    (h : Padded (· = v) text) : ∃ refusal, parseAmount text = .error refusal := by
  cases hparse : parseAmount text with
  | error refusal => exact ⟨refusal, rfl⟩
  | ok n =>
    obtain ⟨w, x, w', ht, hw, hw', hx⟩ := parseAmount_eq_ok_iff.1 hparse
    have hvalue : IsValue x := @Kind.isValue_of_denotes .amount _ _ hx
    have he : v = x := Padded.unique hv.isValue hvalue h ⟨w, x, w', ht, hw, hw', rfl⟩
    exact absurd (he ▸ hx) hv.not_isAmount

/-! ## Both ways to write an amount -/

/-- Digits stand for themselves between quotes. -/
theorem spells_of_isDigits {ds : List Char} (h : ∀ d ∈ ds, d.isDigit = true) : Spells ds ds := by
  apply spells_of_isPlain
  rw [List.all_eq_true]
  intro d hd
  have hdigit := h d hd
  have hle : 48 ≤ d.toNat := (Char.isDigit_iff_toNat.1 hdigit).1
  refine decide_eq_true ⟨?_, ?_, Nat.le_trans (by decide) hle⟩
  · rintro rfl
    cases hdigit
  · rintro rfl
    cases hdigit

/-- A whole number in quotes is the same amount as without them. -/
theorem IsNatural.isAmount_quoted {v : List Char} {n : Nat} (h : IsNatural v n) :
    IsAmount ('"' :: (v ++ ['"'])) n := by
  obtain ⟨hwhole, hvalue, -⟩ := h
  refine .inl ⟨v, ⟨v, rfl, spells_of_isDigits hwhole.1.2⟩, ?_⟩
  obtain ⟨d, ds, rfl, hd⟩ := Literal.exists_cons_of_isDigits hwhole.1
  have hds : ∀ c ∈ ds, c.isDigit = true := fun c hc => hwhole.1.2 c (List.mem_cons_of_mem d hc)
  have hfilter : ds.filter (· ≠ '_') = ds := by
    apply List.filter_eq_self.2
    intro c hc
    apply decide_eq_true
    rintro rfl
    simpa using hds '_' hc
  refine ⟨[], d, ds, rfl, .inl rfl, hd, fun c hc => .inl (hds c hc), ?_⟩
  rw [hfilter, hvalue]

/-- **Amounts are read from exactly their format, and no value is altered.** A whole text holds an
amount if and only if, up to white space around it, it is a text in quotes that names the amount, or
a whole number of at most 64 bits. Numbers with a minus sign, a fraction or an exponent, whole
numbers of more than 64 bits, words, lists and objects are refused, with any white space around them.
A whole number of at most 64 bits is the same amount in quotes and without them. -/
theorem amounts_parse_exactly :
    (∀ (text : List Char) (n : Nat), parseAmount text = .ok n ↔ Padded (IsAmount · n) text) ∧
      (∀ v text : List Char, IsNoAmount v → Padded (· = v) text →
        ∃ refusal, parseAmount text = .error refusal) ∧
      ∀ (v : List Char) (n : Nat), IsNatural v n →
        parseAmount v = .ok n ∧ parseAmount ('"' :: (v ++ ['"'])) = .ok n := by
  refine ⟨fun _ _ => parseAmount_eq_ok_iff, fun _ _ => parseAmount_of_isNoAmount, ?_⟩
  intro v n h
  have alone {x : List Char} (hx : IsAmount x n) : parseAmount x = .ok n :=
    parseAmount_eq_ok_iff.2 ⟨[], x, [], by simp, .nil, .nil, hx⟩
  exact ⟨alone (.inr h), alone h.isAmount_quoted⟩

end Json

end ChainBoard
