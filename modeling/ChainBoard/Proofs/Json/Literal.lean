import ChainBoard.Proofs.Json.Reader

/-!
# Number literals and their forms

A literal is read exactly as far as its form reaches. The form alone does not say where it ends: a
digit, a point or the letter of an exponent behind a number would be taken into it. Completeness is
therefore stated for texts that a number can end in front of.

## Main definitions

* `EndsNumber`: what a number may end in front of
* `Literal.Spelled`: a literal and the text that it is read from

## Main results

* `Literal.read_sound`, `Literal.read_complete`: the form of a literal is read
* `Number.read_natural_sound`, `Number.read_natural_complete`: natural numbers are read
* `Number.read_append`: numbers of any kind are read in front of what they may end in front of
-/

namespace ChainBoard.Json

/-- A text that a number ends in front of: it starts with nothing that would make it longer. -/
def EndsNumber (rest : List Char) : Prop :=
  ∀ c, rest.head? = some c → c.isDigit = false ∧ c ≠ '.' ∧ c ≠ 'e' ∧ c ≠ 'E'

namespace Literal

/-- A fraction and its digits. -/
def FractionSpelled (ds f : List Char) : Prop :=
  (ds = [] ∧ f = []) ∨ (IsDigits ds ∧ f = '.' :: ds)

/-- An exponent and the text that it is read from. -/
def ExponentSpelled : Option Exponent → List Char → Prop
  | none, s => s = []
  | some x, s => IsDigits x.digits ∧ ∃ letter sign, s = letter :: (sign ++ x.digits) ∧
      (letter = 'e' ∨ letter = 'E') ∧
      ((sign = ['-'] ∧ x.negative = true) ∨ ((sign = [] ∨ sign = ['+']) ∧ x.negative = false))

/-- A literal and the text that it is read from. -/
def Spelled (l : Literal) (s : List Char) : Prop :=
  ∃ sign f e, s = sign ++ (l.whole ++ (f ++ e)) ∧
    ((sign = ['-'] ∧ l.negative = true) ∨ (sign = [] ∧ l.negative = false)) ∧
    IsWhole l.whole ∧ FractionSpelled l.fraction f ∧ ExponentSpelled l.exponent e

/-! ## Digits -/

theorem exists_cons_of_isDigits {ds : List Char} (h : IsDigits ds) :
    ∃ d ds', ds = d :: ds' ∧ d.isDigit = true := by
  obtain ⟨hne, hd⟩ := h
  obtain ⟨d, ds', rfl⟩ := List.exists_cons_of_ne_nil hne
  exact ⟨d, ds', rfl, hd d List.mem_cons_self⟩

theorem readDigits_sound {atEnd : Cause} {s ds rest : List Char}
    (h : readDigits atEnd s = .ok (ds, rest)) : s = ds ++ rest ∧ IsDigits ds := by
  unfold readDigits at h
  split at h
  · -- a digit stands in front, so that the digits are not empty
    rename_i hs
    simp only [Except.ok.injEq, Prod.mk.injEq] at h
    obtain ⟨rfl, rfl⟩ := h
    refine ⟨List.takeWhile_append_dropWhile.symm, ?_, fun c hc => List.mem_takeWhile_imp hc⟩
    match s, hs with
    | c :: s, hs =>
      have hc : c.isDigit = true := hs
      simp [hc]
  · split at h <;> simp at h

theorem readDigits_complete {ds rest : List Char} (atEnd : Cause) (h : IsDigits ds)
    (hr : startsWithDigit rest = false) : readDigits atEnd (ds ++ rest) = .ok (ds, rest) := by
  have hs : startsWithDigit (ds ++ rest) = true := by
    obtain ⟨d, ds', rfl, hd⟩ := exists_cons_of_isDigits h
    exact hd
  -- Behind the digits no further digit is taken.
  have ht : rest.takeWhile Char.isDigit = [] ∧ rest.dropWhile Char.isDigit = rest := by
    cases rest with
    | nil => exact ⟨rfl, rfl⟩
    | cons c rest =>
      have hc : c.isDigit = false := hr
      simp [hc]
  rw [readDigits, if_pos hs, List.takeWhile_append_of_pos h.2, List.dropWhile_append_of_pos h.2,
    ht.1, ht.2, List.append_nil]

theorem readWhole_sound {atEnd : Cause} {s ds rest : List Char}
    (h : readWhole atEnd s = .ok (ds, rest)) : s = ds ++ rest ∧ IsWhole ds := by
  unfold readWhole at h
  split at h
  · -- a zero in front, which has to be the only digit
    split at h
    · simp at h
    · simp only [Except.ok.injEq, Prod.mk.injEq] at h
      obtain ⟨rfl, rfl⟩ := h
      refine ⟨rfl, ⟨by simp, ?_⟩, fun _ => rfl⟩
      intro c hc
      rw [List.mem_singleton.1 hc]
      rfl
  · -- no zero in front: it would have been read by the other equation
    rename_i hz
    obtain ⟨rfl, hd⟩ := readDigits_sound h
    refine ⟨rfl, hd, ?_⟩
    intro h0
    obtain ⟨d, ds', rfl, -⟩ := exists_cons_of_isDigits hd
    cases h0
    exact absurd rfl (hz _)

theorem readWhole_complete {ds rest : List Char} (atEnd : Cause) (h : IsWhole ds)
    (hr : startsWithDigit rest = false) : readWhole atEnd (ds ++ rest) = .ok (ds, rest) := by
  unfold readWhole
  split
  · -- a zero in front is all there is of a whole part
    rename_i s he
    obtain ⟨d, ds', rfl, -⟩ := exists_cons_of_isDigits h.1
    rw [List.cons_append, List.cons.injEq] at he
    obtain ⟨rfl, he⟩ := he
    have hz : ds' = [] := (List.cons.inj (h.2 rfl)).2
    subst hz
    rw [List.nil_append] at he
    simp [← he, hr]
  · exact readDigits_complete atEnd h.1 hr

/-! ## Fractions and exponents -/

theorem readFraction_sound {atEnd : Cause} {s ds rest : List Char}
    (h : readFraction atEnd s = .ok (ds, rest)) :
    ∃ f, s = f ++ rest ∧ FractionSpelled ds f := by
  unfold readFraction at h
  split at h
  · obtain ⟨rfl, hd⟩ := readDigits_sound h
    exact ⟨'.' :: ds, rfl, .inr ⟨hd, rfl⟩⟩
  · simp only [Except.ok.injEq, Prod.mk.injEq] at h
    obtain ⟨rfl, rfl⟩ := h
    exact ⟨[], rfl, .inl ⟨rfl, rfl⟩⟩

theorem readFraction_complete {ds f rest : List Char} (atEnd : Cause) (h : FractionSpelled ds f)
    (hr : startsWithDigit rest = false) (hp : rest.head? ≠ some '.') :
    readFraction atEnd (f ++ rest) = .ok (ds, rest) := by
  rcases h with ⟨rfl, rfl⟩ | ⟨hd, rfl⟩
  · -- no fraction: what follows must not look like one
    rw [List.nil_append]
    unfold readFraction
    split
    · exact absurd rfl hp
    · rfl
  · -- a point and digits
    exact readDigits_complete atEnd hd hr

theorem readSign_sound (s : List Char) : ∃ sign, s = sign ++ (readSign s).2 ∧
    ((sign = ['-'] ∧ (readSign s).1 = true) ∨
      ((sign = [] ∨ sign = ['+']) ∧ (readSign s).1 = false)) := by
  unfold readSign
  split
  · exact ⟨['-'], rfl, .inl ⟨rfl, rfl⟩⟩
  · exact ⟨['+'], rfl, .inr ⟨.inr rfl, rfl⟩⟩
  · exact ⟨[], rfl, .inr ⟨.inl rfl, rfl⟩⟩

theorem readSign_digits {ds : List Char} (h : IsDigits ds) (rest : List Char) :
    readSign (ds ++ rest) = (false, ds ++ rest) := by
  obtain ⟨d, ds', rfl, hd⟩ := exists_cons_of_isDigits h
  -- Neither sign is a digit.
  unfold readSign
  split
  · rename_i he
    cases he
    simp at hd
  · rename_i he
    cases he
    simp at hd
  · rfl

theorem readPower_sound {atEnd : Cause} {s rest : List Char} {x? : Option Exponent}
    {letter : Char} (hl : letter = 'e' ∨ letter = 'E') (h : readPower atEnd s = .ok (x?, rest)) :
    ∃ e, letter :: s = e ++ rest ∧ ExponentSpelled x? e := by
  obtain ⟨⟨ds, r⟩, hd, he⟩ := map_eq_ok_iff.1 h
  obtain ⟨sign, hs, hsign⟩ := readSign_sound s
  obtain ⟨hr, hds⟩ := readDigits_sound hd
  simp only [Prod.mk.injEq] at he
  obtain ⟨rfl, rfl⟩ := he
  refine ⟨letter :: (sign ++ ds), ?_, hds, letter, sign, rfl, hl, hsign⟩
  rw [hr] at hs
  rw [hs]
  simp

theorem readExponent_sound {atEnd : Cause} {s rest : List Char} {x? : Option Exponent}
    (h : readExponent atEnd s = .ok (x?, rest)) : ∃ e, s = e ++ rest ∧ ExponentSpelled x? e := by
  unfold readExponent at h
  split at h
  · exact readPower_sound (.inl rfl) h
  · exact readPower_sound (.inr rfl) h
  · simp only [Except.ok.injEq, Prod.mk.injEq] at h
    obtain ⟨rfl, rfl⟩ := h
    exact ⟨[], rfl, rfl⟩

theorem readPower_complete {x : Exponent} {sign rest : List Char} (atEnd : Cause)
    (hd : IsDigits x.digits)
    (hs : (sign = ['-'] ∧ x.negative = true) ∨
      ((sign = [] ∨ sign = ['+']) ∧ x.negative = false))
    (hr : startsWithDigit rest = false) :
    readPower atEnd (sign ++ (x.digits ++ rest)) = .ok (some x, rest) := by
  have hsign : readSign (sign ++ (x.digits ++ rest)) = (x.negative, x.digits ++ rest) := by
    rcases hs with ⟨rfl, hn⟩ | ⟨rfl | rfl, hn⟩
    · rw [hn]
      rfl
    · rw [hn]
      exact readSign_digits hd rest
    · rw [hn]
      rfl
  rw [readPower, hsign, readDigits_complete atEnd hd hr]
  rfl

theorem readExponent_complete {x? : Option Exponent} {e rest : List Char} (atEnd : Cause)
    (h : ExponentSpelled x? e) (hr : EndsNumber rest) :
    readExponent atEnd (e ++ rest) = .ok (x?, rest) := by
  have hdigit : startsWithDigit rest = false := by
    cases rest with
    | nil => rfl
    | cons c rest => exact (hr c rfl).1
  cases x? with
  | none =>
    -- no exponent: what follows must not look like one
    cases h
    rw [List.nil_append]
    unfold readExponent
    split
    · exact absurd rfl (hr _ rfl).2.2.1
    · exact absurd rfl (hr _ rfl).2.2.2
    · rfl
  | some x =>
    -- either letter, then sign and digits
    obtain ⟨hd, letter, sign, rfl, hl, hs⟩ := h
    rw [List.cons_append, List.append_assoc]
    rcases hl with rfl | rfl
    · exact readPower_complete atEnd hd hs hdigit
    · exact readPower_complete atEnd hd hs hdigit

/-! ## Whole literals -/

theorem readMinus_sound (s : List Char) : ∃ sign, s = sign ++ (readMinus s).2 ∧
    ((sign = ['-'] ∧ (readMinus s).1 = true) ∨ (sign = [] ∧ (readMinus s).1 = false)) := by
  unfold readMinus
  split
  · exact ⟨['-'], rfl, .inl ⟨rfl, rfl⟩⟩
  · exact ⟨[], rfl, .inr ⟨rfl, rfl⟩⟩

theorem readMinus_digits {ds : List Char} (h : IsDigits ds) (rest : List Char) :
    readMinus (ds ++ rest) = (false, ds ++ rest) := by
  obtain ⟨d, ds', rfl, hd⟩ := exists_cons_of_isDigits h
  unfold readMinus
  split
  · rename_i he
    cases he
    simp at hd
  · rfl

/-- What is read as a literal has its form. -/
theorem read_sound {atEnd : Cause} {s rest : List Char} {l : Literal}
    (h : read atEnd s = .ok (l, rest)) : ∃ t, s = t ++ rest ∧ l.Spelled t := by
  obtain ⟨⟨ds, s₁⟩, hw, h⟩ := bind_eq_ok_iff.1 h
  obtain ⟨⟨fs, s₂⟩, hf, h⟩ := bind_eq_ok_iff.1 h
  obtain ⟨⟨x?, s₃⟩, hx, h⟩ := bind_eq_ok_iff.1 h
  simp only [Except.ok.injEq, Prod.mk.injEq] at h
  obtain ⟨rfl, rfl⟩ := h
  obtain ⟨sign, hs, hsign⟩ := readMinus_sound s
  obtain ⟨hm, hwhole⟩ := readWhole_sound hw
  obtain ⟨f, rfl, hfraction⟩ := readFraction_sound hf
  obtain ⟨e, rfl, hexponent⟩ := readExponent_sound hx
  refine ⟨sign ++ (ds ++ (f ++ e)), ?_, sign, f, e, rfl, hsign, hwhole, hfraction, hexponent⟩
  rw [hm] at hs
  rw [hs]
  simp

/-- No digit and no point starts an exponent, nor what a number ends in front of. -/
theorem head_exponent {x? : Option Exponent} {e rest : List Char} (h : ExponentSpelled x? e)
    (hr : EndsNumber rest) :
    startsWithDigit (e ++ rest) = false ∧ (e ++ rest).head? ≠ some '.' := by
  cases x? with
  | none =>
    cases h
    cases rest with
    | nil => exact ⟨rfl, by simp⟩
    | cons c rest =>
      obtain ⟨hd, hp, -⟩ := hr c rfl
      exact ⟨hd, by simpa using hp⟩
  | some x =>
    obtain ⟨-, letter, sign, rfl, rfl | rfl, -⟩ := h
    · exact ⟨rfl, by simp⟩
    · exact ⟨rfl, by simp⟩

/-- A literal is read from its form. -/
theorem read_complete {l : Literal} {t rest : List Char} (atEnd : Cause) (h : l.Spelled t)
    (hr : EndsNumber rest) : read atEnd (t ++ rest) = .ok (l, rest) := by
  obtain ⟨sign, f, e, rfl, hsign, hwhole, hfraction, hexponent⟩ := h
  obtain ⟨hd, hp⟩ := head_exponent hexponent hr
  -- The whole part ends in front of the fraction, or of what follows it if there is none.
  have hd' : startsWithDigit (f ++ (e ++ rest)) = false := by
    rcases hfraction with ⟨-, rfl⟩ | ⟨-, rfl⟩
    · exact hd
    · rfl
  have hm : readMinus (sign ++ (l.whole ++ (f ++ (e ++ rest)))) =
      (l.negative, l.whole ++ (f ++ (e ++ rest))) := by
    rcases hsign with ⟨rfl, hn⟩ | ⟨rfl, hn⟩
    · rw [hn]
      rfl
    · rw [hn]
      exact readMinus_digits hwhole.1 _
  simp only [List.append_assoc]
  unfold read
  rw [hm]
  refine bind_eq_ok_iff.2 ⟨_, readWhole_complete atEnd hwhole hd', ?_⟩
  refine bind_eq_ok_iff.2 ⟨_, readFraction_complete atEnd hfraction hd hp, ?_⟩
  exact bind_eq_ok_iff.2 ⟨_, readExponent_complete atEnd hexponent hr, rfl⟩

/-! ## Forms without their values -/

theorem FractionSpelled.isFraction {ds f : List Char} (h : FractionSpelled ds f) :
    IsFraction f := by
  rcases h with ⟨-, rfl⟩ | ⟨hd, rfl⟩
  · exact .inl rfl
  · exact .inr ⟨ds, rfl, hd⟩

theorem ExponentSpelled.isExponent {x? : Option Exponent} {e : List Char}
    (h : ExponentSpelled x? e) : IsExponent e := by
  cases x? with
  | none => exact .inl h
  | some x =>
    obtain ⟨hd, letter, sign, rfl, hl, hs⟩ := h
    refine .inr ⟨letter, sign, x.digits, rfl, hl, ?_, hd⟩
    rcases hs with ⟨rfl, -⟩ | ⟨rfl | rfl, -⟩
    · exact .inr (.inr rfl)
    · exact .inl rfl
    · exact .inr (.inl rfl)

theorem exists_fractionSpelled {f : List Char} (h : IsFraction f) :
    ∃ ds, FractionSpelled ds f := by
  rcases h with rfl | ⟨ds, rfl, hd⟩
  · exact ⟨[], .inl ⟨rfl, rfl⟩⟩
  · exact ⟨ds, .inr ⟨hd, rfl⟩⟩

theorem exists_exponentSpelled {e : List Char} (h : IsExponent e) :
    ∃ x?, ExponentSpelled x? e := by
  rcases h with rfl | ⟨letter, sign, ds, rfl, hl, hs, hd⟩
  · exact ⟨none, rfl⟩
  · rcases hs with rfl | rfl | rfl
    · exact ⟨some ⟨false, ds⟩, hd, letter, _, rfl, hl, .inr ⟨.inl rfl, rfl⟩⟩
    · exact ⟨some ⟨false, ds⟩, hd, letter, _, rfl, hl, .inr ⟨.inr rfl, rfl⟩⟩
    · exact ⟨some ⟨true, ds⟩, hd, letter, _, rfl, hl, .inl ⟨rfl, rfl⟩⟩

/-- The numbers are the texts that literals are read from. -/
theorem isNumber_iff {t : List Char} : IsNumber t ↔ ∃ l : Literal, l.Spelled t := by
  constructor
  · rintro ⟨sign, whole, f, e, rfl, hs, hw, hf, he⟩
    obtain ⟨fs, hf⟩ := exists_fractionSpelled hf
    obtain ⟨x?, he⟩ := exists_exponentSpelled he
    rcases hs with rfl | rfl
    · exact ⟨⟨false, whole, fs, x?⟩, [], f, e, rfl, .inr ⟨rfl, rfl⟩, hw, hf, he⟩
    · exact ⟨⟨true, whole, fs, x?⟩, ['-'], f, e, rfl, .inl ⟨rfl, rfl⟩, hw, hf, he⟩
  · rintro ⟨l, sign, f, e, rfl, hs, hw, hf, he⟩
    refine ⟨sign, l.whole, f, e, rfl, ?_, hw, hf.isFraction, he.isExponent⟩
    rcases hs with ⟨rfl, -⟩ | ⟨rfl, -⟩
    · exact .inr rfl
    · exact .inl rfl

/-! ## Values of numbers -/

/-- What stands behind a number makes no difference to its value. -/
theorem fractional_congr {l : Literal} {rest : List Char} {x : Number}
    (h : l.fractional rest = .ok x) (rest' : List Char) : l.fractional rest' = .ok x := by
  simp only [fractional] at h ⊢
  split at h
  · -- no exponent: the number is in range
    split at h
    · simpa using h
    · simp at h
  · split at h
    · split at h
      · simpa using h
      · simp at h
    · -- an exponent without end, which only zero can have
      split at h
      · simp at h
      · rename_i hzero
        rw [if_neg hzero]
        exact h

theorem number_congr {l : Literal} {rest : List Char} {x : Number} (h : l.number rest = .ok x)
    (rest' : List Char) : l.number rest' = .ok x := by
  simp only [number] at h ⊢
  split at h
  · rename_i hnatural
    rwa [if_pos hnatural]
  · rename_i hnatural
    rw [if_neg hnatural]
    split at h
    · rename_i hnegative
      rwa [if_pos hnegative]
    · rename_i hnegative
      rw [if_neg hnegative]
      exact fractional_congr h rest'

/-! ## Natural numbers -/

/-- A binary fraction is no natural number. -/
theorem fractional_ne_natural {l : Literal} {rest : List Char} {n : Nat} :
    l.fractional rest ≠ .ok (.natural n) := by
  intro h
  simp only [fractional] at h
  repeat' split at h
  all_goals simp at h

theorem number_eq_natural_iff {l : Literal} {rest : List Char} {n : Nat} :
    l.number rest = .ok (.natural n) ↔
      l.fraction = [] ∧ l.exponent = none ∧ l.negative = false ∧
        Nat.ofDigitChars 10 l.whole 0 = n ∧ n < 2 ^ 64 := by
  constructor
  · intro h
    simp only [number] at h
    split at h
    · -- a whole literal without sign that fits 64 bits
      rename_i hc
      simp only [isWhole, significandBound, Bool.and_eq_true, decide_eq_true_eq,
        Option.isNone_iff_eq_none, Bool.not_eq_true] at hc
      simp only [Except.ok.injEq, Number.natural.injEq] at h
      subst h
      exact ⟨hc.1.1, hc.1.2, hc.2.1, rfl, hc.2.2⟩
    · split at h
      · -- a negative number
        simp at h
      · -- a binary fraction
        exact absurd h fractional_ne_natural
  · rintro ⟨hf, he, hn, rfl, hb⟩
    simp only [number]
    rw [if_pos ⟨by simp [isWhole, hf, he], by simp [hn], hb⟩]

end Literal

namespace Number

/-- What is read as a natural number is written as one. -/
theorem read_natural_sound {s rest : List Char} {n : Nat}
    (h : Number.read s = .ok (.natural n, rest)) : ∃ v, s = v ++ rest ∧ IsNatural v n := by
  obtain ⟨⟨l, r⟩, hl, h⟩ := bind_eq_ok_iff.1 h
  obtain ⟨m, hm, h⟩ := bind_eq_ok_iff.1 h
  simp only [pure, Except.pure, Except.ok.injEq, Prod.mk.injEq] at h
  obtain ⟨rfl, rfl⟩ := h
  obtain ⟨t, rfl, sign, f, e, rfl, hsign, hwhole, hfraction, hexponent⟩ := Literal.read_sound hl
  obtain ⟨hf, hx, hn, hv, hb⟩ := Literal.number_eq_natural_iff.1 hm
  -- Neither sign nor fraction nor exponent: the literal is its whole part.
  have hsign : sign = [] := by
    rcases hsign with ⟨-, h'⟩ | ⟨h', -⟩
    · simp [hn] at h'
    · exact h'
  have hfraction : f = [] := by
    rcases hfraction with ⟨-, h'⟩ | ⟨h', -⟩
    · exact h'
    · exact absurd hf h'.1
  have hexponent : e = [] := by
    rw [hx] at hexponent
    exact hexponent
  subst hsign hfraction hexponent
  exact ⟨l.whole, by simp, hwhole, hv, hb⟩

/-- A natural number is read from what it is written as. -/
theorem read_natural_complete {v rest : List Char} {n : Nat} (h : IsNatural v n)
    (hr : EndsNumber rest) : Number.read (v ++ rest) = .ok (.natural n, rest) := by
  obtain ⟨hw, hv, hb⟩ := h
  have hs : (⟨false, v, [], none⟩ : Literal).Spelled v :=
    ⟨[], [], [], by simp, .inr ⟨rfl, rfl⟩, hw, .inl ⟨rfl, rfl⟩, rfl⟩
  refine bind_eq_ok_iff.2 ⟨_, Literal.read_complete _ hs hr, ?_⟩
  refine bind_eq_ok_iff.2 ⟨.natural n, ?_, rfl⟩
  exact Literal.number_eq_natural_iff.2 ⟨rfl, rfl, rfl, hv, hb⟩

/-- What is read as a number of any kind is written as one. -/
theorem read_sound {s rest : List Char} {x : Number} (h : Number.read s = .ok (x, rest)) :
    ∃ v, s = v ++ rest ∧ IsNumber v := by
  obtain ⟨⟨l, r⟩, hl, h⟩ := bind_eq_ok_iff.1 h
  obtain ⟨m, -, h⟩ := bind_eq_ok_iff.1 h
  simp only [pure, Except.pure, Except.ok.injEq, Prod.mk.injEq] at h
  obtain ⟨-, rfl⟩ := h
  obtain ⟨t, rfl, ht⟩ := Literal.read_sound hl
  exact ⟨t, rfl, Literal.isNumber_iff.2 ⟨l, ht⟩⟩

/-- A number that is read from a whole text is read in front of what a number ends in front of. -/
theorem read_append {v rest : List Char} {x : Number} (h : Number.read v = .ok (x, []))
    (hr : EndsNumber rest) : Number.read (v ++ rest) = .ok (x, rest) := by
  obtain ⟨⟨l, r⟩, hl, h⟩ := bind_eq_ok_iff.1 h
  obtain ⟨y, hy, he⟩ := bind_eq_ok_iff.1 h
  simp only [pure, Except.pure, Except.ok.injEq, Prod.mk.injEq] at he
  obtain ⟨rfl, rfl⟩ := he
  obtain ⟨t, rfl, ht⟩ := Literal.read_sound hl
  rw [List.append_nil]
  refine bind_eq_ok_iff.2 ⟨_, Literal.read_complete _ ht hr, ?_⟩
  exact bind_eq_ok_iff.2 ⟨y, Literal.number_congr hy rest, rfl⟩

end Number

end ChainBoard.Json
