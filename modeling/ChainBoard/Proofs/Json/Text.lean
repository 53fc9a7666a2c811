import ChainBoard.Proofs.Json.Grammar

/-!
# Texts in quotes

A text is read exactly where what stands between the quotes spells it, and passed exactly where what
stands there has the form of a text. Both readers are run on a body, its closing quote and any
continuation: a body holds no bare quote, so that the continuation never matters.

## Main results

* `readText_eq_ok_iff`: a text is read exactly where it is spelled
* `passText_sound`, `passText_complete`: a text is passed exactly where it has its form
* `Spells.isQuotable`: what spells a text has the form of one
-/

namespace ChainBoard.Json

/-! ## Escapes -/

theorem readUnit_eq_ok_iff {s rest : List Char} {n : Nat} :
    readUnit s = .ok (n, rest) ↔
      ∃ a b c d, s = a :: b :: c :: d :: rest ∧ unit? a b c d = some n := by
  constructor
  · intro h
    unfold readUnit at h
    split at h
    · -- four characters: a unit if they are digits
      rename_i a b c d rest'
      split at h
      · rename_i m hm
        simp only [Except.ok.injEq, Prod.mk.injEq] at h
        obtain ⟨rfl, rfl⟩ := h
        exact ⟨a, b, c, d, rfl, hm⟩
      · simp at h
    · simp at h
  · rintro ⟨a, b, c, d, rfl, hu⟩
    simp [readUnit, hu]

theorem readTrailing_eq_ok_iff {s rest : List Char} {n : Nat} :
    readTrailing s = .ok (n, rest) ↔
      ∃ a b c d, s = '\\' :: 'u' :: a :: b :: c :: d :: rest ∧ unit? a b c d = some n ∧
        isTrailing n = true := by
  constructor
  · intro h
    unfold readTrailing at h
    split at h
    · -- nothing is left
      simp at h
    · -- nothing is left behind the backslash
      simp at h
    · -- another unit: it has to be a trailing surrogate
      obtain ⟨⟨m, r⟩, hr, hm⟩ := bind_eq_ok_iff.1 h
      obtain ⟨a, b, c, d, rfl, hu⟩ := readUnit_eq_ok_iff.1 hr
      dsimp only at hm
      split at hm
      · rename_i ht
        simp only [Except.ok.injEq, Prod.mk.injEq] at hm
        obtain ⟨rfl, rfl⟩ := hm
        exact ⟨a, b, c, d, rfl, hu, ht⟩
      · simp at hm
    · -- an escape of another kind
      simp at h
    · -- no escape
      simp at h
  · rintro ⟨a, b, c, d, rfl, hu, ht⟩
    refine bind_eq_ok_iff.2 ⟨(n, rest), readUnit_eq_ok_iff.2 ⟨a, b, c, d, rfl, hu⟩, ?_⟩
    simp [ht]

/-- No letter stands for a unit of 16 bits. -/
theorem ne_u_of_lettered {c e : Char} (h : lettered? c = some e) : c ≠ 'u' := by
  rintro rfl
  simp [lettered?] at h

theorem readEscape_letter {c e : Char} (h : lettered? c = some e) (rest : List Char) :
    readEscape (c :: rest) = .ok (e, rest) := by
  unfold readEscape
  split
  · simp_all
  · rename_i he
    cases he
    exact absurd rfl (ne_u_of_lettered h)
  · rename_i he
    cases he
    simp [h]

theorem readEscape_unit {a b c d : Char} {n : Nat} (hu : unit? a b c d = some n)
    (hl : isLeading n = false) (ht : isTrailing n = false) (rest : List Char) :
    readEscape ('u' :: a :: b :: c :: d :: rest) = .ok (Char.ofNat n, rest) := by
  have hr : readUnit (a :: b :: c :: d :: rest) = .ok (n, rest) :=
    readUnit_eq_ok_iff.2 ⟨a, b, c, d, rfl, hu⟩
  refine bind_eq_ok_iff.2 ⟨(n, rest), hr, ?_⟩
  simp [hl, ht]

/-- No unit is both halves of a pair. -/
theorem isTrailing_of_isLeading {n : Nat} (h : isLeading n = true) : isTrailing n = false := by
  simp only [isLeading, isTrailing, Bool.and_eq_true, decide_eq_true_eq, Bool.and_eq_false_iff,
    decide_eq_false_iff_not] at *
  omega

theorem readEscape_pair {a b c d a' b' c' d' : Char} {n m : Nat} (hu : unit? a b c d = some n)
    (hl : isLeading n = true) (hu' : unit? a' b' c' d' = some m) (ht : isTrailing m = true)
    (rest : List Char) :
    readEscape ('u' :: a :: b :: c :: d :: '\\' :: 'u' :: a' :: b' :: c' :: d' :: rest) =
      .ok (joined n m, rest) := by
  have hr : readUnit (a :: b :: c :: d :: '\\' :: 'u' :: a' :: b' :: c' :: d' :: rest) =
      .ok (n, '\\' :: 'u' :: a' :: b' :: c' :: d' :: rest) :=
    readUnit_eq_ok_iff.2 ⟨a, b, c, d, rfl, hu⟩
  have hr' : readTrailing ('\\' :: 'u' :: a' :: b' :: c' :: d' :: rest) = .ok (m, rest) :=
    readTrailing_eq_ok_iff.2 ⟨a', b', c', d', rfl, hu', ht⟩
  refine bind_eq_ok_iff.2 ⟨_, hr, ?_⟩
  simp only [isTrailing_of_isLeading hl, hl, if_true, Bool.false_eq_true, if_false]
  exact bind_eq_ok_iff.2 ⟨_, hr', rfl⟩

/-- An escape that is read spells its character in front of whatever is spelled behind it. -/
theorem readEscape_sound {s rest : List Char} {e : Char} (h : readEscape s = .ok (e, rest)) :
    ∃ u, s = u ++ rest ∧ ∀ {body t}, Spells body t → Spells ('\\' :: (u ++ body)) (e :: t) := by
  unfold readEscape at h
  split at h
  · simp at h
  · -- a unit: either it is a character, or its trailing half has to follow
    obtain ⟨⟨n, r⟩, hr, hn⟩ := bind_eq_ok_iff.1 h
    obtain ⟨a, b, c, d, rfl, hu⟩ := readUnit_eq_ok_iff.1 hr
    dsimp only at hn
    split at hn
    · -- a trailing surrogate alone spells nothing
      simp at hn
    · rename_i ht
      split at hn
      · -- a leading surrogate: both units spell one character
        rename_i hl
        obtain ⟨⟨m, r'⟩, hr', hm⟩ := bind_eq_ok_iff.1 hn
        obtain ⟨a', b', c', d', rfl, hu', ht'⟩ := readTrailing_eq_ok_iff.1 hr'
        simp only [Except.ok.injEq, Prod.mk.injEq] at hm
        obtain ⟨rfl, rfl⟩ := hm
        refine ⟨['u', a, b, c, d, '\\', 'u', a', b', c', d'], rfl, ?_⟩
        intro body t hb
        exact .pair hu hl hu' ht' hb
      · -- no surrogate: the unit is a character
        rename_i hl
        simp only [Except.ok.injEq, Prod.mk.injEq] at hn
        obtain ⟨rfl, rfl⟩ := hn
        refine ⟨['u', a, b, c, d], rfl, ?_⟩
        intro body t hb
        exact .unit hu (Bool.eq_false_iff.2 hl) (Bool.eq_false_iff.2 ht) hb
  · -- a letter that stands for a character, or for none
    rename_i c s' _
    split at h
    · rename_i e' he
      simp only [Except.ok.injEq, Prod.mk.injEq] at h
      obtain ⟨rfl, rfl⟩ := h
      exact ⟨[c], rfl, fun hb => .letter he hb⟩
    · simp at h

theorem passEscape_letter {c e : Char} (h : lettered? c = some e) (rest : List Char) :
    passEscape (c :: rest) = .ok rest := by
  unfold passEscape
  split
  · simp_all
  · rename_i he
    cases he
    exact absurd rfl (ne_u_of_lettered h)
  · rename_i he
    cases he
    simp [h]

theorem passEscape_unit {a b c d : Char} {n : Nat} (hu : unit? a b c d = some n)
    (rest : List Char) : passEscape ('u' :: a :: b :: c :: d :: rest) = .ok rest :=
  map_eq_ok_iff.2 ⟨(n, rest), readUnit_eq_ok_iff.2 ⟨a, b, c, d, rfl, hu⟩, rfl⟩

/-- An escape that is passed may stand in front of whatever may stand between quotes. -/
theorem passEscape_sound {s rest : List Char} (h : passEscape s = .ok rest) :
    ∃ u, s = u ++ rest ∧ ∀ {body}, IsQuotable body → IsQuotable ('\\' :: (u ++ body)) := by
  unfold passEscape at h
  split at h
  · simp at h
  · -- any unit is passed, be it half of a pair or not
    obtain ⟨⟨n, r⟩, hr, rfl⟩ := map_eq_ok_iff.1 h
    obtain ⟨a, b, c, d, rfl, hu⟩ := readUnit_eq_ok_iff.1 hr
    exact ⟨['u', a, b, c, d], rfl, fun hb => .unit hu hb⟩
  · -- a letter that stands for a character, or for none
    rename_i c s' _
    split at h
    · rename_i e he
      simp only [Except.ok.injEq] at h
      subst h
      exact ⟨[c], rfl, fun hb => .letter he hb⟩
    · simp at h

/-! ## Whole texts -/

/-- The three tests of a reader, in its order, leave the plain characters. -/
theorem isPlain_of_not {c : Char} (hq : ¬ c = '"') (hb : ¬ c = '\\')
    (hc : ¬ isBareControl c = true) : IsPlain c := by
  refine ⟨hq, hb, ?_⟩
  simpa [isBareControl] using hc

theorem IsPlain.not_isBareControl {c : Char} (h : IsPlain c) : ¬ isBareControl c = true := by
  have := h.2.2
  simp only [isBareControl, decide_eq_true_eq]
  omega

theorem readTextOnto_escape {done s rest : List Char} {e : Char}
    (h : readEscape s = .ok (e, rest)) :
    readTextOnto done ('\\' :: s) = readTextOnto (e :: done) rest := by
  rw [readTextOnto]
  simp only [Char.reduceEq, if_false, if_true]
  split
  · rename_i he
    rw [h] at he
    simp only [Except.ok.injEq, Prod.mk.injEq] at he
    rw [he.1, he.2]
  · rename_i he
    rw [h] at he
    simp at he

theorem readTextOnto_sound {done s text rest : List Char}
    (h : readTextOnto done s = .ok (text, rest)) :
    ∃ body t, s = body ++ '"' :: rest ∧ Spells body t ∧ text = done.reverse ++ t := by
  -- Induction on the run of the reader; `done` holds what has been spelled before, reversed.
  fun_induction readTextOnto done s with
  | case1 => simp at h
  | case2 done s =>
    -- the closing quote
    simp only [Except.ok.injEq, Prod.mk.injEq] at h
    obtain ⟨rfl, rfl⟩ := h
    exact ⟨[], [], rfl, .nil, by simp⟩
  | case3 done s e rest' he _ ih =>
    -- an escape in front of what the rest spells
    obtain ⟨body, t, rfl, hs, rfl⟩ := ih h
    obtain ⟨u, rfl, hu⟩ := readEscape_sound he
    exact ⟨'\\' :: (u ++ body), e :: t, by simp, hu hs, by simp⟩
  | case4 => simp at h
  | case5 => simp at h
  | case6 done c s hq hb hc ih =>
    -- a plain character in front of what the rest spells
    obtain ⟨body, t, rfl, hs, rfl⟩ := ih h
    exact ⟨c :: body, c :: t, rfl, .plain (isPlain_of_not hq hb hc) hs, by simp⟩

theorem readTextOnto_complete {body t : List Char} (h : Spells body t) (done rest : List Char) :
    readTextOnto done (body ++ '"' :: rest) = .ok (done.reverse ++ t, rest) := by
  -- Induction on how the body spells the text: each part of it is one round of the reader.
  induction h generalizing done with
  | nil => rw [List.nil_append, readTextOnto, if_pos rfl, List.append_nil]
  | @plain c s t hc _ ih =>
    rw [List.cons_append, readTextOnto, if_neg hc.1, if_neg hc.2.1, if_neg hc.not_isBareControl, ih]
    simp
  | letter he _ ih =>
    rw [List.cons_append, List.cons_append, readTextOnto_escape (readEscape_letter he _), ih]
    simp
  | unit hu hl ht _ ih =>
    simp only [List.cons_append]
    rw [readTextOnto_escape (readEscape_unit hu hl ht _), ih]
    simp
  | pair hu hl hu' ht _ ih =>
    simp only [List.cons_append]
    rw [readTextOnto_escape (readEscape_pair hu hl hu' ht _), ih]
    simp

/-- **A text is read exactly where it is spelled**, up to the quote that ends it. -/
theorem readText_eq_ok_iff {s t rest : List Char} :
    readText s = .ok (t, rest) ↔ ∃ body, s = body ++ '"' :: rest ∧ Spells body t := by
  constructor
  · intro h
    obtain ⟨body, t', rfl, hs, rfl⟩ := readTextOnto_sound h
    exact ⟨body, rfl, hs⟩
  · rintro ⟨body, rfl, hs⟩
    exact readTextOnto_complete hs [] rest

theorem passText_escape {s rest : List Char} (h : passEscape s = .ok rest) :
    passText ('\\' :: s) = passText rest := by
  rw [passText]
  simp only [Char.reduceEq, if_false, if_true]
  split
  · rename_i he
    rw [h] at he
    simp only [Except.ok.injEq] at he
    rw [he]
  · rename_i he
    rw [h] at he
    simp at he

theorem passText_sound {s rest : List Char} (h : passText s = .ok rest) :
    ∃ body, s = body ++ '"' :: rest ∧ IsQuotable body := by
  -- Induction on the run of the reader, as for texts that are read.
  fun_induction passText s with
  | case1 => simp at h
  | case2 s =>
    -- the closing quote
    simp only [Except.ok.injEq] at h
    subst h
    exact ⟨[], rfl, .nil⟩
  | case3 s rest' he _ ih =>
    obtain ⟨body, rfl, hb⟩ := ih h
    obtain ⟨u, rfl, hu⟩ := passEscape_sound he
    exact ⟨'\\' :: (u ++ body), by simp, hu hb⟩
  | case4 => simp at h
  | case5 => simp at h
  | case6 c s hq hb hc ih =>
    obtain ⟨body, rfl, hs⟩ := ih h
    exact ⟨c :: body, rfl, .plain (isPlain_of_not hq hb hc) hs⟩

theorem passText_complete {body : List Char} (h : IsQuotable body) (rest : List Char) :
    passText (body ++ '"' :: rest) = .ok rest := by
  induction h with
  | nil => rw [List.nil_append, passText, if_pos rfl]
  | @plain c s hc _ ih =>
    rw [List.cons_append, passText, if_neg hc.1, if_neg hc.2.1, if_neg hc.not_isBareControl, ih]
  | letter he _ ih =>
    rw [List.cons_append, List.cons_append, passText_escape (passEscape_letter he _), ih]
  | unit hu _ ih =>
    simp only [List.cons_append]
    rw [passText_escape (passEscape_unit hu _), ih]

/-- Plain characters stand for themselves. -/
theorem spells_of_isPlain {s : List Char} (h : s.all (IsPlain ·) = true) : Spells s s := by
  induction s with
  | nil => exact .nil
  | cons c s ih =>
    rw [List.all_cons, Bool.and_eq_true, decide_eq_true_eq] at h
    exact .plain h.1 (ih h.2)

/-- What spells a text has the form of one. -/
theorem Spells.isQuotable {body t : List Char} (h : Spells body t) : IsQuotable body := by
  induction h with
  | nil => exact .nil
  | plain hc _ ih => exact .plain hc ih
  | letter he _ ih => exact .letter he ih
  | unit hu _ _ _ ih => exact .unit hu ih
  | pair hu _ hu' _ _ ih =>
    -- two units in a row
    exact .unit hu (.unit hu' ih)

end ChainBoard.Json
