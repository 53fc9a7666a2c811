import ChainBoard.Proofs.Json.Walk

/-!
# What the values of fields denote

A field is read exactly where a value stands that denotes something in it. Amounts are walked over
like any value first, so that other values are refused for what they are and not for how they are
written.

## Main results

* `Amount.ofText_eq_ok_iff`: the texts of amounts
* `Kind.read_sound`, `Kind.read_complete`: the value of a field is what it denotes
* `Kind.isValue_of_denotes`: what denotes something is a value
-/

namespace ChainBoard

/-! ## Texts of amounts -/

namespace Amount

theorem dropPlus_of_ne {c : Char} (h : c ≠ '+') (s : List Char) : dropPlus (c :: s) = c :: s := by
  unfold dropPlus
  split
  · rename_i he
    cases he
    exact absurd rfl h
  · rfl

theorem exists_dropPlus (t : List Char) :
    ∃ sign, t = sign ++ dropPlus t ∧ (sign = [] ∨ sign = ['+']) := by
  unfold dropPlus
  split
  · exact ⟨['+'], rfl, .inr rfl⟩
  · exact ⟨[], rfl, .inl rfl⟩

/-- A text is taken for an amount exactly if it names one. -/
theorem ofText_eq_ok_iff {t : List Char} {n : Nat} : ofText t = .ok n ↔ Names t n := by
  constructor
  · intro h
    obtain ⟨sign, ht, hsign⟩ := exists_dropPlus t
    unfold ofText at h
    split at h
    · -- nothing behind the sign
      simp at h
    · rename_i d ds hd
      split at h
      · -- a digit in front, and digits and gaps behind it
        rename_i hc
        simp only [Except.ok.injEq] at h
        refine ⟨sign, d, ds, hd ▸ ht, hsign, hc.1, ?_, h⟩
        intro c hc'
        have := List.all_eq_true.1 hc.2 c hc'
        simpa [isDigitOrGap] using this
      · simp at h
  · rintro ⟨sign, d, ds, rfl, hsign, hd, hds, hn⟩
    -- At most one sign is dropped, because the next character is a digit.
    have hdrop : dropPlus (sign ++ d :: ds) = d :: ds := by
      rcases hsign with rfl | rfl
      · refine dropPlus_of_ne ?_ ds
        rintro rfl
        simp at hd
      · rfl
    have hall : ds.all isDigitOrGap = true := by
      apply List.all_eq_true.2
      intro c hc
      simpa [isDigitOrGap] using hds c hc
    simp only [ofText, hdrop]
    rw [if_pos ⟨hd, hall⟩, hn]

end Amount

namespace Json

/-! ## What stands in front of a reader -/

/-- What is seen at the character `c`, the rest of its value being `s` up to `rest`. -/
def Seen.StandsAt : Seen → Char → List Char → List Char → Prop
  | null, c, s, rest => c = 'n' ∧ s = 'u' :: 'l' :: 'l' :: rest
  | boolean true, c, s, rest => c = 't' ∧ s = 'r' :: 'u' :: 'e' :: rest
  | boolean false, c, s, rest => c = 'f' ∧ s = 'a' :: 'l' :: 's' :: 'e' :: rest
  | number x, c, s, rest => Number.read (c :: s) = .ok (x, rest)
  | text t, c, s, rest => c = '"' ∧ ∃ body, s = body ++ '"' :: rest ∧ Spells body t
  | list, c, s, rest => c = '[' ∧ rest = c :: s
  | object, c, s, rest => c = '{' ∧ rest = c :: s

theorem Seen.read_sound {s rest : List Char} {seen : Seen} (h : Seen.read s = .ok (seen, rest)) :
    ∃ w c s', s = w ++ c :: s' ∧ Blank w ∧ seen.StandsAt c s' rest := by
  unfold Seen.read at h
  split at h
  · simp at h
  · rename_i c s' hs
    obtain ⟨w, rfl, hw⟩ := exists_of_skipBlank_eq hs
    refine ⟨w, c, s', rfl, hw, ?_⟩
    -- One case for each test of the reader, in its order.
    split at h
    · rename_i hc
      obtain ⟨⟨t, r⟩, hr, he⟩ := map_eq_ok_iff.1 h
      simp only [Prod.mk.injEq] at he
      obtain ⟨rfl, rfl⟩ := he
      exact ⟨hc, readText_eq_ok_iff.1 hr⟩
    · split at h
      · rename_i hc
        simp only [Except.ok.injEq, Prod.mk.injEq] at h
        obtain ⟨rfl, rfl⟩ := h
        exact ⟨hc, rfl⟩
      · split at h
        · rename_i hc
          simp only [Except.ok.injEq, Prod.mk.injEq] at h
          obtain ⟨rfl, rfl⟩ := h
          exact ⟨hc, rfl⟩
        · split at h
          · rename_i hc
            obtain ⟨r, hr, he⟩ := map_eq_ok_iff.1 h
            simp only [Prod.mk.injEq] at he
            obtain ⟨rfl, rfl⟩ := he
            exact ⟨hc, readWord_eq_ok_iff.1 hr⟩
          · split at h
            · rename_i hc
              obtain ⟨r, hr, he⟩ := map_eq_ok_iff.1 h
              simp only [Prod.mk.injEq] at he
              obtain ⟨rfl, rfl⟩ := he
              exact ⟨hc, readWord_eq_ok_iff.1 hr⟩
            · split at h
              · rename_i hc
                obtain ⟨r, hr, he⟩ := map_eq_ok_iff.1 h
                simp only [Prod.mk.injEq] at he
                obtain ⟨rfl, rfl⟩ := he
                exact ⟨hc, readWord_eq_ok_iff.1 hr⟩
              · split at h
                · obtain ⟨⟨x, r⟩, hr, he⟩ := map_eq_ok_iff.1 h
                  simp only [Prod.mk.injEq] at he
                  obtain ⟨rfl, rfl⟩ := he
                  exact hr
                · simp at h

theorem Seen.read_blank_append {w : List Char} (hw : Blank w) (s : List Char) :
    Seen.read (w ++ s) = Seen.read s := by
  unfold Seen.read
  rw [skipBlank_append hw]

theorem Seen.read_text {body t : List Char} (h : Spells body t) (rest : List Char) :
    Seen.read ('"' :: (body ++ '"' :: rest)) = .ok (.text t, rest) := by
  unfold Seen.read
  rw [skipBlank_cons rfl]
  exact map_eq_ok_iff.2 ⟨(t, rest), readText_eq_ok_iff.2 ⟨body, rfl, h⟩, rfl⟩

theorem isNumber_of_isWhole {v : List Char} (h : IsWhole v) : IsNumber v :=
  ⟨[], v, [], [], by simp, .inl rfl, h, .inl rfl, .inl rfl⟩

/-- A natural number starts with a digit. -/
theorem IsNatural.exists_cons {v : List Char} {n : Nat} (h : IsNatural v n) :
    ∃ d ds, v = d :: ds ∧ d.isDigit = true :=
  Literal.exists_cons_of_isDigits h.1.1

/-- A number is seen as what it is read as. -/
theorem Seen.read_number {v rest : List Char} {x : Number} (hv : IsNumber v)
    (h : Number.read (v ++ rest) = .ok (x, rest)) :
    Seen.read (v ++ rest) = .ok (.number x, rest) := by
  obtain ⟨c, v, rfl, hc⟩ := hv.exists_cons
  have hs : StartsValue c := startsValue_of_number hc
  have hne : c ≠ '"' ∧ c ≠ '[' ∧ c ≠ '{' ∧ c ≠ 'n' ∧ c ≠ 't' ∧ c ≠ 'f' := by
    rcases hc with rfl | hc
    · decide
    · refine ⟨?_, ?_, ?_, ?_, ?_, ?_⟩ <;> rintro rfl <;> simp at hc
  unfold Seen.read
  rw [List.cons_append] at h ⊢
  rw [skipBlank_cons hs.isBlank_eq_false]
  simp only [hne.1, hne.2.1, hne.2.2.1, hne.2.2.2.1, hne.2.2.2.2.1, hne.2.2.2.2.2, if_false]
  rw [if_pos hc]
  exact map_eq_ok_iff.2 ⟨_, h, rfl⟩

theorem Seen.read_natural {v rest : List Char} {n : Nat} (h : IsNatural v n)
    (hr : EndsNumber rest) : Seen.read (v ++ rest) = .ok (.number (.natural n), rest) :=
  Seen.read_number (isNumber_of_isWhole h.1) (Number.read_natural_complete h hr)

/-! ## Values of fields -/

theorem readNatural_sound {s rest : List Char} {n : Nat} (h : readNatural s = .ok (n, rest)) :
    ∃ w v, s = w ++ (v ++ rest) ∧ Blank w ∧ IsNatural v n := by
  obtain ⟨⟨seen, r⟩, hr, hn⟩ := bind_eq_ok_iff.1 h
  obtain ⟨w, c, s', rfl, hw, hs⟩ := Seen.read_sound hr
  dsimp only at hn
  split at hn
  · simp only [Except.ok.injEq, Prod.mk.injEq] at hn
    obtain ⟨rfl, rfl⟩ := hn
    obtain ⟨v, hv, hn⟩ := Number.read_natural_sound hs
    exact ⟨w, v, by rw [hv], hw, hn⟩
  · -- a negative number
    simp at hn
  · -- anything else
    simp at hn

theorem readNatural_complete {w v rest : List Char} {n : Nat} (hw : Blank w) (h : IsNatural v n)
    (hr : EndsNumber rest) : readNatural (w ++ (v ++ rest)) = .ok (n, rest) := by
  refine bind_eq_ok_iff.2 ⟨(.number (.natural n), rest), ?_, rfl⟩
  rw [Seen.read_blank_append hw, Seen.read_natural h hr]

theorem readOptional_sound {s rest : List Char} {n? : Option Nat}
    (h : readOptional s = .ok (n?, rest)) :
    ∃ w v, s = w ++ (v ++ rest) ∧ Blank w ∧ IsOptional v n? := by
  unfold readOptional at h
  split at h
  · -- only null starts with its letter
    rename_i r hs
    obtain ⟨w, rfl, hw⟩ := exists_of_skipBlank_eq hs
    obtain ⟨r', hr, he⟩ := map_eq_ok_iff.1 h
    simp only [Prod.mk.injEq] at he
    obtain ⟨rfl, rfl⟩ := he
    rw [readWord_eq_ok_iff.1 hr]
    exact ⟨w, ['n', 'u', 'l', 'l'], rfl, hw, .inl ⟨rfl, rfl⟩⟩
  · -- everything else has to be a natural number
    obtain ⟨⟨n, r⟩, hr, he⟩ := map_eq_ok_iff.1 h
    simp only [Prod.mk.injEq] at he
    obtain ⟨rfl, rfl⟩ := he
    obtain ⟨w, v, hs, hw, hn⟩ := readNatural_sound hr
    exact ⟨w, v, hs, hw, .inr ⟨n, hn, rfl⟩⟩

theorem readOptional_complete {w v rest : List Char} {n? : Option Nat} (hw : Blank w)
    (h : IsOptional v n?) (hr : EndsNumber rest) :
    readOptional (w ++ (v ++ rest)) = .ok (n?, rest) := by
  rcases h with ⟨rfl, rfl⟩ | ⟨n, hn, rfl⟩
  · unfold readOptional
    rw [skipBlank_append hw, List.cons_append, skipBlank_cons rfl]
    exact map_eq_ok_iff.2 ⟨rest, readWord_eq_ok_iff.2 rfl, rfl⟩
  · have hnat := readNatural_complete hw hn hr
    obtain ⟨d, ds, rfl, hd⟩ := hn.exists_cons
    have hs : StartsValue d := by simp [StartsValue, hd]
    unfold readOptional
    split
    · -- A number does not start like the word for null.
      rename_i he
      rw [skipBlank_append hw, List.cons_append, skipBlank_cons hs.isBlank_eq_false] at he
      cases he
      simp at hd
    · exact map_eq_ok_iff.2 ⟨_, hnat, rfl⟩

theorem readTextValue_sound {s rest t : List Char} (h : readTextValue s = .ok (t, rest)) :
    ∃ w v, s = w ++ (v ++ rest) ∧ Blank w ∧ IsTextOf v t := by
  obtain ⟨⟨seen, r⟩, hr, hn⟩ := bind_eq_ok_iff.1 h
  obtain ⟨w, c, s', rfl, hw, hs⟩ := Seen.read_sound hr
  dsimp only at hn
  split at hn
  · simp only [Except.ok.injEq, Prod.mk.injEq] at hn
    obtain ⟨rfl, rfl⟩ := hn
    obtain ⟨rfl, body, rfl, hb⟩ := hs
    exact ⟨w, '"' :: (body ++ ['"']), by simp, hw, body, rfl, hb⟩
  · simp at hn

theorem readTextValue_complete {w v rest t : List Char} (hw : Blank w) (h : IsTextOf v t) :
    readTextValue (w ++ (v ++ rest)) = .ok (t, rest) := by
  obtain ⟨body, rfl, hb⟩ := h
  refine bind_eq_ok_iff.2 ⟨(.text t, rest), ?_, rfl⟩
  have he : '"' :: (body ++ ['"']) ++ rest = '"' :: (body ++ '"' :: rest) := by simp
  rw [Seen.read_blank_append hw, he, Seen.read_text hb]

/-- Only texts and natural numbers are amounts. -/
theorem Seen.amount_eq_ok_iff {seen : Seen} {n : Nat} :
    seen.amount = .ok n ↔
      (∃ t, seen = .text t ∧ Amount.Names t n) ∨ seen = .number (.natural n) := by
  constructor
  · intro h
    unfold Seen.amount at h
    split at h
    · exact .inl ⟨_, rfl, Amount.ofText_eq_ok_iff.1 h⟩
    · simp only [Except.ok.injEq] at h
      exact .inr (by rw [h])
    · simp at h
  · rintro (⟨t, rfl, ht⟩ | rfl)
    · exact Amount.ofText_eq_ok_iff.2 ht
    · rfl

theorem readAmount_sound {room : Nat} {s rest : List Char} {n : Nat}
    (h : readAmount room s = .ok (.ok n, rest)) :
    ∃ w v, s = w ++ (v ++ rest) ∧ Blank w ∧ IsAmount v n := by
  obtain ⟨⟨seen, r⟩, hr, hn⟩ := bind_eq_ok_iff.1 h
  obtain ⟨w, c, s', rfl, hw, hs⟩ := Seen.read_sound hr
  dsimp only at hn
  split at hn
  · -- a list is walked over, but it is no amount
    obtain ⟨_, -, he⟩ := bind_eq_ok_iff.1 hn
    simp [Seen.amount, pure, Except.pure] at he
  · -- nor is an object
    obtain ⟨_, -, he⟩ := bind_eq_ok_iff.1 hn
    simp [Seen.amount, pure, Except.pure] at he
  · -- a scalar, which has been read already
    simp only [pure, Except.pure, Except.ok.injEq, Prod.mk.injEq] at hn
    obtain ⟨ha, rfl⟩ := hn
    rcases Seen.amount_eq_ok_iff.1 ha with ⟨t, rfl, ht⟩ | rfl
    · obtain ⟨rfl, body, rfl, hb⟩ := hs
      exact ⟨w, '"' :: (body ++ ['"']), by simp, hw, .inl ⟨t, ⟨body, rfl, hb⟩, ht⟩⟩
    · obtain ⟨v, hv, hn⟩ := Number.read_natural_sound hs
      exact ⟨w, v, by rw [hv], hw, .inr hn⟩

theorem readAmount_complete {room : Nat} {w v rest : List Char} {n : Nat} (hw : Blank w)
    (h : IsAmount v n) (hr : EndsNumber rest) :
    readAmount room (w ++ (v ++ rest)) = .ok (.ok n, rest) := by
  rcases h with ⟨t, ⟨body, rfl, hb⟩, ht⟩ | hn
  · -- an amount in quotes
    refine bind_eq_ok_iff.2 ⟨(.text t, rest), ?_, ?_⟩
    · have he : '"' :: (body ++ ['"']) ++ rest = '"' :: (body ++ '"' :: rest) := by simp
      rw [Seen.read_blank_append hw, he, Seen.read_text hb]
    · dsimp only
      rw [Seen.amount_eq_ok_iff.2 (.inl ⟨t, rfl, ht⟩)]
      rfl
  · -- an amount written as a number
    refine bind_eq_ok_iff.2 ⟨(.number (.natural n), rest), ?_, rfl⟩
    rw [Seen.read_blank_append hw, Seen.read_natural hn hr]

/-- An amount inside a record is read like one that stands alone, with a bracket open already. -/
theorem readAmountField_eq_ok_iff {s rest : List Char} {n : Nat} :
    readAmountField s = .ok (n, rest) ↔
      readAmount (bracketLimit - 1) s = .ok (.ok n, rest) := by
  unfold readAmountField
  split <;> simp_all

namespace Kind

/-- **What a field is read as, its value denotes.** -/
theorem read_sound {kind : Kind} {s rest : List Char} {x : kind.Carrier}
    (h : kind.read s = .ok (x, rest)) :
    ∃ w v, s = w ++ (v ++ rest) ∧ Blank w ∧ kind.Denotes v x := by
  cases kind with
  | natural => exact readNatural_sound (within_eq_ok_iff.1 h)
  | optional => exact readOptional_sound (within_eq_ok_iff.1 h)
  | text => exact readTextValue_sound (within_eq_ok_iff.1 h)
  | amount => exact readAmount_sound (readAmountField_eq_ok_iff.1 h)

/-- **A field is read as what its value denotes**, in front of what a number may end in front of. -/
theorem read_complete {kind : Kind} {w v rest : List Char} {x : kind.Carrier} (hw : Blank w)
    (h : kind.Denotes v x) (hr : EndsNumber rest) :
    kind.read (w ++ (v ++ rest)) = .ok (x, rest) := by
  cases kind with
  | natural => exact within_eq_ok_iff.2 (readNatural_complete hw h hr)
  | optional => exact within_eq_ok_iff.2 (readOptional_complete hw h hr)
  | text => exact within_eq_ok_iff.2 (readTextValue_complete hw h)
  | amount => exact readAmountField_eq_ok_iff.2 (readAmount_complete hw h hr)

/-- What denotes something in a field is a value. -/
theorem isValue_of_denotes {kind : Kind} {v : List Char} {x : kind.Carrier}
    (h : kind.Denotes v x) : IsValue v := by
  have natural {n : Nat} (hn : IsNatural v n) : IsValue v := .number (isNumber_of_isWhole hn.1)
  have text {t : List Char} (ht : IsTextOf v t) : IsValue v := by
    obtain ⟨body, rfl, hb⟩ := ht
    exact .text hb.isQuotable
  cases kind with
  | natural => exact natural h
  | optional =>
    rcases h with ⟨rfl, -⟩ | ⟨n, hn, -⟩
    · exact .null
    · exact natural hn
  | text => exact text h
  | amount =>
    rcases h with ⟨t, ht, -⟩ | hn
    · exact text ht
    · exact natural hn

end Kind

end Json

end ChainBoard
