import ChainBoard.Proofs.Text.Decoding
import Mathlib.Data.List.Induction

/-!
# Sequences that are open

A reader of bytes keeps a sequence open as long as its bytes are those that some character starts
with. The range of the next byte says exactly that: with a byte in the range, the sequence becomes a
character or the start of one; with any other byte it becomes neither. Behind bytes that a reader has
read, the open sequence is made up of the last of them.

## Main definitions

* `IsBeginning`: bytes that some character starts with
* `Decoder.Opened`: the bytes of an open sequence

## Main results

* `utf8EncodeChar_two`, `utf8EncodeChar_three`, `utf8EncodeChar_four`: bytes in their ranges are the
  bytes of a character
* `Decoder.Opened.complete`: the last byte completes a character
* `Decoder.Opened.isBeginning_concat`: a byte in the range leaves the start of a character
* `Decoder.exists_opened`: what is open was opened by the last bytes
* `Decoder.exists_opened_of_append`: the start of a character is left open
-/

namespace ChainBoard.Text.Utf8

/-! ## The bytes of a character -/

/-- A byte below 0x80 is a character by itself. -/
theorem utf8EncodeChar_one {b : UInt8} (h : b.toNat < 0x80) :
    String.utf8EncodeChar (Char.ofNat b.toNat) = [b] := by
  have hv := @Decoder.val_toNat_ofNat b.toNat (.inl (by omega))
  unfold String.utf8EncodeChar
  rw [hv]
  dsimp only
  rw [if_pos (by omega), UInt8.ofNat_toNat]

/-- Two bytes are a character that needs as many. -/
theorem utf8EncodeChar_two {a : Nat} {b₀ b₁ : UInt8} (ha : 2 ≤ a) (ha' : a < 32)
    (h₀ : b₀.toNat = a + 0xC0) (h₁ : 0x80 ≤ b₁.toNat) (h₁' : b₁.toNat ≤ 0xBF) :
    String.utf8EncodeChar (Char.ofNat (a * 64 + (b₁.toNat - 0x80))) = [b₀, b₁] := by
  have hv := @Decoder.val_toNat_ofNat (a * 64 + (b₁.toNat - 0x80)) (.inl (by omega))
  unfold String.utf8EncodeChar
  rw [hv]
  dsimp only
  rw [if_neg (by omega), if_pos (by omega)]
  simp only [List.cons.injEq, ← UInt8.toNat_inj, UInt8.toNat_ofNat', and_true]
  omega

/-- Three bytes are a character that needs as many and is no surrogate. -/
theorem utf8EncodeChar_three {a : Nat} {b₀ b₁ b₂ : UInt8} (ha : a < 16)
    (h₀ : b₀.toNat = a + 0xE0) (h₁ : 0x80 ≤ b₁.toNat) (h₁' : b₁.toNat ≤ 0xBF)
    (hlong : a = 0 → 0xA0 ≤ b₁.toNat) (hscalar : a = 13 → b₁.toNat ≤ 0x9F)
    (h₂ : 0x80 ≤ b₂.toNat) (h₂' : b₂.toNat ≤ 0xBF) :
    String.utf8EncodeChar (Char.ofNat ((a * 64 + (b₁.toNat - 0x80)) * 64 + (b₂.toNat - 0x80))) =
      [b₀, b₁, b₂] := by
  have hv := @Decoder.val_toNat_ofNat ((a * 64 + (b₁.toNat - 0x80)) * 64 + (b₂.toNat - 0x80))
    (by unfold Nat.isValidChar; omega)
  unfold String.utf8EncodeChar
  rw [hv]
  dsimp only
  rw [if_neg (by omega), if_neg (by omega), if_pos (by omega)]
  simp only [List.cons.injEq, ← UInt8.toNat_inj, UInt8.toNat_ofNat', and_true]
  omega

/-- Four bytes are a character that needs as many and lies in front of the last code point. -/
theorem utf8EncodeChar_four {a : Nat} {b₀ b₁ b₂ b₃ : UInt8} (ha : a < 5)
    (h₀ : b₀.toNat = a + 0xF0) (h₁ : 0x80 ≤ b₁.toNat) (h₁' : b₁.toNat ≤ 0xBF)
    (hlong : a = 0 → 0x90 ≤ b₁.toNat) (hscalar : a = 4 → b₁.toNat ≤ 0x8F)
    (h₂ : 0x80 ≤ b₂.toNat) (h₂' : b₂.toNat ≤ 0xBF) (h₃ : 0x80 ≤ b₃.toNat)
    (h₃' : b₃.toNat ≤ 0xBF) :
    String.utf8EncodeChar (Char.ofNat (((a * 64 + (b₁.toNat - 0x80)) * 64 + (b₂.toNat - 0x80)) * 64 +
      (b₃.toNat - 0x80))) = [b₀, b₁, b₂, b₃] := by
  have hv := @Decoder.val_toNat_ofNat (((a * 64 + (b₁.toNat - 0x80)) * 64 + (b₂.toNat - 0x80)) * 64 +
    (b₃.toNat - 0x80)) (by unfold Nat.isValidChar; omega)
  unfold String.utf8EncodeChar
  rw [hv]
  dsimp only
  rw [if_neg (by omega), if_neg (by omega), if_neg (by omega)]
  simp only [List.cons.injEq, ← UInt8.toNat_inj, UInt8.toNat_ofNat', and_true]
  omega

/-- The first byte of a character goes on with no sequence. -/
theorem exists_utf8EncodeChar (c : Char) :
    ∃ b t, String.utf8EncodeChar c = b :: t ∧ ¬ (0x80 ≤ b.toNat ∧ b.toNat ≤ 0xBF) := by
  have hv := Decoder.toNat_bounds c
  unfold String.utf8EncodeChar
  revert hv
  generalize c.val.toNat = v
  intro hv
  dsimp only
  split
  · exact ⟨_, _, rfl, by rw [UInt8.toNat_ofNat']; omega⟩
  · split
    · exact ⟨_, _, rfl, by rw [UInt8.toNat_ofNat']; omega⟩
    · split <;> exact ⟨_, _, rfl, by rw [UInt8.toNat_ofNat']; omega⟩

/-- Bytes that some character starts with. -/
def IsBeginning (p : List UInt8) : Prop :=
  ∃ c, p <+: String.utf8EncodeChar c

theorem IsBeginning.mono {p q : List UInt8} (h : IsBeginning q) (hp : p <+: q) :
    IsBeginning p := by
  obtain ⟨c, hc⟩ := h
  exact ⟨c, hp.trans hc⟩

/-! ## First bytes -/

variable {seq : Begun}

theorem utf8EncodeChar_of_lead {b : UInt8} {c : Char} (h : lead b.toNat = .whole c) :
    String.utf8EncodeChar c = [b] := by
  by_cases hb : b.toNat < 0x80
  · rw [lead_one hb, Lead.whole.injEq] at h
    rw [← h, utf8EncodeChar_one hb]
  · exact absurd h (lead_ne_whole (Nat.le_of_not_lt hb) c)

namespace Decoder

/-! ## Open sequences -/

/-- The bytes of an open sequence: its first byte, and further bytes in their ranges. -/
inductive Opened : List UInt8 → Begun → Prop where
  | lead {b : UInt8} {seq : Begun} (h : lead b.toNat = .opens seq) : Opened [b] seq
  | inner {p : List UInt8} {seq : Begun} {b : UInt8} (h : Opened p seq) (hmore : 1 < seq.missing)
      (hlow : seq.low ≤ b.toNat) (hhigh : b.toNat ≤ seq.high) :
      Opened (p ++ [b]) ⟨seq.bits * 64 + (b.toNat - 0x80), seq.missing - 1, 0x80, 0xBF⟩

namespace Opened

variable {p : List UInt8} {b : UInt8}

theorem range (h : Opened p seq) : 0x80 ≤ seq.low ∧ seq.low ≤ seq.high ∧ seq.high ≤ 0xBF := by
  cases h with
  | lead h => exact (range_of_lead h).1
  | inner =>
    dsimp only
    omega

theorem missing_le (h : Opened p seq) : seq.missing ≤ 3 := by
  induction h with
  | lead h =>
    have hlead := range_of_lead h
    omega
  | inner _ _ _ _ ih => exact (Nat.sub_le _ 1).trans ih

/-- **The last byte completes a character.** -/
theorem complete (h : Opened p seq) (hlast : seq.missing ≤ 1) (hlow : seq.low ≤ b.toNat)
    (hhigh : b.toNat ≤ seq.high) :
    String.utf8EncodeChar (Char.ofNat (seq.bits * 64 + (b.toNat - 0x80))) = p ++ [b] := by
  have hrange := h.range
  -- one case for each number of bytes, from the last byte back to the first
  cases h with
  | lead h =>
    have hlead := range_of_lead h
    apply utf8EncodeChar_two <;> omega
  | inner h hmore hlow₂ hhigh₂ =>
    have hrange₂ := h.range
    cases h with
    | lead h =>
      have hlead := range_of_lead h
      dsimp only at *
      apply utf8EncodeChar_three <;> omega
    | inner h hmore₁ hlow₁ hhigh₁ =>
      have hrange₁ := h.range
      cases h with
      | lead h =>
        have hlead := range_of_lead h
        dsimp only at *
        apply utf8EncodeChar_four <;> omega
      | inner h hmore₀ =>
        -- there would be a fifth byte
        have hle := h.missing_le
        dsimp only at *
        omega

theorem exists_next (h : Opened p seq) : ∃ b : UInt8, seq.low ≤ b.toNat ∧ b.toNat ≤ seq.high := by
  have hrange := h.range
  refine ⟨UInt8.ofNat seq.low, ?_⟩
  rw [UInt8.toNat_ofNat', Nat.mod_eq_of_lt (by omega)]
  exact ⟨le_rfl, hrange.2.1⟩

/-- **A byte in the range leaves the start of a character.** -/
theorem isBeginning_concat (h : Opened p seq) (hlow : seq.low ≤ b.toNat)
    (hhigh : b.toNat ≤ seq.high) : IsBeginning (p ++ [b]) := by
  -- on the number of missing bytes: any bytes in their ranges will do for the others
  induction hm : seq.missing using Nat.strong_induction_on generalizing p seq b with
  | _ m ih =>
    by_cases hlast : seq.missing ≤ 1
    · exact ⟨_, [], (List.append_nil _).trans (h.complete hlast hlow hhigh).symm⟩
    · have hinner := h.inner (Nat.lt_of_not_le hlast) hlow hhigh
      obtain ⟨b', hlow', hhigh'⟩ := hinner.exists_next
      exact (ih (seq.missing - 1) (by omega) hinner hlow' hhigh' rfl).mono
        (List.prefix_append _ _)

theorem isBeginning (h : Opened p seq) : IsBeginning p := by
  obtain ⟨b, hlow, hhigh⟩ := h.exists_next
  exact (h.isBeginning_concat hlow hhigh).mono (List.prefix_append _ _)

theorem foldl_step (h : Opened p seq) (done : List Char) :
    p.foldl step ⟨done, none⟩ = ⟨done, some seq⟩ := by
  induction h with
  | @lead b seq h =>
    show start done b.toNat = _
    rw [start, h]
  | @inner p seq b _ hmore hlow hhigh ih =>
    rw [List.foldl_append, ih]
    simp [step, hlow, hhigh, Nat.not_le.2 hmore]

end Opened

theorem start_eq_open {done done' : List Char} {b : Nat} (h : start done b = ⟨done', some seq⟩) :
    done = done' ∧ lead b = .opens seq := by
  unfold start at h
  split at h
  · cases h
  · rename_i hlead
    cases h
    exact ⟨rfl, hlead⟩
  · cases h

/-- **What is open was opened by the last bytes**; what has been read is the text of the bytes in
front of them. -/
theorem exists_opened {w : List UInt8} {done : List Char}
    (h : w.foldl step {} = ⟨done, some seq⟩) :
    ∃ front p, w = front ++ p ∧ decode front = done.reverse ∧ Opened p seq := by
  induction w using List.reverseRecOn generalizing done seq with
  | nil => cases h
  | append_singleton w b ih =>
    rw [List.foldl_append, List.foldl_cons, List.foldl_nil] at h
    cases hw : w.foldl step {} with
    | mk done' open? =>
      rw [hw] at h
      cases open? with
      | none =>
        obtain ⟨rfl, hlead⟩ := start_eq_open h
        exact ⟨w, [b], rfl, by rw [decode, hw, finish], .lead hlead⟩
      | some seq' =>
        dsimp only [step] at h
        split at h
        · -- the sequence goes on
          rename_i hrange
          obtain ⟨front, p, rfl, hfront, hp⟩ := ih hw
          split at h
          · cases h
          · rename_i hmore
            simp only [Decoder.mk.injEq, Option.some.injEq] at h
            obtain ⟨rfl, rfl⟩ := h
            exact ⟨front, p ++ [b], (List.append_assoc front p [b]), hfront,
              hp.inner (Nat.lt_of_not_le hmore) hrange.1 hrange.2⟩
        · -- the sequence is broken, and the byte opens the next one
          obtain ⟨rfl, hlead⟩ := start_eq_open h
          exact ⟨w, [b], rfl, by rw [decode, hw, finish], .lead hlead⟩

/-- A byte that breaks a sequence is read as it would be behind the replacement. -/
theorem finish_foldl_broken {b : UInt8} (h : ¬ (seq.low ≤ b.toNat ∧ b.toNat ≤ seq.high))
    (w : List UInt8) (done : List Char) :
    ((b :: w).foldl step ⟨done, some seq⟩).finish =
      done.reverse ++ replacement :: decode (b :: w) := by
  have hstep : step ⟨done, some seq⟩ b = step ⟨replacement :: done, none⟩ b := by
    simp only [step, if_neg h]
  rw [List.foldl_cons, hstep, ← List.foldl_cons, finish_foldl_step, List.reverse_cons,
    List.append_assoc]
  rfl

/-! ## Something is read -/

theorem step_ne (decoder : Decoder) (b : UInt8) : step decoder b ≠ {} := by
  have hstart (done : List Char) : start done b.toNat ≠ {} := by
    unfold start
    split <;> simp
  unfold step
  dsimp only
  split
  · exact hstart _
  · split
    · split <;> simp
    · exact hstart _

theorem finish_eq_nil_iff {decoder : Decoder} : decoder.finish = [] ↔ decoder = {} := by
  obtain ⟨done, open?⟩ := decoder
  cases open? <;> simp [finish]

/-- No byte is read as nothing. -/
theorem finish_foldl_eq_nil_iff {w : List UInt8} {decoder : Decoder} :
    (w.foldl step decoder).finish = [] ↔ w = [] ∧ decoder = {} := by
  rw [finish_eq_nil_iff]
  rcases List.eq_nil_or_concat w with rfl | ⟨w, b, rfl⟩
  · simp
  · simp [step_ne]

end Decoder

theorem decode_eq_nil_iff {w : List UInt8} : decode w = [] ↔ w = [] := by
  rw [decode, Decoder.finish_foldl_eq_nil_iff, eq_self, and_true]

namespace Decoder

/-- **The start of a character is left open.** -/
theorem exists_opened_of_append {p q : List UInt8} {c : Char}
    (h : p ++ q = String.utf8EncodeChar c) (hp : p ≠ []) (hq : q ≠ []) : ∃ seq, Opened p seq := by
  cases hread : p.foldl step {} with
  | mk done open? =>
    have hdone : done = [] := by
      -- the character is all that is read, and it is read behind `p`
      have hwhole := congrArg finish (foldl_step_utf8EncodeChar c [])
      rw [← h, List.foldl_append, hread, finish_foldl_step] at hwhole
      have hlast : (q.foldl step ⟨[], open?⟩).finish ≠ [] := fun hnil =>
        hq (finish_foldl_eq_nil_iff.1 hnil).1
      rcases List.append_eq_singleton_iff.1 hwhole with ⟨hnil, -⟩ | ⟨-, hnil⟩
      · exact List.reverse_eq_nil_iff.1 hnil
      · exact absurd hnil hlast
    subst hdone
    cases open? with
    | none => exact absurd (decode_eq_nil_iff.1 (by rw [decode, hread]; rfl)) hp
    | some seq =>
      obtain ⟨front, p', rfl, hfront, hopened⟩ := exists_opened hread
      obtain rfl := decode_eq_nil_iff.1 hfront
      exact ⟨seq, hopened⟩

end Decoder

end ChainBoard.Text.Utf8
