import ChainBoard.Proofs.Json.Reader
import ChainBoard.Proofs.Text.Utf8

/-!
# Reading bytes in two parts

A reader of bytes only ever adds to the text that it has read. Bytes that end between two characters
are therefore read by themselves, whatever stands behind them; and bytes that do not end there leave
a replacement character at the end of their text. Only the bytes of white space are read as white
space: bytes from 0x80 on make characters that are none, be they read or replaced.

## Main definitions

* `Decoder.onto`: a reader that has read something before
* `Decoder.IsLong`: a sequence that becomes no character below 0x80
* `BlankBytes`: the bytes of white space

## Main results

* `Decoder.foldl_step_onto`: what was read before does not matter
* `decode_append`: bytes that end between characters are read by themselves
* `open?_eq_none_of_decode`: bytes whose text does not end with a replacement character end between
  characters
* `blank_decode_iff`: only the bytes of white space are read as white space
-/

namespace ChainBoard.Text.Utf8

namespace Decoder

/-! ## What was read before -/

/-- The reader that has read `before` in front of all else, the last character first. -/
def onto (decoder : Decoder) (before : List Char) : Decoder :=
  { decoder with done := decoder.done ++ before }

theorem start_append (done before : List Char) (b : Nat) :
    start (done ++ before) b = (start done b).onto before := by
  unfold start
  cases lead b <;> rfl

theorem step_onto (decoder : Decoder) (before : List Char) (byte : UInt8) :
    step (decoder.onto before) byte = (step decoder byte).onto before := by
  obtain ⟨done, open?⟩ := decoder
  cases open? with
  | none => exact start_append done before byte.toNat
  | some seq =>
    simp only [step, onto]
    split
    · -- the sequence goes on, or is complete
      split <;> rfl
    · -- the sequence is broken
      exact start_append (replacement :: done) before byte.toNat

/-- What was read before does not matter to a reader. -/
theorem foldl_step_onto (bytes : List UInt8) (decoder : Decoder) (before : List Char) :
    bytes.foldl step (decoder.onto before) = (bytes.foldl step decoder).onto before := by
  induction bytes generalizing decoder with
  | nil => rfl
  | cons byte bytes ih => rw [List.foldl_cons, List.foldl_cons, step_onto, ih]

theorem finish_onto (decoder : Decoder) (before : List Char) :
    (decoder.onto before).finish = before.reverse ++ decoder.finish := by
  obtain ⟨done, open?⟩ := decoder
  cases open? <;> simp [onto, finish]

/-- What was read before stays in front of what is read next. -/
theorem finish_foldl_step (bytes : List UInt8) (done : List Char) (open? : Option Begun) :
    (bytes.foldl step ⟨done, open?⟩).finish =
      done.reverse ++ (bytes.foldl step ⟨[], open?⟩).finish := by
  have h := foldl_step_onto bytes ⟨[], open?⟩ done
  rw [onto, List.nil_append] at h
  rw [h, finish_onto]

end Decoder

/-! ## Bytes in two parts -/

/-- **Bytes that end between characters are read by themselves.** -/
theorem decode_append {bytes : List UInt8} (h : (bytes.foldl Decoder.step {}).open? = none)
    (more : List UInt8) : decode (bytes ++ more) = decode bytes ++ decode more := by
  unfold decode
  rw [List.foldl_append]
  revert h
  generalize bytes.foldl Decoder.step {} = decoder
  obtain ⟨done, open?⟩ := decoder
  rintro rfl
  exact Decoder.finish_foldl_step more done none

/-- Bytes end between characters unless their text ends with a replacement character. -/
theorem open?_eq_none_of_decode {bytes : List UInt8} {s : List Char} {c : Char}
    (h : decode bytes = s ++ [c]) (hc : c ≠ replacement) :
    (bytes.foldl Decoder.step {}).open? = none := by
  unfold decode Decoder.finish at h
  split at h
  · assumption
  · -- an open sequence is replaced
    rw [List.reverse_cons] at h
    obtain ⟨-, he⟩ := List.append_inj' h rfl
    simp only [List.cons.injEq, and_true] at he
    exact absurd he.symm hc

/-! ## Bytes of white space -/

open Json (Blank isBlank isBlank_iff)

/-- Spaces, tabs, line feeds and carriage returns. -/
def BlankBytes (bytes : List UInt8) : Prop :=
  ∀ b ∈ bytes, b = 0x20 ∨ b = 0x09 ∨ b = 0x0A ∨ b = 0x0D

/-- A text whose first character is no white space. -/
def StartsSolid (s : List Char) : Prop :=
  ∃ c rest, s = c :: rest ∧ isBlank c = false

theorem StartsSolid.not_blank {s : List Char} (h : StartsSolid s) : ¬ Blank s := by
  obtain ⟨c, rest, rfl, hc⟩ := h
  intro hblank
  have := isBlank_iff.2 (hblank c List.mem_cons_self)
  rw [hc] at this
  cases this

/-- No code point from 0x80 on is white space. -/
theorem isBlank_ofNat {n : Nat} (h : 0x80 ≤ n) : isBlank (Char.ofNat n) = false := by
  by_cases hv : n.isValidChar
  · have hn : (Char.ofNat n).toNat = n := Decoder.val_toNat_ofNat hv
    rw [Bool.eq_false_iff]
    intro hblank
    rcases isBlank_iff.1 hblank with he | he | he | he <;>
    · rw [he] at hn
      subst hn
      exact absurd h (by decide)
  · rw [Char.ofNat, dif_neg hv]
    rfl

namespace Decoder

/-- A sequence that becomes no character below 0x80: its bits and the bound of its next byte see to
it. -/
structure IsLong (seq : Begun) : Prop where
  last : seq.missing ≤ 1 → 2 ≤ seq.bits
  inner : 1 < seq.missing → 2 ≤ seq.bits * 64 + (seq.low - 0x80)

/-- A first byte opens no other sequence. -/
theorem isLong_of_lead {b : Nat} {seq : Begun} (h : lead b = .opens seq) : IsLong seq := by
  have hlead := range_of_lead h
  constructor <;> omega

/-- A reader whose first character is no white space reads on as it may. -/
theorem startsSolid_onto (decoder : Decoder) {c : Char} (hc : isBlank c = false)
    (bytes : List UInt8) : StartsSolid (bytes.foldl step (decoder.onto [c])).finish := by
  rw [foldl_step_onto, finish_onto]
  exact ⟨c, _, rfl, hc⟩

/-- What an open sequence becomes is no white space. -/
theorem startsSolid_of_isLong {bytes : List UInt8} {seq : Begun} (h : IsLong seq) :
    StartsSolid (bytes.foldl step ⟨[], some seq⟩).finish := by
  induction bytes generalizing seq with
  | nil => exact ⟨replacement, [], rfl, by decide⟩
  | cons byte bytes ih =>
    obtain ⟨bits, missing, low, high⟩ := seq
    rw [List.foldl_cons]
    dsimp only [step]
    split
    · rename_i hrange
      split
      · -- the last byte: the bits in front of it make the character great enough
        rename_i hlast
        have hbits : 2 ≤ bits := h.last hlast
        have hsolid : isBlank (Char.ofNat (bits * 64 + (byte.toNat - 0x80))) = false :=
          isBlank_ofNat (by omega)
        exact startsSolid_onto ⟨[], none⟩ hsolid bytes
      · -- behind the next byte the bits are enough by themselves
        rename_i hmore
        have hbits : 2 ≤ bits * 64 + (low - 0x80) := h.inner (Nat.lt_of_not_le hmore)
        apply ih
        constructor <;> dsimp only <;> omega
    · -- a broken sequence is replaced
      have hstart := start_append [] [replacement] byte.toNat
      rw [List.nil_append] at hstart
      rw [hstart]
      exact startsSolid_onto _ (by decide) bytes

/-- A byte from 0x80 on is not read as white space, and neither is what follows from it. -/
theorem startsSolid_of_le {byte : UInt8} (h : 0x80 ≤ byte.toNat) (bytes : List UInt8) :
    StartsSolid (decode (byte :: bytes)) := by
  rw [decode, List.foldl_cons]
  show StartsSolid (bytes.foldl step (start [] byte.toNat)).finish
  unfold start
  split
  · -- the byte would be below 0x80
    rename_i c hlead
    exact absurd hlead (lead_ne_whole h c)
  · rename_i seq hlead
    exact startsSolid_of_isLong (isLong_of_lead hlead)
  · exact startsSolid_onto ⟨[], none⟩ (by decide) bytes

end Decoder

/-- A byte below 0x80 is a character by itself. -/
theorem decode_cons_of_lt {byte : UInt8} (h : byte.toNat < 0x80) (bytes : List UInt8) :
    decode (byte :: bytes) = Char.ofNat byte.toNat :: decode bytes := by
  have hstep : Decoder.step {} byte = ⟨[Char.ofNat byte.toNat], none⟩ := by
    show Decoder.start [] byte.toNat = _
    rw [Decoder.start, lead_one h]
  rw [decode, List.foldl_cons, hstep, Decoder.finish_foldl_step]
  rfl

/-- The bytes below 0x80 that are read as white space. -/
theorem isBlank_ofNat_iff : ∀ n < 0x80, isBlank (Char.ofNat n) = true ↔
    n = 0x20 ∨ n = 0x09 ∨ n = 0x0A ∨ n = 0x0D := by
  decide

/-- **Only the bytes of white space are read as white space.** -/
theorem blank_decode_iff {bytes : List UInt8} : Blank (decode bytes) ↔ BlankBytes bytes := by
  induction bytes with
  | nil => simp [Blank, BlankBytes, decode, Decoder.finish]
  | cons byte bytes ih =>
    rw [BlankBytes, List.forall_mem_cons, ← BlankBytes, ← ih]
    by_cases h : byte.toNat < 0x80
    · rw [decode_cons_of_lt h, Blank, List.forall_mem_cons, ← Blank, ← isBlank_iff,
        isBlank_ofNat_iff _ h]
      simp only [← UInt8.toNat_inj]
      rfl
    · -- neither is white space
      have hsolid := Decoder.startsSolid_of_le (Nat.le_of_not_lt h) bytes
      refine iff_of_false hsolid.not_blank ?_
      rintro ⟨hbyte, -⟩
      apply h
      rcases hbyte with rfl | rfl | rfl | rfl <;> decide

end ChainBoard.Text.Utf8
