import ChainBoard.Proofs.Text.Sequences
import Mathlib.Data.Nat.Find

/-!
# Bytes are read piece by piece

Bytes are cut into the bytes of characters and, at places where no character starts, into maximal
subparts of ill-formed sequences. The characters are read as they are, and a replacement character
stands for each subpart. There is one way to cut. The bytes of a text are never cut into anything but
its characters, whatever stands in front of them and behind them.

## Main definitions

* `IsMaximalSubpart`: a maximal subpart of an ill-formed sequence
* `ReadsAs`: the text of bytes, piece by piece

## Main results

* `IsMaximalSubpart.decode_append`: a maximal subpart is replaced, and nothing else is
* `exists_piece`: bytes start with a character or with a maximal subpart
* `readsAs_iff`: bytes are read piece by piece, and in no other way
* `decode_append_bytes_append`: no byte of a text is lost between other bytes
-/

namespace ChainBoard.Text.Utf8

open Decoder

/-! ## Pieces -/

/-- The bytes of a character are read as that character, whatever stands behind them. -/
theorem decode_utf8EncodeChar_append (c : Char) (w : List UInt8) :
    decode (String.utf8EncodeChar c ++ w) = c :: decode w := by
  rw [decode, List.foldl_append, foldl_step_utf8EncodeChar, finish_foldl_step]
  rfl

/-- A maximal subpart of an ill-formed sequence: at a place where no character stands, as many bytes
as there are that some character starts with, and one byte if there are none. -/
structure IsMaximalSubpart (piece rest : List UInt8) : Prop where
  ne_nil : piece ≠ []
  ill_formed : ∀ c, ¬ String.utf8EncodeChar c <+: piece ++ rest
  beginning : IsBeginning piece ∨ piece.length = 1
  maximal : ∀ p, p <+: piece ++ rest → IsBeginning p → p.length ≤ piece.length

/-- **A maximal subpart is replaced, and nothing else is.** What stands behind it is read by
itself. -/
theorem IsMaximalSubpart.decode_append {piece rest : List UInt8} (h : IsMaximalSubpart piece rest) :
    decode (piece ++ rest) = replacement :: decode rest := by
  by_cases hbeginning : IsBeginning piece
  · obtain ⟨c, q, hc⟩ := hbeginning
    have hq : q ≠ [] := by
      rintro rfl
      apply h.ill_formed c
      rw [← hc, List.append_nil]
      exact List.prefix_append _ _
    obtain ⟨seq, hopened⟩ := exists_opened_of_append hc h.ne_nil hq
    rw [decode, List.foldl_append, hopened.foldl_step]
    cases rest with
    | nil => rfl
    | cons b rest =>
      -- with a byte in the range, the subpart would not be maximal
      have hrange : ¬ (seq.low ≤ b.toNat ∧ b.toNat ≤ seq.high) := by
        rintro ⟨hlow, hhigh⟩
        have hle := h.maximal (piece ++ [b]) (by simp) (hopened.isBeginning_concat hlow hhigh)
        rw [List.length_append] at hle
        exact Nat.not_succ_le_self _ hle
      exact finish_foldl_broken hrange rest []
  · -- the subpart is a byte that no character starts with
    obtain ⟨b, rfl⟩ := List.length_eq_one_iff.1 (h.beginning.resolve_left hbeginning)
    cases hlead : lead b.toNat with
    | whole c =>
      exact absurd ⟨c, [], by rw [List.append_nil, utf8EncodeChar_of_lead hlead]⟩ hbeginning
    | opens seq => exact absurd (Opened.lead hlead).isBeginning hbeginning
    | stray =>
      have hstep : step {} b = ⟨[replacement], none⟩ := by
        show start [] b.toNat = _
        rw [start, hlead]
      rw [List.singleton_append, decode, List.foldl_cons, hstep, finish_foldl_step]
      rfl

theorem exists_longest_beginning (w : List UInt8) :
    ∃ p, p <+: w ∧ IsBeginning p ∧ ∀ q, q <+: w → IsBeginning q → q.length ≤ p.length := by
  classical
  let P := fun n => IsBeginning (w.take n)
  have hP : P (Nat.findGreatest P w.length) :=
    Nat.findGreatest_spec (Nat.zero_le _) ⟨replacement, List.nil_prefix⟩
  refine ⟨_, List.take_prefix _ w, hP, ?_⟩
  intro q hq hbeginning
  rw [List.length_take, min_eq_left (Nat.findGreatest_le _)]
  apply Nat.le_findGreatest hq.length_le
  show IsBeginning (w.take q.length)
  rwa [← List.prefix_iff_eq_take.1 hq]

/-- Bytes start with a character, or else with a maximal subpart. -/
theorem exists_piece {w : List UInt8} (hw : w ≠ []) :
    (∃ c rest, w = String.utf8EncodeChar c ++ rest) ∨
      ∃ piece rest, w = piece ++ rest ∧ IsMaximalSubpart piece rest := by
  by_cases hc : ∃ c, String.utf8EncodeChar c <+: w
  · obtain ⟨c, rest, hrest⟩ := hc
    exact .inl ⟨c, rest, hrest.symm⟩
  · right
    obtain ⟨p, ⟨rest, rfl⟩, hbeginning, hlongest⟩ := exists_longest_beginning w
    by_cases hp : p = []
    · -- no character starts with the first byte
      subst hp
      obtain ⟨b, rest, rfl⟩ := List.exists_cons_of_ne_nil hw
      exact ⟨[b], rest, rfl, by simp, not_exists.1 hc, .inr rfl, fun q hq h =>
        (hlongest q hq h).trans (Nat.zero_le 1)⟩
    · exact ⟨p, rest, rfl, hp, not_exists.1 hc, .inl hbeginning, hlongest⟩

/-! ## Texts of bytes -/

/-- Bytes are read as a text, piece by piece: characters as they are, and a replacement character for
each maximal subpart of an ill-formed sequence. -/
inductive ReadsAs : List UInt8 → List Char → Prop where
  | nil : ReadsAs [] []
  | character (c : Char) {w : List UInt8} {s : List Char} (h : ReadsAs w s) :
      ReadsAs (String.utf8EncodeChar c ++ w) (c :: s)
  | malformed {piece rest : List UInt8} {s : List Char} (hpiece : IsMaximalSubpart piece rest)
      (h : ReadsAs rest s) : ReadsAs (piece ++ rest) (replacement :: s)

variable {w : List UInt8} {s : List Char}

theorem readsAs_decode (w : List UInt8) : ReadsAs w (decode w) := by
  -- on the number of bytes, of which each piece has one at least
  induction hn : w.length using Nat.strong_induction_on generalizing w with
  | _ n ih =>
    by_cases hw : w = []
    · subst hw
      exact .nil
    rcases exists_piece hw with ⟨c, rest, rfl⟩ | ⟨piece, rest, rfl, hpiece⟩
    · rw [decode_utf8EncodeChar_append]
      have hpos := c.utf8Size_pos
      rw [List.length_append, String.length_utf8EncodeChar] at hn
      exact .character c (ih rest.length (by omega) rest rfl)
    · rw [hpiece.decode_append]
      have hpos := List.length_pos_iff.2 hpiece.ne_nil
      rw [List.length_append] at hn
      exact .malformed hpiece (ih rest.length (by omega) rest rfl)

theorem ReadsAs.decode_eq (h : ReadsAs w s) : decode w = s := by
  induction h with
  | nil => rfl
  | character c _ ih => rw [decode_utf8EncodeChar_append, ih]
  | malformed hpiece _ ih => rw [hpiece.decode_append, ih]

/-- **Bytes are read piece by piece, and in no other way.** -/
theorem readsAs_iff : ReadsAs w s ↔ decode w = s :=
  ⟨ReadsAs.decode_eq, fun h => h ▸ readsAs_decode w⟩

/-- The first three bytes of a character of four are one subpart, and the quote behind them is
read. -/
example : ReadsAs [0xF0, 0x9F, 0x98, 0x22] [replacement, '"'] :=
  readsAs_iff.2 (by decide)

/-! ## Texts between other bytes -/

/-- Bytes are cut in front of a byte that goes on with no sequence. -/
theorem decode_append_cons {b : UInt8} (hb : ¬ (0x80 ≤ b.toNat ∧ b.toNat ≤ 0xBF))
    (front w : List UInt8) : decode (front ++ b :: w) = decode front ++ decode (b :: w) := by
  cases hfront : front.foldl step {} with
  | mk done open? =>
    cases open? with
    | none => exact decode_append (by rw [hfront]) (b :: w)
    | some seq =>
      obtain ⟨_, _, _, _, hopened⟩ := exists_opened hfront
      have hrange := hopened.range
      have hbreaks : ¬ (seq.low ≤ b.toNat ∧ b.toNat ≤ seq.high) := by omega
      have hleft : decode front = done.reverse ++ [replacement] := by
        rw [decode, hfront, finish, List.reverse_cons]
      rw [hleft, decode, List.foldl_append, hfront, finish_foldl_broken hbreaks, List.append_assoc]
      rfl

theorem decode_bytes_append (s : List Char) (w : List UInt8) :
    decode (bytes s ++ w) = s ++ decode w := by
  rw [decode_append (by rw [foldl_step_bytes]), decode_bytes]

/-- **No byte of a text is lost**, whatever stands in front of the text and behind it. -/
theorem decode_append_bytes_append (hs : s ≠ []) (front rest : List UInt8) :
    decode (front ++ bytes s ++ rest) = decode front ++ s ++ decode rest := by
  have hcut : decode (front ++ (bytes s ++ rest)) = decode front ++ decode (bytes s ++ rest) := by
    obtain ⟨c, s, rfl⟩ := List.exists_cons_of_ne_nil hs
    obtain ⟨b, t, hc, hb⟩ := exists_utf8EncodeChar c
    rw [bytes, List.flatMap_cons, hc]
    exact decode_append_cons hb front _
  rw [List.append_assoc, hcut, decode_bytes_append, List.append_assoc]

end ChainBoard.Text.Utf8
