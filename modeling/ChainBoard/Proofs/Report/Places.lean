import ChainBoard.Proofs.Json.Syntax
import ChainBoard.Proofs.Report.OtherMembers
import ChainBoard.Proofs.Text.Utf8

/-!
# Refusals point into the text

A place is counted over the bytes that have been read: its line by the line feeds among them, and its
column by the bytes behind the last line feed. A reader never leaves more than it was given, so that
the bytes that have been read are the start of the text, and the rest is what the reader has left.
This holds for reports whatever the fault is, since what has no place of its own gets one when the
reader leaves the record. An amount that stands alone has no record, so that its own faults, and no
others, have no place.

## Main definitions

* `Json.Place.next`: the place one byte further on
* `Json.Place.behindBytes`: the place behind bytes
* `Json.Refusal.PointsInto`: a refusal names the place in front of the bytes that were left

## Main results

* `Json.Place.after_eq_behindBytes`: the place behind a number of bytes is told by these bytes
* `Json.Stop.pointsInto`: the refusal for a stop names the place where the reader stood
* `refusals_point_into_text`: the refusals of reports and amounts
-/

namespace ChainBoard

namespace Json

open Text.Utf8 (byteSize bytes)

namespace Place

/-! ## Places counted over bytes -/

/-- The place one byte further on. -/
def next (place : Place) (byte : UInt8) : Place :=
  if byte = 0x0A then ⟨place.line + 1, 0⟩ else ⟨place.line, place.column + 1⟩

/-- The place behind bytes: one line more than there are line feeds, and the number of bytes behind
the last of them. -/
def behindBytes (front : List UInt8) : Place where
  line := front.count 0x0A + 1
  column := (front.rtakeWhile (· ≠ 0x0A)).length

theorem behindBytes_concat (front : List UInt8) (byte : UInt8) :
    behindBytes (front ++ [byte]) = (behindBytes front).next byte := by
  by_cases hfeed : byte = 0x0A
  · subst hfeed
    simp [behindBytes, next]
  · simp [behindBytes, next, hfeed]

/-- Counting byte by byte leads to the place behind the bytes. -/
theorem foldl_next (front : List UInt8) : front.foldl next start = behindBytes front := by
  induction front using List.reverseRecOn with
  | nil => rfl
  | append_singleton front byte ih =>
    rw [List.foldl_append, ih, behindBytes_concat]
    rfl

/-- Bytes that are no line feeds are counted by their number. -/
theorem foldl_next_of_notMem {bs : List UInt8} (h : 0x0A ∉ bs) (place : Place) :
    bs.foldl next place = ⟨place.line, place.column + bs.length⟩ := by
  induction bs generalizing place with
  | nil => rfl
  | cons byte bs ih =>
    rw [List.mem_cons, not_or] at h
    have hstep : place.next byte = ⟨place.line, place.column + 1⟩ := if_neg (Ne.symm h.1)
    rw [List.foldl_cons, hstep, ih h.2, List.length_cons, Nat.add_assoc, Nat.add_comm 1]

/-- Only the line feed has its byte. -/
theorem newline_notMem_utf8EncodeChar {c : Char} (h : c ≠ '\n') :
    0x0A ∉ String.utf8EncodeChar c := by
  rw [Text.Utf8.mem_utf8EncodeChar_iff (by decide)]
  intro hc
  exact h (Char.toNat_inj.1 hc)

/-- To read on in a text is to count its bytes. A character that is read in part is no line feed, so
that its bytes count alike. -/
theorem advance_eq_foldl (place : Place) (s : List Char) (count : Nat) :
    place.advance s count = ((bytes s).take count).foldl next place := by
  induction s generalizing place count with
  | nil => simp [advance, bytes]
  | cons c s ih =>
    obtain ⟨line, column⟩ := place
    have hbytes : bytes (c :: s) = String.utf8EncodeChar c ++ bytes s := List.flatMap_cons
    by_cases hzero : count = 0
    · subst hzero
      rfl
    by_cases hfeed : c = '\n'
    · subst hfeed
      obtain ⟨n, rfl⟩ := Nat.exists_eq_succ_of_ne_zero hzero
      rw [advance_newline hzero, ih, hbytes]
      rfl
    · rw [advance_of_ne hzero hfeed, ih, hbytes, List.take_append, List.foldl_append,
        String.length_utf8EncodeChar]
      congr 1
      have hplain : 0x0A ∉ (String.utf8EncodeChar c).take count :=
        fun hmem => newline_notMem_utf8EncodeChar hfeed (List.mem_of_mem_take hmem)
      rw [foldl_next_of_notMem hplain, List.length_take, String.length_utf8EncodeChar]

/-- **The place behind a number of bytes is told by these bytes.** -/
theorem after_eq_behindBytes (text : List Char) (count : Nat) :
    after text count = behindBytes ((bytes text).take count) := by
  rw [after, advance_eq_foldl, foldl_next]

end Place

/-! ## Refusals with a place -/

/-- The refusal names a place in the text, behind all bytes but the last `left`: its words end with
the line, which is one more than there are line feeds among these bytes, and the column, which is
how many of them stand behind the last line feed. -/
def Refusal.PointsInto (refusal : Refusal) (text : List Char) (left : Nat) : Prop :=
  ∃ front back, bytes text = front ++ back ∧ back.length = left ∧
    (Fault.malformed refusal).message = "malformed response: " ++ refusal.cause.message ++
      " at line " ++ toString (front.count 0x0A + 1) ++
      " column " ++ toString (front.rtakeWhile (· ≠ 0x0A)).length

/-- The refusal for a stop names the place where the reader stood. -/
theorem Stop.pointsInto {stop : Stop} {text : List Char} (h : stop.left ≤ byteSize text) :
    (stop.refusal text).PointsInto text stop.left := by
  let count := byteSize text - stop.left
  refine ⟨(bytes text).take count, (bytes text).drop count, (List.take_append_drop ..).symm, ?_, ?_⟩
  · rw [List.length_drop, Text.Utf8.length_bytes]
    exact Nat.sub_sub_self h
  · have hplace : stop.place text = Place.behindBytes ((bytes text).take count) :=
      Place.after_eq_behindBytes text count
    show "malformed response: " ++ (stop.cause.message ++ (stop.place text).describe) = _
    rw [hplace, Place.describe]
    simp only [String.append_assoc]
    rfl

/-- An amount that stands alone is refused by a walk, which stops inside the text, or as no amount,
which has no place. -/
theorem parseAmount_eq_error {text : List Char} {refusal : Refusal}
    (h : parseAmount text = .error refusal) :
    (∃ fault, refusal = ⟨.amount fault, none⟩) ∨
      ∃ stop : Stop, refusal = stop.refusal text ∧ stop.cause.IsSyntactic ∧
        stop.left ≤ byteSize text := by
  unfold parseAmount at h
  cases hread : readAmount bracketLimit text with
  | error stop =>
    -- the walk over the value stops
    rw [hread] at h
    cases h
    exact .inr ⟨stop, rfl, readAmount_syntactic _ text stop hread,
      readAmount_stopsIn _ text stop hread⟩
  | ok p =>
    obtain ⟨amount, rest⟩ := p
    rw [hread] at h
    cases amount with
    | error fault =>
      cases h
      exact .inl ⟨fault, rfl⟩
    | ok n =>
      -- something else may stand behind the amount
      have hrest : byteSize rest ≤ byteSize text :=
        byteSize_le_of_suffix (suffix_of_readAmount hread)
      change ((readEnd rest).mapError (Stop.refusal · text) >>= fun _ => pure n) = _ at h
      cases hend : readEnd rest with
      | error stop =>
        rw [hend] at h
        cases h
        exact .inr ⟨stop, rfl, readEnd_syntactic rest stop hend,
          (readEnd_stopsIn rest stop hend).trans hrest⟩
      | ok _ =>
        rw [hend] at h
        cases h

end Json

/-- **Refusals point into the text.** The words of a refusal end with the place in front of what the
reader has left, for every report that is refused, whatever the fault is, and for every amount that is
refused alone but for the faults of amounts, whose words are all there is. -/
theorem refusals_point_into_text (text : String) :
    (∀ (feed : Feed) (refusal : Json.Refusal), feed.parse text = .error refusal →
      ∃ stop, feed.schema.readWhole text.toList = .error stop ∧ refusal.cause = stop.cause ∧
        refusal.PointsInto text.toList stop.left) ∧
    ∀ refusal, Json.parseAmount text.toList = .error refusal →
      (∃ fault : Amount.Fault, refusal.cause = .amount fault ∧
        (Fault.malformed refusal).message = "malformed response: " ++ fault.message) ∨
      (∀ fault, refusal.cause ≠ .amount fault) ∧ ∃ left, refusal.PointsInto text.toList left := by
  constructor
  · intro feed refusal hrefused
    have hparse := feed.parse_eq text.toList
    rw [String.ofList_toList, hrefused] at hparse
    cases hread : feed.schema.readWhole text.toList with
    | error stop =>
      rw [hread] at hparse
      obtain rfl : refusal = stop.refusal text.toList := Except.error.inj hparse
      have hleft := feed.schema.readWhole_stopsIn text.toList stop hread
      exact ⟨stop, rfl, rfl, Json.Stop.pointsInto hleft⟩
    | ok row =>
      rw [hread] at hparse
      cases hparse
  · intro refusal hrefused
    rcases Json.parseAmount_eq_error hrefused with ⟨fault, rfl⟩ | ⟨stop, rfl, hcause, hleft⟩
    · refine .inl ⟨fault, rfl, ?_⟩
      show "malformed response: " ++ (fault.message ++ "") = _
      rw [String.append_empty]
    · exact .inr ⟨hcause.ne_amount, stop.left, Json.Stop.pointsInto hleft⟩

end ChainBoard
