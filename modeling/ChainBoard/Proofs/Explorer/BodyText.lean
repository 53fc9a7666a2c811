import ChainBoard.Proofs.Explorer.Wire
import ChainBoard.Proofs.Text.Pieces

/-!
# The text of a body

A client that gets a complete answer with status code 200 has the text of its body, whatever bytes
the body is made of. One mark of the byte order is taken off the front; what is left is read piece by
piece. So a text arrives as it was sent, and where bytes were lost or garbled on the way, the texts
around them arrive as they were sent.

## Main definitions

* `Text.Utf8.byteOrderMark`: the bytes of U+FEFF
* `Text.Utf8.IsUnmarked`: bytes without the mark in front of them

## Main results

* `Text.Utf8.dropMark_decode`: the mark of the text is the mark of the bytes
* `Client.fetch_reads_body`: what a client has of a body
-/

namespace ChainBoard

namespace Text.Utf8

/-! ## Marks -/

/-- The mark of a byte order: the bytes of U+FEFF. -/
def byteOrderMark : List UInt8 := [0xEF, 0xBB, 0xBF]

/-- What is left of bytes without one mark in front of them. -/
def IsUnmarked (body w : List UInt8) : Prop :=
  body = byteOrderMark ++ w ∨ ¬ byteOrderMark <+: body ∧ body = w

theorem exists_isUnmarked (body : List UInt8) : ∃ w, IsUnmarked body w := by
  by_cases h : byteOrderMark <+: body
  · obtain ⟨w, hw⟩ := h
    exact ⟨w, .inl hw.symm⟩
  · exact ⟨body, .inr ⟨h, rfl⟩⟩

theorem utf8EncodeChar_mark : String.utf8EncodeChar '\uFEFF' = byteOrderMark := by
  decide

/-- Only the mark is read as the mark. -/
theorem mark_prefix_of_readsAs {body : List UInt8} {s : List Char}
    (h : ReadsAs body ('\uFEFF' :: s)) : byteOrderMark <+: body := by
  generalize hs : '\uFEFF' :: s = t at h
  cases h with
  | nil => cases hs
  | character c =>
    cases hs
    rw [utf8EncodeChar_mark]
    exact List.prefix_append _ _
  | malformed => cases hs

/-- **The mark of the text is the mark of the bytes.** -/
theorem dropMark_decode {body w : List UInt8} (h : IsUnmarked body w) :
    dropMark (decode body) = decode w := by
  rcases h with rfl | ⟨hmark, rfl⟩
  · rw [← utf8EncodeChar_mark, decode_utf8EncodeChar_append]
    rfl
  · apply dropMark_of_head?_ne
    intro hhead
    obtain ⟨s, hs⟩ := List.head?_eq_some_iff.1 hhead
    exact hmark (mark_prefix_of_readsAs (readsAs_iff.2 hs))

end Text.Utf8

open Text.Utf8

namespace Client

variable {client : Client} {network : Http.Network} {feed : Feed} {body : List UInt8}

/-- **What a client has of a body.** It is the text of the bytes behind one mark, piece by piece. A
text that was sent is there without one mark in front of it, and as it was sent if it has none; so is
a text with other bytes behind it, or between any others, and no byte of it is taken for one of
theirs. -/
theorem fetch_reads_body (hsend : client.canSend network = true)
    (hreply : network.reply (client.request feed) = .sent Http.StatusCode.ok body true) :
    ∃ w text, IsUnmarked body w ∧ (∀ s, ReadsAs w s ↔ s = text) ∧
      (client.fetch network feed).text = .ok (some (String.ofList text)) ∧
      (∀ s, body = bytes ('\uFEFF' :: s) → text = s) ∧
      (∀ s, s.head? ≠ some '\uFEFF' → body = bytes s → text = s) ∧
      (∀ s more, s ≠ [] → s.head? ≠ some '\uFEFF' → body = bytes s ++ more →
        ∃ t, ReadsAs more t ∧ text = s ++ t) ∧
      ∀ front s rest, s ≠ [] → w = front ++ bytes s ++ rest →
        ∃ t t', ReadsAs front t ∧ ReadsAs rest t' ∧ text = t ++ s ++ t' := by
  obtain ⟨w, hw⟩ := exists_isUnmarked body
  have htext := dropMark_decode hw
  refine ⟨w, decode w, hw, ?_, ?_, ?_, ?_, ?_, ?_⟩
  · intro s
    rw [readsAs_iff, eq_comm]
  · rw [fetch_of_gets ⟨hsend, body, hreply, rfl⟩, bodyText, htext]
  · rintro s rfl
    rw [← htext, decode_bytes]
    rfl
  · rintro s hs rfl
    rw [← htext, decode_bytes, dropMark_of_head?_ne hs]
  · rintro s more hne hs rfl
    have hhead : (s ++ decode more).head? ≠ some '\uFEFF' := by
      rwa [List.head?_append_of_ne_nil _ hne]
    refine ⟨decode more, readsAs_decode more, ?_⟩
    rw [← htext, decode_bytes_append, dropMark_of_head?_ne hhead]
  · rintro front s rest hne rfl
    exact ⟨decode front, decode rest, readsAs_decode front, readsAs_decode rest,
      decode_append_bytes_append hne front rest⟩

/-- A body with a mark and the first two bytes of a character of three: the quote behind them is not
lost. -/
theorem fetch_reads_body_broken :
    let client : Client := ⟨"http://e:1", "Rivine-Agent"⟩
    let body : List UInt8 := [0xEF, 0xBB, 0xBF, 0x22, 0xE2, 0x82, 0x22]
    let network : Http.Network := ⟨fun _ => true, fun _ => .sent 200 body true, fun _ => ""⟩
    client.canSend network = true ∧
      network.reply (client.request .tip) = .sent Http.StatusCode.ok body true ∧
      (client.fetch network .tip).text = .ok (some "\"\uFFFD\"") := by
  intro client body network
  have hsend : client.canSend network = true := by decide +kernel
  have hreply : network.reply (client.request .tip) = .sent Http.StatusCode.ok body true := rfl
  obtain ⟨w, text, hw, hreads, hfetch, -⟩ := fetch_reads_body hsend hreply
  have hrest : w = [0x22, 0xE2, 0x82, 0x22] := by
    rcases hw with hbody | ⟨hmark, -⟩
    · have hcancel : byteOrderMark ++ [0x22, 0xE2, 0x82, 0x22] = byteOrderMark ++ w := hbody
      exact (List.append_cancel_left hcancel).symm
    · exact absurd (by decide) hmark
  have htext : ['"', '\uFFFD', '"'] = text := (hreads _).1 (readsAs_iff.2 (by rw [hrest]; decide))
  refine ⟨hsend, hreply, ?_⟩
  rw [hfetch, ← htext]

end Client

end ChainBoard
