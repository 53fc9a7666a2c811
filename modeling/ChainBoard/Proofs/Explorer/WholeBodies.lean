import ChainBoard.Proofs.Explorer.Endings
import ChainBoard.Proofs.Report.OtherMembers
import ChainBoard.Proofs.Text.Decoding

/-!
# Only whole bodies are taken

A text that holds a report holds one with nothing but white space behind it, and then it is the same
report. So a report that was cut off is not taken for a whole one, and neither is a report with
something behind it; this is the same for bodies, which may be cut off inside of a character. A load
that gets such a body leaves everything as it was.

## Main definitions

* `Feed.Holds`: a body that holds a report
* `Feed.Spoiled`: a body that was cut off in front of its last bracket, or that has something behind
  it

## Main results

* `Json.Schema.readWhole_append`: what may stand behind a whole text
* `Feed.parse_append`, `Feed.Holds.append_iff`: what may stand behind a report, in texts and bodies
* `Feed.whole_reports_only`: nothing else is taken, and nothing is written for it
-/

namespace ChainBoard

namespace Json

/-! ## Texts -/

/-- What closes a record is no white space. -/
theorem not_blank_append_close (front : List Char) (bracket : Bracket) (w : List Char) :
    ¬ Blank (front ++ bracket.close :: w) := by
  intro h
  have hclose := h bracket.close (by simp)
  cases bracket <;> exact absurd hclose (by decide)

namespace Schema

variable {schema : Schema} {text : List Char} {row : Row schema.fields}

/-- What writes a record ends with the bracket that closes it. -/
theorem Writes.exists_close (h : schema.Writes text row) :
    ∃ body, ∃ bracket : Bracket, text = body ++ [bracket.close] := by
  rcases h with ⟨ms, body, rfl, -⟩ | ⟨vs, body, rfl, -⟩
  · exact ⟨'{' :: body, .object, rfl⟩
  · exact ⟨'[' :: body, .list, rfl⟩

/-- A whole text ends with a bracket and white space. -/
theorem exists_close_of_readWhole (h : schema.readWhole text = .ok row) :
    ∃ front, ∃ bracket : Bracket, ∃ w, text = front ++ bracket.close :: w ∧ Blank w := by
  obtain ⟨w, t, w', rfl, -, hw', ht⟩ := parse_eq_ok_iff_writes.1 (parse_eq_ok_iff.2 h)
  obtain ⟨body, bracket, rfl⟩ := ht.exists_close
  exact ⟨w ++ body, bracket, w', by simp, hw'⟩

/-- **Only white space may stand behind a whole text**, and it makes no difference. -/
theorem readWhole_append (h : schema.readWhole text = .ok row) {more : List Char}
    {row' : Row schema.fields} :
    schema.readWhole (text ++ more) = .ok row' ↔ Blank more ∧ row' = row := by
  obtain ⟨w, t, w', rfl, hw, hw', ht⟩ := parse_eq_ok_iff_writes.1 (parse_eq_ok_iff.2 h)
  -- the reader of records stops at the same bracket
  have hread : schema.read (w ++ (t ++ w') ++ more) = .ok (row, w' ++ more) :=
    read_eq_ok_iff.2 ⟨w, t, by simp, hw, ht⟩
  have hend : readEnd (w' ++ more) = .ok () ↔ Blank more := by
    rw [readEnd_eq_ok_iff]
    exact ⟨fun hb c hc => hb c (List.mem_append_right w' hc), hw'.append⟩
  rw [readWhole, hread]
  constructor
  · intro hwhole
    obtain ⟨p, hp, hrest⟩ := bind_eq_ok_iff.1 hwhole
    cases hp
    obtain ⟨u, hu, he⟩ := bind_eq_ok_iff.1 hrest
    exact ⟨hend.1 hu, (Except.ok.inj he).symm⟩
  · rintro ⟨hmore, rfl⟩
    refine bind_eq_ok_iff.2 ⟨_, rfl, ?_⟩
    exact bind_eq_ok_iff.2 ⟨(), hend.2 hmore, rfl⟩

end Schema

end Json

open Json (Blank Bracket)
open Text.Utf8 (BlankBytes Decoder decode dropMark replacement)

/-! ## Bodies -/

namespace Text.Utf8

theorem exists_dropMark (s : List Char) : ∃ mark, s = mark ++ dropMark s := by
  unfold dropMark
  split
  · exact ⟨['\uFEFF'], rfl⟩
  · exact ⟨[], rfl⟩

/-- A mark is dropped from a text whatever stands behind the text. -/
theorem dropMark_append {s : List Char} (h : s ≠ []) (t : List Char) :
    dropMark (s ++ t) = dropMark s ++ t := by
  obtain ⟨c, s, rfl⟩ := List.exists_cons_of_ne_nil h
  rw [List.cons_append]
  unfold dropMark
  split <;> split <;> simp_all

end Text.Utf8

namespace Feed

variable {feed : Feed} {report report' : feed.Report}

theorem parse_eq_ok_iff {text : List Char} :
    feed.parse (String.ofList text) = .ok report ↔
      ∃ row, feed.schema.readWhole text = .ok row ∧ feed.ofRow row = report := by
  rw [parse_eq, Json.map_eq_ok_iff]
  simp only [Json.mapError_eq_ok_iff]

/-- **Only white space may stand behind a report**, and it makes no difference. -/
theorem parse_append {text more : List Char} (h : feed.parse (String.ofList text) = .ok report) :
    feed.parse (String.ofList (text ++ more)) = .ok report' ↔ Blank more ∧ report' = report := by
  obtain ⟨row, hrow, rfl⟩ := parse_eq_ok_iff.1 h
  simp only [parse_eq_ok_iff, Json.Schema.readWhole_append hrow]
  constructor
  · rintro ⟨_, ⟨hmore, rfl⟩, rfl⟩
    exact ⟨hmore, rfl⟩
  · rintro ⟨hmore, rfl⟩
    exact ⟨row, ⟨hmore, rfl⟩, rfl⟩

/-- A report ends with a bracket and white space, and is refused when it is cut off in front of that
bracket. -/
theorem parse_cut {text : List Char} (h : feed.parse (String.ofList text) = .ok report) :
    ∃ front, ∃ bracket : Bracket, ∃ w, text = front ++ bracket.close :: w ∧ Blank w ∧
      ∀ cut, cut <+: front → ∃ refusal, feed.parse (String.ofList cut) = .error refusal := by
  obtain ⟨row, hrow, -⟩ := parse_eq_ok_iff.1 h
  obtain ⟨front, bracket, w, rfl, hw⟩ := Json.Schema.exists_close_of_readWhole hrow
  refine ⟨front, bracket, w, rfl, hw, ?_⟩
  rintro cut ⟨left, rfl⟩
  cases hcut : feed.parse (String.ofList cut) with
  | error refusal => exact ⟨refusal, rfl⟩
  | ok report' =>
    -- what was cut off would be white space
    rw [List.append_assoc] at h
    exact absurd ((parse_append hcut).1 h).1 (Json.not_blank_append_close left bracket w)

/-- A body that holds a report. -/
def Holds (feed : Feed) (body : List UInt8) (report : feed.Report) : Prop :=
  feed.parse (bodyText body) = .ok report

/-- A body that holds a report ends between characters. -/
theorem Holds.open?_eq_none {body : List UInt8} (h : feed.Holds body report) :
    (body.foldl Decoder.step {}).open? = none := by
  obtain ⟨row, hrow, -⟩ := parse_eq_ok_iff.1 h
  obtain ⟨front, bracket, w, htext, hw⟩ := Json.Schema.exists_close_of_readWhole hrow
  obtain ⟨mark, hmark⟩ := Text.Utf8.exists_dropMark (decode body)
  rw [htext] at hmark
  -- the last character is the bracket, or white space behind it
  rcases w.eq_nil_or_concat with rfl | ⟨w, c, rfl⟩
  · have hclose : bracket.close ≠ replacement := by cases bracket <;> decide
    exact Text.Utf8.open?_eq_none_of_decode (s := mark ++ front) (by simp [hmark]) hclose
  · have hc : c ≠ replacement := by
      rintro rfl
      exact absurd (hw replacement (by simp)) (by decide)
    exact Text.Utf8.open?_eq_none_of_decode (s := mark ++ (front ++ bracket.close :: w))
      (by simp [hmark]) hc

/-- **Only white space may stand behind a body that holds a report**, and it makes no difference. -/
theorem Holds.append_iff {body more : List UInt8} (h : feed.Holds body report) :
    feed.Holds (body ++ more) report' ↔ BlankBytes more ∧ report' = report := by
  have hne : decode body ≠ [] := by
    intro he
    obtain ⟨row, hrow, -⟩ := parse_eq_ok_iff.1 h
    obtain ⟨front, bracket, w, htext, -⟩ := Json.Schema.exists_close_of_readWhole hrow
    rw [he] at htext
    simp [dropMark] at htext
  have htext : bodyText (body ++ more) =
      String.ofList (dropMark (decode body) ++ decode more) := by
    rw [bodyText, Text.Utf8.decode_append h.open?_eq_none, Text.Utf8.dropMark_append hne]
  rw [Holds, htext, parse_append h, Text.Utf8.blank_decode_iff]

/-- A body that is not as it was sent: it was cut off in front of its last bracket, so that a
bracket is missing, or something that is no white space stands behind it. -/
inductive Spoiled (feed : Feed) : List UInt8 → Prop
  | cut {front back : List UInt8} {report : feed.Report} : feed.Holds (front ++ back) report →
      0x7D ∈ back ∨ 0x5D ∈ back → Spoiled feed front
  | extended {body more : List UInt8} {report : feed.Report} : feed.Holds body report →
      ¬ BlankBytes more → Spoiled feed (body ++ more)

/-- A spoiled body holds no report. -/
theorem Spoiled.not_holds {body : List UInt8} (h : feed.Spoiled body) : ¬ feed.Holds body report := by
  intro hholds
  cases h with
  | cut hwhole hback =>
    -- the bracket would be white space
    have hblank : BlankBytes _ := (hholds.append_iff.1 hwhole).1
    rcases hback with hb | hb
    · exact absurd (hblank _ hb) (by decide)
    · exact absurd (hblank _ hb) (by decide)
  | extended hwhole hmore => exact hmore (hwhole.append_iff.1 hholds).1

theorem Spoiled.exists_refusal {body : List UInt8} (h : feed.Spoiled body) :
    ∃ refusal, feed.parse (bodyText body) = .error refusal := by
  cases hparse : feed.parse (bodyText body) with
  | error refusal => exact ⟨refusal, rfl⟩
  | ok report => exact absurd hparse h.not_holds

end Feed

/-! ## Loads -/

/-- A load that is sent a spoiled body, with whatever status code, gives no contents. -/
theorem Client.entries_load_of_spoiled {client : Client} {network : Http.Network} {feed : Feed}
    {code : Nat} {body : List UInt8} {complete : Bool} (unit : CoinUnit)
    (hreply : network.reply (client.request feed) = .sent code body complete)
    (h : feed.Spoiled body) : (client.load network unit feed).entries = [] := by
  rcases client.load_cases network unit feed with ⟨report, hreport, -⟩ | ⟨-, hentries⟩
  · obtain ⟨text, ⟨-, body', hreply', rfl⟩, hparse⟩ := hreport
    -- the body that was read is the one that was sent
    rw [hreply] at hreply'
    cases hreply'
    exact absurd hparse h.not_holds
  · exact hentries

namespace Feed

/-- **Only whole reports are taken.** A text that holds a report may have white space behind it,
which makes no difference, and nothing else. A report is refused when it is cut off anywhere in
front of its last bracket. The same is true of bodies, wherever their bytes are cut: a spoiled body
is refused, and a load to which it is sent gives no contents, so that documents are left as they
were. -/
theorem whole_reports_only (feed : Feed) :
    (∀ (text more : String) (report : feed.Report), feed.parse text = .ok report →
      ∀ report', feed.parse (text ++ more) = .ok report' ↔
        Blank more.toList ∧ report' = report) ∧
    (∀ (text : String) (report : feed.Report), feed.parse text = .ok report →
      ∃ front, ∃ bracket : Bracket, ∃ w, text.toList = front ++ bracket.close :: w ∧ Blank w ∧
        ∀ cut, cut <+: front → ∃ refusal, feed.parse (String.ofList cut) = .error refusal) ∧
    ∀ body, feed.Spoiled body →
      (∃ refusal, feed.parse (bodyText body) = .error refusal) ∧
      ∀ (client : Client) (network : Http.Network) (unit : CoinUnit) (code : Nat)
        (complete : Bool), network.reply (client.request feed) = .sent code body complete →
        (client.load network unit feed).entries = [] ∧
          ∀ {Document : Type} (put : Document → Slot → Content → Document) (document : Document),
            (client.load network unit feed).fill put document = document := by
  refine ⟨?_, ?_, ?_⟩
  · -- what may stand behind a report
    intro text more report h report'
    rw [← String.ofList_toList (s := text)] at h
    have happend : text ++ more = String.ofList (text.toList ++ more.toList) := by
      rw [← String.toList_append, String.ofList_toList]
    rw [happend, parse_append h]
  · -- where a report may be cut off
    intro text report h
    rw [← String.ofList_toList (s := text)] at h
    exact parse_cut h
  · -- what becomes of spoiled bodies
    intro body h
    refine ⟨h.exists_refusal, ?_⟩
    intro client network unit code complete hreply
    have hentries := client.entries_load_of_spoiled unit hreply h
    refine ⟨hentries, ?_⟩
    intro Document put document
    rw [Loaded.fill, hentries]
    rfl

/-- A report is the same with a line feed behind it, and the bytes in front of its bracket are
refused. -/
theorem whole_reports_only_seven :
    let front := "[7,\"ab\",5"
    tip.parse (front ++ "]") = .ok ⟨7, "ab", 5⟩ ∧
      tip.parse (front ++ "]" ++ "\n") = .ok ⟨7, "ab", 5⟩ ∧
      ∃ refusal, tip.parse (bodyText (Text.Utf8.bytes front.toList)) = .error refusal := by
  intro front
  have htext : tip.parse (front ++ "]") = .ok ⟨7, "ab", 5⟩ := by decide +kernel
  have hwhole : tip.Holds (Text.Utf8.bytes front.toList ++ [0x5D]) ⟨7, "ab", 5⟩ := by
    show TipReport.parse _ = _
    decide +kernel
  obtain ⟨happend, -, hspoiled⟩ := whole_reports_only tip
  have hfeed : Blank "\n".toList := by simp [Blank]
  have hcut : tip.Spoiled (Text.Utf8.bytes front.toList) := .cut hwhole (.inr (by decide))
  exact ⟨htext, (happend _ _ _ htext _).2 ⟨hfeed, rfl⟩, (hspoiled _ hcut).1⟩

end Feed

end ChainBoard
