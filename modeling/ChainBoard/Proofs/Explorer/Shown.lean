import ChainBoard.Proofs.Board.Lines
import ChainBoard.Proofs.Explorer.Records
import ChainBoard.Proofs.Explorer.Wire
import ChainBoard.Proofs.Figure.Difficulty
import ChainBoard.Proofs.Time.Instant

/-!
# What an explorer can do to the lines of a board

Every figure of a report is shown on one line, and the names that people give to coins and the bases
of links are no matter of the explorer. Only the block identifier is shown as the explorer has sent
it. A line feed in it is shown twice, in the text of the link and in its target, and each adds a line
to the board, which may look like the line of another slot.

## Main results

* `Difficulty.newline_notMem_readable`, `Time.Instant.newline_notMem_readable`,
  `CoinUnit.newline_notMem_readable`: figures are shown on one line
* `Board.newline_notMem_shown`: so is every slot but that of the block identifier
* `Board.count_shown_blockId`: the line feeds that a block identifier adds
* `Board.lines_after_loadBoard`: a board has one line for each slot if and only if the block
  identifier has no line feed
-/

namespace ChainBoard

open Json (Padded)

/-! ## Figures are shown on one line -/

@[simp] theorem Decimal.newline_notMem_toDigits (n : Nat) : '\n' ∉ Nat.toDigits 10 n :=
  notMem_toDigits n rfl

@[simp] theorem Decimal.newline_notMem_grouped (n : Nat) : '\n' ∉ grouped n :=
  notMem_grouped n rfl (by decide)

theorem Difficulty.newline_notMem_readable (n : Nat) : '\n' ∉ (readable n).toList := by
  rw [readable, String.toList_ofList]
  by_cases h : n < 1000
  · rw [if_pos h]
    exact Decimal.newline_notMem_toDigits n
  · rw [if_neg h]
    have hsymbol : (Scale.first.climb n).symbol ∈ Scale.symbols :=
      List.mem_of_getElem? (Scale.inv_climb n).symbols_getElem?
    have hne := ne_of_mem_of_not_mem hsymbol (by decide : '\n' ∉ Scale.symbols)
    simp [atScale, hne.symm]

theorem Time.Instant.newline_notMem_readable (seconds : Nat) :
    '\n' ∉ (readable seconds).toList := by
  unfold readable
  split
  · simpa using notMem_stamp _ _ rfl (by decide)
  · simp

theorem CoinUnit.newline_notMem_readable {unit : CoinUnit} (h : '\n' ∉ unit.name.toList)
    (amount : Nat) : '\n' ∉ (unit.readable amount).toList := by
  have hplaces : '\n' ∉ unit.places amount := by
    intro h
    have hall := Text.mem_of_mem_trimEnd h
    simp at hall
  have hfraction : '\n' ∉ unit.fraction amount := by
    unfold fraction
    split <;> simp [hplaces]
  have hsuffix : '\n' ∉ unit.suffix.toList := by
    unfold suffix
    split <;> simp [h]
  simp [readable, hfraction, hsuffix]

/-- A content that a report gives is shown on one line, unless it is for the block identifier. -/
theorem Feed.newline_notMem_render {unit : CoinUnit} {linkBase : String}
    (hname : '\n' ∉ unit.name.toList) (hbase : '\n' ∉ linkBase.toList) (feed : Feed)
    (report : feed.Report) {slot : Slot} {content : Content}
    (hmem : (slot, content) ∈ feed.entries unit report) (hslot : slot ≠ .blockId) :
    '\n' ∉ (content.linkedTo linkBase).render.toList := by
  have hcoins (amount : Nat) := CoinUnit.newline_notMem_readable hname amount
  cases feed with
  | tip =>
    simp only [entries, TipReport.entries, List.mem_cons, Prod.mk.injEq, List.not_mem_nil,
      or_false] at hmem
    rcases hmem with ⟨-, rfl⟩ | ⟨rfl, -⟩ | ⟨-, rfl⟩
    · simp [Link.toBlock, Content.linkedTo, Content.render, hbase]
    · exact absurd rfl hslot
    · exact Difficulty.newline_notMem_readable _
  | coins =>
    simp only [entries, CoinReport.entries, List.mem_cons, Prod.mk.injEq, List.not_mem_nil,
      or_false] at hmem
    rcases hmem with ⟨-, rfl⟩ | ⟨-, rfl⟩ | ⟨-, rfl⟩ | ⟨-, rfl⟩ | ⟨-, rfl⟩ | ⟨-, rfl⟩
    · exact Time.Instant.newline_notMem_readable _
    all_goals exact hcoins _

namespace Board

variable {client : Client} {network : Http.Network} {unit : CoinUnit} {linkBase : String}

/-- The slots of a feed whose report the client gets show the contents of that report; the others
show a dash. -/
theorem shown_after_loadBoard (client : Client) (network : Http.Network) (unit : CoinUnit)
    (linkBase : String) (slot : Slot) :
    (∃ report content, client.GetsReport network (Feed.ofSlot slot) report ∧
        (slot, content) ∈ (Feed.ofSlot slot).entries unit report ∧
        ((blank linkBase).after (client.loadBoard network unit)).shown slot =
          (content.linkedTo linkBase).render.toList) ∨
      ((blank linkBase).after (client.loadBoard network unit)).shown slot = ['-'] := by
  have hslot : slot ∈ (Feed.ofSlot slot).slots := ((Feed.ofSlot slot).mem_slots_iff slot).2 rfl
  rcases client.load_cases network unit (Feed.ofSlot slot) with ⟨report, hreport, -⟩ | ⟨-, hnil⟩
  · left
    rw [← Feed.map_fst_entries unit (Feed.ofSlot slot) report] at hslot
    obtain ⟨⟨_, content⟩, hmem, rfl⟩ := List.mem_map.1 hslot
    have hget := shows_after_loadBoard (blank linkBase) unit hreport _ hmem
    exact ⟨report, content, hreport, hmem, by rw [shown, hget]; rfl⟩
  · right
    have hget := agreesOn_after (blank linkBase) client network unit (Feed.ofSlot slot) slot hslot
    rw [after, after, hnil] at hget
    rw [shown, after, hget]
    simp [blank]

/-- All slots but that of the block identifier are shown on one line, whatever the explorer sends.
-/
theorem newline_notMem_shown (hname : '\n' ∉ unit.name.toList) (hbase : '\n' ∉ linkBase.toList)
    {slot : Slot} (hslot : slot ≠ .blockId) :
    '\n' ∉ ((blank linkBase).after (client.loadBoard network unit)).shown slot := by
  rcases shown_after_loadBoard client network unit linkBase slot with
    ⟨report, content, -, hmem, hshown⟩ | hshown
  · rw [hshown]
    exact Feed.newline_notMem_render hname hbase _ report hmem hslot
  · rw [hshown]
    decide

/-- A line feed in the block identifier is shown twice, in the text of the link and in its target.
-/
theorem count_shown_blockId (unit : CoinUnit) (hbase : '\n' ∉ linkBase.toList) {report : TipReport}
    (h : client.GetsReport network .tip report) :
    (((blank linkBase).after (client.loadBoard network unit)).shown .blockId).count '\n' =
      2 * report.blockId.toList.count '\n' := by
  have hget := (shows_after_loadBoard (blank linkBase) unit h).showsTip.blockId
  have hcount : linkBase.toList.count '\n' = 0 := List.count_eq_zero.2 hbase
  rw [shown, hget]
  simp only [Option.map_some, Option.getD_some, Content.render, String.toList_append,
    List.count_append]
  change _ + 0 + (linkBase.toList.count '\n' + (0 + _)) + 0 = _
  omega

/-- **An explorer adds lines to a board by line feeds in the block identifier, and in no other way.**
Names of coins and bases of links that have no line feed themselves being given, every other slot is
shown on one line whatever the replies; each line feed in the block identifier makes two more lines;
and the board has one line for each slot, each beginning with the name of its slot, if and only if
the block identifier that was read, if any, has no line feed. -/
theorem lines_after_loadBoard (client : Client) (network : Http.Network)
    (hname : '\n' ∉ unit.name.toList) (hbase : '\n' ∉ linkBase.toList) :
    let board := (blank linkBase).after (client.loadBoard network unit)
    (∀ slot, slot ≠ .blockId → '\n' ∉ board.shown slot) ∧
      (∀ report : TipReport, client.GetsReport network .tip report →
        board.render.toList.count '\n' = 9 + 2 * report.blockId.toList.count '\n') ∧
      (board.HasOneLineEach ↔ ∀ report : TipReport, client.GetsReport network .tip report →
        '\n' ∉ report.blockId.toList) := by
  intro board
  have hothers (slot : Slot) (hslot : slot ≠ .blockId) : '\n' ∉ board.shown slot :=
    newline_notMem_shown hname hbase hslot
  refine ⟨hothers, ?_, ?_⟩
  · intro report hreport
    have hzero (slot : Slot) (hslot : slot ≠ .blockId) : (board.shown slot).count '\n' = 0 :=
      List.count_eq_zero.2 (hothers slot hslot)
    rw [count_render, ← count_shown_blockId unit hbase hreport]
    simp [Slot.all, hzero, board]
  · rw [hasOneLineEach_iff]
    constructor
    · intro h report hreport
      have hcount := count_shown_blockId unit hbase hreport
      rw [List.count_eq_zero.2 (h .blockId)] at hcount
      exact List.count_eq_zero.1 (by omega)
    · intro h slot
      by_cases hslot : slot = .blockId
      · subst hslot
        rcases shown_after_loadBoard client network unit linkBase .blockId with
          ⟨report, -, hreport, -, -⟩ | hshown
        · have hcount := count_shown_blockId unit hbase hreport
          rw [List.count_eq_zero.2 (h report hreport)] at hcount
          exact List.count_eq_zero.1 hcount
        · rw [hshown]
          decide
      · exact hothers slot hslot

/-- The theorem at an answer whose block identifier has no line feed. -/
theorem lines_of_plain_block_id :
    let client : Client := ⟨"http://e", "a"⟩
    let text := "[7,\"9f2c\",\"1500\"]"
    let network : Http.Network :=
      ⟨fun _ => true, fun _ => .sent 200 (Text.Utf8.bytes text.toList) true, fun _ => ""⟩
    let board := (blank "b/").after (client.loadBoard network {})
    '\n' ∉ ("AUR" : String).toList ∧ '\n' ∉ ("b/" : String).toList ∧
      (∀ slot, slot ≠ .blockId → '\n' ∉ board.shown slot) ∧
      client.GetsReport network .tip ⟨7, "9f2c", 1500⟩ ∧ board.HasOneLineEach := by
  intro client text network board
  have hname : '\n' ∉ ("AUR" : String).toList := by decide +kernel
  have hbase : '\n' ∉ ("b/" : String).toList := by decide +kernel
  have htext : Padded (TipReport.IsWritten ⟨7, "9f2c", 1500⟩) text.toList :=
    TipReport.parse_eq_ok_iff.1 (by decide +kernel)
  have hgets : client.GetsReport network .tip ⟨7, "9f2c", 1500⟩ :=
    Client.IsAnswered.getsTip ⟨by decide +kernel, rfl⟩ htext
  have h : _ ∧ _ ∧ (board.HasOneLineEach ↔ _) := lines_after_loadBoard client network hname hbase
  obtain ⟨hothers, -, hlines⟩ := h
  refine ⟨hname, hbase, hothers, hgets, hlines.2 ?_⟩
  intro report hreport
  rw [hreport.unique hgets]
  decide +kernel

/-- A block identifier with a line feed adds two lines, of which the first is made to look like the
line of the time. -/
theorem block_id_forges_line :
    let client : Client := ⟨"http://e", "a"⟩
    let text := "\x7b\"height\":1,\"blockid\":\"a\\ntime                 never\",\"difficulty\":0\x7d"
    let network : Http.Network := ⟨fun _ => true, fun request =>
      if request.path = "explorer" then .sent 200 (Text.Utf8.bytes text.toList) true else .closed,
      fun _ => "no reply"⟩
    let board := (blank "").after (client.loadBoard network {})
    ¬ board.HasOneLineEach ∧
      board.render.toList.count '\n' = 11 ∧
      Slot.time.head ++ "never <hash.html?hash=a".toList ∈ board.render.toList.splitOn '\n' := by
  intro client text network board
  let report : TipReport := ⟨1, "a\ntime                 never", 0⟩
  have htext : Padded report.IsWritten text.toList :=
    TipReport.parse_eq_ok_iff.1 (by decide +kernel)
  have hsend : client.canSend network = true := by decide +kernel
  have htip : (client.load network {} .tip).entries = report.entries :=
    (Client.load_of_getsReport (Client.IsAnswered.getsTip ⟨hsend, rfl⟩ htext)).1
  have hcoins : (client.load network {} .coins).entries = [] :=
    (Client.load_of_fetch_error (by rw [Client.fetch_of_canSend hsend]; rfl)).1
  have hboard : board = (blank "").putAll report.entries := by
    rw [show board = _ from after_loadBoard _ client network {}, after, after, htip, hcoins,
      putAll_nil]
  rw [hboard, toList_render]
  refine ⟨?_, by decide +kernel, by decide +kernel⟩
  intro h
  exact hasOneLineEach_iff.1 h .blockId (by decide +kernel)

end Board

end ChainBoard
