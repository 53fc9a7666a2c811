import ChainBoard.Proofs.Explorer.Coherence
import ChainBoard.Proofs.Figure.Coins
import ChainBoard.Proofs.Report.Format
import ChainBoard.Proofs.Text.Utf8

/-!
# Nothing is lost between the wire and the board

Two reports are written in any of the ways that their formats allow, sent as bytes, and loaded onto
a board. The board then shows the figures of these two reports, each in its slot and with all its
digits, whatever the board showed before.

## Main definitions

* `Client.IsAnswered`: the answer to the request for a feed is a text
* `Board.Carries`: what a board shows can be read back as two reports

## Main results

* `bodyText_bytes`: the text of a body is the text that was sent
* `Board.after_loadBoard_carries`: the reports that were sent are on the board
-/

namespace ChainBoard

open Json (Padded)

/-! ## What is sent is received -/

theorem Text.Utf8.dropMark_of_head?_ne {s : List Char} (h : s.head? ≠ some '\uFEFF') :
    dropMark s = s := by
  unfold dropMark
  split
  · exact absurd rfl h
  · rfl

/-- The text of a body is the text that was sent, unless it starts with a mark of its byte order. -/
theorem bodyText_bytes {text : List Char} (h : text.head? ≠ some '\uFEFF') :
    bodyText (Text.Utf8.bytes text) = String.ofList text := by
  rw [bodyText, Text.Utf8.decode_bytes, Text.Utf8.dropMark_of_head?_ne h]

/-- Nothing that is written in brackets starts with the mark of a byte order, even behind white
space. -/
theorem Json.Padded.head_ne_mark {written : List Char → Prop} {text : List Char}
    (h : Padded written text)
    (hb : ∀ t, written t → ∃ s, t = '{' :: s ∨ t = '[' :: s) : text.head? ≠ some '\uFEFF' := by
  obtain ⟨w, t, w', rfl, hw, -, ht⟩ := h
  cases w with
  | nil =>
    -- the bracket is the first character
    obtain ⟨s, rfl | rfl⟩ := hb t ht
    · simp
    · simp
  | cons c w =>
    -- white space is
    rintro ⟨⟩
    have := hw '\uFEFF' List.mem_cons_self
    simp at this

theorem TipReport.IsWritten.opens {report : TipReport} {t : List Char} (h : report.IsWritten t) :
    ∃ s, t = '{' :: s ∨ t = '[' :: s := by
  rcases h with ⟨_, _, rfl, -⟩ | ⟨_, _, rfl, -⟩
  · exact ⟨_, .inl rfl⟩
  · exact ⟨_, .inr rfl⟩

theorem CoinReport.IsWritten.opens {report : CoinReport} {t : List Char} (h : report.IsWritten t) :
    ∃ s, t = '{' :: s ∨ t = '[' :: s := by
  rcases h with ⟨_, _, rfl, -⟩ | ⟨_, _, rfl, -⟩
  · exact ⟨_, .inl rfl⟩
  · exact ⟨_, .inr rfl⟩

namespace Client

variable {client : Client} {network : Http.Network}

/-- The request for a feed can be sent, and the answer to it is a whole text with status code 200.
-/
def IsAnswered (client : Client) (network : Http.Network) (feed : Feed) (text : List Char) : Prop :=
  client.canSend network = true ∧
    network.reply (client.request feed) =
      .sent Http.StatusCode.ok (Text.Utf8.bytes text) true

/-- A client gets the text that answers it. -/
theorem IsAnswered.gets {feed : Feed} {text : List Char} (h : client.IsAnswered network feed text)
    (hm : text.head? ≠ some '\uFEFF') : client.Gets network feed (String.ofList text) :=
  ⟨h.1, _, h.2, bodyText_bytes hm⟩

/-- A client gets the report on the tip that is written in its answer. -/
theorem IsAnswered.getsTip {text : List Char} {report : TipReport}
    (h : client.IsAnswered network .tip text) (ht : Padded report.IsWritten text) :
    client.GetsReport network .tip report := by
  refine ⟨_, h.gets (ht.head_ne_mark fun _ => TipReport.IsWritten.opens), ?_⟩
  refine TipReport.parse_eq_ok_iff.2 ?_
  rwa [String.toList_ofList]

/-- A client gets the report on the coins that is written in its answer. -/
theorem IsAnswered.getsCoins {text : List Char} {report : CoinReport}
    (h : client.IsAnswered network .coins text) (ht : Padded report.IsWritten text) :
    client.GetsReport network .coins report := by
  refine ⟨_, h.gets (ht.head_ne_mark fun _ => CoinReport.IsWritten.opens), ?_⟩
  refine CoinReport.parse_eq_ok_iff.2 ?_
  rwa [String.toList_ofList]

end Client

/-! ## What is received is shown -/

namespace Board

/-- A slot shows an amount: read back at the precision of the unit, its text is that amount. -/
def ShowsAmount (board : Board) (unit : CoinUnit) (slot : Slot) (amount : Nat) : Prop :=
  ∃ text, board.get slot = some (.text text) ∧ unit.amount? text = some amount

/-- The board shows the figures of two reports. The height is what is left of its text without the
commas, and what stands behind the page in its target. -/
structure Carries (board : Board) (linkBase : String) (unit : CoinUnit) (tip : TipReport)
    (coins : CoinReport) : Prop where
  height : ∃ text target, board.get .height = some (.link text target) ∧
    String.ofList (text.toList.filter (· ≠ ',')) = toString tip.height ∧
    target = linkBase ++ "block.html?height=" ++ toString tip.height
  blockId : board.get .blockId =
    some (.link tip.blockId (linkBase ++ "hash.html?hash=" ++ tip.blockId))
  difficulty : board.get .difficulty = some (.text (Difficulty.readable tip.difficulty))
  time : board.get .time = some (.text (Time.Instant.readable coins.time))
  spendable : board.ShowsAmount unit .spendable coins.spendable
  locked : board.ShowsAmount unit .locked coins.locked
  feeDebt : board.ShowsAmount unit .feeDebt coins.feeDebt
  spent : board.ShowsAmount unit .spent coins.spent
  feeCollected : board.ShowsAmount unit .feeCollected coins.feeCollected

variable {board : Board} {linkBase : String} {unit : CoinUnit} {tip : TipReport}
  {coins : CoinReport}

theorem filter_toList_grouped (n : Nat) :
    String.ofList ((String.ofList (Decimal.grouped n)).toList.filter (· ≠ ',')) = toString n := by
  rw [String.toList_ofList, Decimal.filter_grouped, Nat.toString_eq_ofList_toDigits]

/-- A board that shows two reports carries their figures. -/
theorem carries_of_shows (ht : board.ShowsTip linkBase tip) (hc : board.ShowsCoins unit coins) :
    board.Carries linkBase unit tip coins where
  height := by
    refine ⟨_, _, ht.height, filter_toList_grouped tip.height, ?_⟩
    rw [String.append_assoc]
  blockId := by
    rw [ht.blockId, String.append_assoc]
  difficulty := ht.difficulty
  time := hc.time
  spendable := ⟨_, hc.spendable, unit.amount?_readable coins.spendable⟩
  locked := ⟨_, hc.locked, unit.amount?_readable coins.locked⟩
  feeDebt := ⟨_, hc.feeDebt, unit.amount?_readable coins.feeDebt⟩
  spent := ⟨_, hc.spent, unit.amount?_readable coins.spent⟩
  feeCollected := ⟨_, hc.feeCollected, unit.amount?_readable coins.feeCollected⟩

/-- A load of both feeds shows the report of each feed that it gets. -/
theorem shows_after_loadBoard (board : Board) {client : Client} {network : Http.Network}
    (unit : CoinUnit) {feed : Feed} {report : feed.Report}
    (h : client.GetsReport network feed report) :
    (board.after (client.loadBoard network unit)).Shows board.linkBase unit feed report := by
  have hafter := board.agreesOn_after client network unit feed
  have hentries : board.after (client.load network unit feed) =
      board.putAll (feed.entries unit report) := by
    rw [after, (Client.load_of_getsReport h).1]
  rw [hentries] at hafter
  exact (shows_putAll board unit feed report).congr hafter

/-- **Nothing is lost or swapped between the wire and the board.** However two reports are written,
once both feeds are answered with them the board carries their figures: any board, any base of
links, any precision and any name of coins. -/
theorem after_loadBoard_carries (board : Board) {client : Client} {network : Http.Network}
    (unit : CoinUnit) {tip : TipReport} {coins : CoinReport} {tipText coinText : List Char}
    (htip : client.IsAnswered network .tip tipText)
    (hcoins : client.IsAnswered network .coins coinText)
    (htipText : Padded tip.IsWritten tipText) (hcoinText : Padded coins.IsWritten coinText) :
    (board.after (client.loadBoard network unit)).Carries board.linkBase unit tip coins := by
  have ht := shows_after_loadBoard board unit (htip.getsTip htipText)
  have hc := shows_after_loadBoard board unit (hcoins.getsCoins hcoinText)
  exact carries_of_shows ht.showsTip hc.showsCoins

/-- The theorem at two answers with members in no order, unknown and escaped ones among them, for
coins with three places and the name "1.5", on a board that has shown other figures. -/
theorem carries_out_of_order :
    let client : Client := ⟨"http://e", "a"⟩
    let tipText := " \x7b\"difficulty\":\"+1_234\",\"x\":[\x7b\x7d,-1e999]," ++
      "\"h\\u0065ight\":1234,\n\"blockid\":\"é\\u0000\"\x7d"
    let coinText := "[null,60,\"1234500\",7,\"0\", 1000 ,18446744073709551615]\n"
    let network : Http.Network := ⟨fun _ => true, fun request =>
      .sent 200 (Text.Utf8.bytes (if request.path = "explorer" then tipText else coinText).toList)
        true, fun _ => ""⟩
    let tip : TipReport := ⟨1234, "é\x00", 1234⟩
    let coins : CoinReport := ⟨none, 60, 1234500, 7, 0, 1000, 18446744073709551615⟩
    let unit : CoinUnit := ⟨3, "1.5"⟩
    let board := (blank "b/").put .height (Link.toBlock 5)
    client.IsAnswered network .tip tipText.toList ∧
      client.IsAnswered network .coins coinText.toList ∧
      Padded tip.IsWritten tipText.toList ∧ Padded coins.IsWritten coinText.toList ∧
      (board.after (client.loadBoard network unit)).Carries "b/" unit tip coins := by
  intro client tipText coinText network tip coins unit board
  have hsend : client.canSend network = true := by decide +kernel
  have htip : client.IsAnswered network .tip tipText.toList := ⟨hsend, rfl⟩
  have hcoins : client.IsAnswered network .coins coinText.toList := ⟨hsend, rfl⟩
  have htipText : Padded tip.IsWritten tipText.toList :=
    TipReport.parse_eq_ok_iff.1 (by decide +kernel)
  have hcoinText : Padded coins.IsWritten coinText.toList :=
    CoinReport.parse_eq_ok_iff.1 (by decide +kernel)
  exact ⟨htip, hcoins, htipText, hcoinText,
    after_loadBoard_carries board unit htip hcoins htipText hcoinText⟩

end Board

end ChainBoard
