import ChainBoard.Proofs.Explorer.Loader

/-!
# A board never mixes two reports

During a session a board is filled by any number of loads, of which any may fail. The slots of a
feed are nevertheless always filled from one report: the one that the most recent successful load of
the feed has brought. Until there is one, they are blank. The invariant is proved from the end of
the run: a load that brings a report makes it the last one, and any other load changes nothing.

## Main definitions

* `Client.Brings`: the report that a load brings onto the board
* `LastGiven`: what the last element of a list that gives anything gives
* `Board.ShowsTip`, `Board.ShowsCoins`: the slots of a feed show a report

## Main results

* `Session.run_coherent`: after any run, the slots of each feed are blank or show its last report
-/

namespace ChainBoard

section LastGiven

variable {α β : Type} {gives : α → β → Prop} {l : List α} {a : α} {b : β}

/-- `b` is what the last element of `l` that gives anything gives. -/
def LastGiven (gives : α → β → Prop) (l : List α) (b : β) : Prop :=
  ∃ before a after, l = before ++ a :: after ∧ gives a b ∧ ∀ c ∈ after, ∀ b', ¬ gives c b'

/-- A list that ends with a giver has its gift last. -/
theorem LastGiven.concat (h : gives a b) : LastGiven gives (l ++ [a]) b :=
  ⟨l, a, [], rfl, h, by simp⟩

/-- An element that gives nothing does not change what was given last. -/
theorem LastGiven.concat_of_not (h : LastGiven gives l b) (ha : ∀ b', ¬ gives a b') :
    LastGiven gives (l ++ [a]) b := by
  obtain ⟨before, c, after, rfl, hc, hafter⟩ := h
  refine ⟨before, c, after ++ [a], by simp, hc, ?_⟩
  intro d hd
  rcases List.mem_append.1 hd with hd | hd
  · exact hafter d hd
  · rw [List.mem_singleton.1 hd]
    exact ha

end LastGiven

/-- A load that reads a feed gets a text that holds the report. -/
def Client.Brings (client : Client) (feed : Feed) (load : Http.Network × Load)
    (report : feed.Report) : Prop :=
  load.2.reads feed = true ∧ client.GetsReport load.1 feed report

namespace Board

/-- The slots of a feed are blank. -/
def IsBlank (board : Board) (feed : Feed) : Prop :=
  ∀ slot ∈ feed.slots, board.get slot = none

/-- The slots of a feed hold the contents of one report. -/
def Shows (board : Board) (linkBase : String) (unit : CoinUnit) (feed : Feed)
    (report : feed.Report) : Prop :=
  ∀ entry ∈ feed.entries unit report, board.get entry.1 = some (entry.2.linkedTo linkBase)

/-- The slots of the tip show one report, with the base of links in front of both targets. -/
structure ShowsTip (board : Board) (linkBase : String) (report : TipReport) : Prop where
  height : board.get .height =
    some (.link (String.ofList (Decimal.grouped report.height))
      (linkBase ++ ("block.html?height=" ++ toString report.height)))
  blockId : board.get .blockId =
    some (.link report.blockId (linkBase ++ ("hash.html?hash=" ++ report.blockId)))
  difficulty : board.get .difficulty = some (.text (Difficulty.readable report.difficulty))

/-- The slots of the coins show one report. -/
structure ShowsCoins (board : Board) (unit : CoinUnit) (report : CoinReport) : Prop where
  time : board.get .time = some (.text (Time.Instant.readable report.time))
  spendable : board.get .spendable = some (.text (unit.readable report.spendable))
  locked : board.get .locked = some (.text (unit.readable report.locked))
  feeDebt : board.get .feeDebt = some (.text (unit.readable report.feeDebt))
  spent : board.get .spent = some (.text (unit.readable report.spent))
  feeCollected : board.get .feeCollected = some (.text (unit.readable report.feeCollected))

variable {board board' : Board} {linkBase : String} {unit : CoinUnit} {feed : Feed}

theorem Shows.showsTip {report : TipReport} (h : board.Shows linkBase unit .tip report) :
    board.ShowsTip linkBase report where
  height := h (.height, Link.toBlock report.height) (by simp [Feed.entries, TipReport.entries])
  blockId := h (.blockId, Link.toHash report.blockId) (by simp [Feed.entries, TipReport.entries])
  difficulty := h (.difficulty, .text (Difficulty.readable report.difficulty))
    (by simp [Feed.entries, TipReport.entries])

theorem Shows.showsCoins {report : CoinReport} (h : board.Shows linkBase unit .coins report) :
    board.ShowsCoins unit report := by
  have hs (slot : Slot) (text : String) (hm : (slot, .text text) ∈ report.entries unit) :
      board.get slot = some (.text text) := h (slot, .text text) hm
  constructor
  all_goals exact hs _ _ (by simp [CoinReport.entries])

/-- A report is shown once its entries are in. -/
theorem shows_putAll (board : Board) (unit : CoinUnit) (feed : Feed) (report : feed.Report) :
    (board.putAll (feed.entries unit report)).Shows board.linkBase unit feed report := by
  have hn : ((feed.entries unit report).map (·.1)).Nodup := by
    rw [feed.map_fst_entries]
    exact feed.nodup_slots
  intro entry hentry
  exact get_putAll_of_mem board hn hentry

/-- What is shown depends on the slots of the feed alone. -/
theorem Shows.congr {report : feed.Report} (h : board.AgreesOn feed board')
    (hs : board'.Shows linkBase unit feed report) : board.Shows linkBase unit feed report := by
  intro entry hentry
  have hslot : entry.1 ∈ feed.slots := by
    rw [← feed.map_fst_entries unit report]
    exact List.mem_map_of_mem hentry
  exact (h entry.1 hslot).trans (hs entry hentry)

end Board

namespace Session

variable (client : Client) (unit : CoinUnit) (linkBase : String)

/-- The step lemma: a load brings a report, which is then shown, or it brings none and leaves the
slots of the feed alone. -/
theorem step_cases (session : Session) (load : Http.Network × Load) (feed : Feed) :
    (∃ report, session.client.Brings feed load report ∧
        (session.step load.1 load.2).1.board.Shows session.board.linkBase session.unit feed
          report) ∨
      (∀ report, ¬ session.client.Brings feed load report) ∧
      (session.step load.1 load.2).1.board.AgreesOn feed session.board := by
  have hstep := agreesOn_step session load.1 load.2 feed
  unfold entriesFor at hstep
  by_cases hr : load.2.reads feed = true
  · -- the load reads the feed: it gives the entries of one report, or none
    rw [if_pos hr] at hstep
    rcases session.client.load_cases load.1 session.unit feed with ⟨report, hg, he⟩ | ⟨hn, he⟩
    · rw [he] at hstep
      exact .inl ⟨report, ⟨hr, hg⟩, (Board.shows_putAll session.board _ _ report).congr hstep⟩
    · rw [he, Board.putAll_nil] at hstep
      exact .inr ⟨fun report h => hn report h.2, hstep⟩
  · -- the load does not read the feed
    rw [if_neg hr, Board.putAll_nil] at hstep
    exact .inr ⟨fun report h => hr h.1, hstep⟩

/-- The step lemma inside a run. -/
theorem run_concat_cases (loads : List (Http.Network × Load)) (load : Http.Network × Load)
    (feed : Feed) :
    (∃ report, client.Brings feed load report ∧
        ((start client unit linkBase).run (loads ++ [load])).board.Shows linkBase unit feed
          report) ∨
      (∀ report, ¬ client.Brings feed load report) ∧
      ((start client unit linkBase).run (loads ++ [load])).board.AgreesOn feed
        ((start client unit linkBase).run loads).board := by
  obtain ⟨hclient, hunit, hbase⟩ := run_frame (start client unit linkBase) loads
  have h := step_cases ((start client unit linkBase).run loads) load feed
  rw [hclient, hunit, hbase] at h
  rw [run_concat]
  exact h

/-- The run lemma: the slots of a feed are blank and no load has brought a report, or they show the
report that was brought last. -/
theorem blank_or_shows_run (loads : List (Http.Network × Load)) (feed : Feed) :
    (((start client unit linkBase).run loads).board.IsBlank feed ∧
        ∀ load ∈ loads, ∀ report, ¬ client.Brings feed load report) ∨
      ∃ report, LastGiven (client.Brings feed) loads report ∧
        ((start client unit linkBase).run loads).board.Shows linkBase unit feed report := by
  -- Induction on the run from its end: only the newest load can change which report was last.
  induction loads using List.reverseRecOn with
  | nil => exact .inl ⟨fun slot _ => rfl, by simp⟩
  | append_singleton loads load ih =>
    rcases run_concat_cases client unit linkBase loads load feed with ⟨report, hb, hs⟩ | ⟨hn, ha⟩
    · -- the newest load brings a report, whatever was there before
      exact .inr ⟨report, .concat hb, hs⟩
    · -- it brings none: blank slots stay blank, and a report stays the last one
      rcases ih with ⟨hblank, hnone⟩ | ⟨report, hlast, hs⟩
      · refine .inl ⟨fun slot hslot => (ha slot hslot).trans (hblank slot hslot), ?_⟩
        intro load' hload'
        rcases List.mem_append.1 hload' with h | h
        · exact hnone load' h
        · rw [List.mem_singleton.1 h]
          exact hn
      · exact .inr ⟨report, hlast.concat_of_not hn, hs.congr ha⟩

/-- **A session is coherent.** After any run on any networks, the slots of the tip are blank, no
load having brought a report on the tip, or they show the one report that was brought last; the same
holds of the slots of the coins; and a further load that brings no report of a feed leaves the slots
of the feed as they are. -/
theorem run_coherent (address userAgent linkBase : String) (unit : CoinUnit)
    (loads : List (Http.Network × Load)) :
    let client := Client.ofAddress address userAgent
    let board := fun loads => ((start client unit linkBase).run loads).board
    (((board loads).IsBlank .tip ∧ ∀ load ∈ loads, ∀ report, ¬ client.Brings .tip load report) ∨
        ∃ report, LastGiven (client.Brings .tip) loads report ∧
          (board loads).ShowsTip linkBase report) ∧
      (((board loads).IsBlank .coins ∧
          ∀ load ∈ loads, ∀ report, ¬ client.Brings .coins load report) ∨
        ∃ report, LastGiven (client.Brings .coins) loads report ∧
          (board loads).ShowsCoins unit report) ∧
      ∀ (load : Http.Network × Load) (feed : Feed),
        (∃ report, client.Brings feed load report) ∨
          (board (loads ++ [load])).AgreesOn feed (board loads) := by
  intro client board
  refine ⟨?_, ?_, ?_⟩
  · rcases blank_or_shows_run client unit linkBase loads .tip with h | ⟨report, hlast, hs⟩
    · exact .inl h
    · exact .inr ⟨report, hlast, hs.showsTip⟩
  · rcases blank_or_shows_run client unit linkBase loads .coins with h | ⟨report, hlast, hs⟩
    · exact .inl h
    · exact .inr ⟨report, hlast, hs.showsCoins⟩
  · intro load feed
    rcases run_concat_cases client unit linkBase loads load feed with ⟨report, hb, -⟩ | ⟨-, ha⟩
    · exact .inl ⟨report, hb⟩
    · exact .inr ha

end Session

end ChainBoard
