import ChainBoard.Explorer.Session
import ChainBoard.Proofs.Board.Entries

/-!
# What a load brings

A client gets the text of a feed when its request can be sent and the answer is complete and has
status code 200. A load gives the entries of a report when the text that it gets holds one, and no
entries when the answer is of no use, is not complete, or holds no report. Whatever it gives is for
the slots of its feed.

## Main definitions

* `Feed.Report`, `Feed.parse`, `Feed.entries`: the reports of a feed and their contents
* `Client.Gets`, `Client.GetsReport`: the text, or the report, that a client gets from a network
* `Client.IsRefused`, `Client.GetsNothing`, `Client.GetsMalformed`: what it gets instead
* `Load.reads`: whether a load reads a feed

## Main results

* `Client.gets_cases`: a client gets one of these
* `Client.load_cases`: the entries of a load come from a report, or there are none
* `Client.map_fst_load`: a load fills all slots of its feed or none
* `Session.entries_outcome`: a load of a session gives the entries of the feeds that it reads
* `Session.agreesOn_step`: the slots of a feed are filled by that feed alone
-/

namespace ChainBoard

namespace Feed

/-- The reports of a feed. -/
@[reducible] def Report : Feed → Type
  | tip => TipReport
  | coins => CoinReport

/-- The report that a whole text holds. -/
def parse : (feed : Feed) → String → Except Json.Refusal feed.Report
  | tip => TipReport.parse
  | coins => CoinReport.parse

/-- The contents that a report gives. -/
def entries (unit : CoinUnit) : (feed : Feed) → feed.Report → Entries
  | tip, report => TipReport.entries report
  | coins, report => CoinReport.entries unit report

/-- A report in one line. -/
def summary : (feed : Feed) → feed.Report → String
  | tip => TipReport.summary
  | coins => CoinReport.summary

/-- To read a feed is to parse its report and to give its contents. -/
theorem read_eq (unit : CoinUnit) (feed : Feed) (text : String) :
    feed.read unit text =
      (feed.parse text).map fun report => (feed.summary report, feed.entries unit report) := by
  cases feed <;> rfl

/-- A report gives one content for each slot of its feed, in order. -/
theorem map_fst_entries (unit : CoinUnit) (feed : Feed) (report : feed.Report) :
    (feed.entries unit report).map (·.1) = feed.slots := by
  cases feed <;> rfl

theorem nodup_slots (feed : Feed) : feed.slots.Nodup := by
  cases feed <;> decide

end Feed

namespace Client

variable {client : Client} {network : Http.Network} {unit : CoinUnit}

/-- The client gets the text of a feed: its request can be sent, and the answer is complete and has
status code 200. -/
def Gets (client : Client) (network : Http.Network) (feed : Feed) (text : String) : Prop :=
  client.canSend network = true ∧
    ∃ body, network.reply (client.request feed) = .sent Http.StatusCode.ok body true ∧
      bodyText body = text

/-- The client gets a text that holds a report. -/
def GetsReport (client : Client) (network : Http.Network) (feed : Feed) (report : feed.Report) :
    Prop :=
  ∃ text, client.Gets network feed text ∧ feed.parse text = .ok report

/-- The answer to the request for a feed has a status code that makes it of no use. -/
def IsRefused (client : Client) (network : Http.Network) (feed : Feed) (code : Nat) : Prop :=
  client.canSend network = true ∧ code ≠ Http.StatusCode.ok ∧
    ∃ body complete, network.reply (client.request feed) = .sent code body complete

/-- The client gets no complete answer: its request cannot be sent, or there is no answer, or the
answer has status code 200 and is cut off. -/
def GetsNothing (client : Client) (network : Http.Network) (feed : Feed) : Prop :=
  client.canSend network = false ∨
    network.reply (client.request feed) = .closed ∨
    ∃ body, network.reply (client.request feed) = .sent Http.StatusCode.ok body false

/-- The client gets a text that holds no report. -/
def GetsMalformed (client : Client) (network : Http.Network) (feed : Feed)
    (refusal : Json.Refusal) : Prop :=
  ∃ text, client.Gets network feed text ∧ feed.parse text = .error refusal

/-- A client whose request can be sent receives the reply to it. -/
theorem fetch_of_canSend {feed : Feed} (h : client.canSend network = true) :
    client.fetch network feed = receive network (client.request feed) :=
  if_pos h

/-- A client whose request cannot be sent has nothing to read. -/
theorem fetch_of_not_canSend {feed : Feed} (h : client.canSend network = false) :
    client.fetch network feed =
      ⟨[], [], .error (.request (network.complaint (client.request feed)))⟩ :=
  if_neg (by simp [h])

/-- A complete answer is there to be read. -/
theorem fetch_of_gets {feed : Feed} {text : String} (h : client.Gets network feed text) :
    client.fetch network feed = ⟨[client.request feed], [], .ok (some text)⟩ := by
  obtain ⟨hs, body, hr, rfl⟩ := h
  simp [fetch_of_canSend hs, receive, hr]

/-- An answer that is of no use is noted by its code. -/
theorem fetch_of_isRefused {feed : Feed} {code : Nat} (h : client.IsRefused network feed code) :
    client.fetch network feed =
      ⟨[client.request feed], [skipped (client.request feed) code], .ok none⟩ := by
  obtain ⟨hs, hc, body, complete, hr⟩ := h
  simp [fetch_of_canSend hs, receive, hr, hc]

/-- Without a complete answer there is nothing to read, but a complaint. -/
theorem fetch_of_getsNothing {feed : Feed} (h : client.GetsNothing network feed) :
    ∃ requests, client.fetch network feed =
      ⟨requests, [], .error (.request (network.complaint (client.request feed)))⟩ := by
  cases hs : client.canSend network with
  | false => exact ⟨[], fetch_of_not_canSend hs⟩
  | true =>
    rw [fetch_of_canSend hs]
    refine ⟨[client.request feed], ?_⟩
    rcases h with hnot | hclosed | ⟨body, hcut⟩
    · rw [hs] at hnot
      cases hnot
    · simp [receive, hclosed]
    · simp [receive, hcut]

/-- What a client can get: a report, an answer that is of no use, no complete answer, or an answer
that holds no report. -/
theorem gets_cases (client : Client) (network : Http.Network) (feed : Feed) :
    (∃ report, client.GetsReport network feed report) ∨
      (∃ code, client.IsRefused network feed code) ∨
      client.GetsNothing network feed ∨
      ∃ refusal, client.GetsMalformed network feed refusal := by
  cases hs : client.canSend network with
  | false => exact .inr (.inr (.inl (.inl hs)))
  | true =>
    cases hr : network.reply (client.request feed) with
    | closed => exact .inr (.inr (.inl (.inr (.inl hr))))
    | sent code body complete =>
      by_cases hcode : code = Http.StatusCode.ok
      · subst hcode
        cases complete with
        | false => exact .inr (.inr (.inl (.inr (.inr ⟨body, hr⟩))))
        | true =>
          -- a whole answer, with or without a report
          have hgets : client.Gets network feed (bodyText body) := ⟨hs, body, hr, rfl⟩
          cases hparse : feed.parse (bodyText body) with
          | ok report => exact .inl ⟨report, _, hgets, hparse⟩
          | error refusal => exact .inr (.inr (.inr ⟨refusal, _, hgets, hparse⟩))
      · exact .inr (.inl ⟨code, hs, hcode, body, complete, hr⟩)

section Load

variable {feed : Feed} {text summary : String} {entries : Entries}

/-- A load that gets no answer gives no entries and fails. -/
theorem load_of_fetch_error {fault : Fault} (h : (client.fetch network feed).text = .error fault) :
    (client.load network unit feed).entries = [] ∧
      (client.load network unit feed).result = .error fault := by
  unfold load
  simp only [h, and_self]

/-- A load whose answer is of no use gives no entries and does not fail. -/
theorem load_of_fetch_none (h : (client.fetch network feed).text = .ok none) :
    (client.load network unit feed).entries = [] ∧
      (client.load network unit feed).result = .ok () := by
  unfold load
  simp only [h, and_self]

/-- A load whose answer holds no report gives no entries and fails. -/
theorem load_of_read_error {refusal : Json.Refusal}
    (h : (client.fetch network feed).text = .ok (some text))
    (hr : feed.read unit text = .error refusal) :
    (client.load network unit feed).entries = [] ∧
      (client.load network unit feed).result = .error (.malformed refusal) := by
  unfold load
  simp only [h, hr, and_self]

/-- A load whose answer holds a report gives its contents. -/
theorem load_of_read_ok (h : (client.fetch network feed).text = .ok (some text))
    (hr : feed.read unit text = .ok (summary, entries)) :
    (client.load network unit feed).entries = entries ∧
      (client.load network unit feed).result = .ok () := by
  unfold load
  simp only [h, hr, and_self]

end Load

/-- A load of a report notes it and gives its contents. -/
theorem load_eq_of_getsReport {feed : Feed} {report : feed.Report}
    (h : client.GetsReport network feed report) :
    client.load network unit feed = ⟨[client.request feed],
      [⟨.debug, .stats, feed.summary report⟩], feed.entries unit report, .ok ()⟩ := by
  obtain ⟨text, hg, hp⟩ := h
  have hr : feed.read unit text = .ok (feed.summary report, feed.entries unit report) := by
    rw [Feed.read_eq, hp]
    rfl
  simp only [load, fetch_of_gets hg, hr, List.nil_append]

/-- A load gives the contents of the report that the client gets. -/
theorem load_of_getsReport {feed : Feed} {report : feed.Report}
    (h : client.GetsReport network feed report) :
    (client.load network unit feed).entries = feed.entries unit report ∧
      (client.load network unit feed).result = .ok () := by
  rw [load_eq_of_getsReport h]
  exact ⟨rfl, rfl⟩

/-- A load of an answer that is of no use gives nothing and does not fail. -/
theorem load_of_isRefused {feed : Feed} {code : Nat} (h : client.IsRefused network feed code) :
    client.load network unit feed =
      ⟨[client.request feed], [skipped (client.request feed) code], [], .ok ()⟩ := by
  rw [load, fetch_of_isRefused h]

/-- A load without a complete answer fails with the complaint about its request. -/
theorem load_of_getsNothing {feed : Feed} (unit : CoinUnit)
    (h : client.GetsNothing network feed) :
    ∃ requests, client.load network unit feed =
      ⟨requests, [], [], .error (.request (network.complaint (client.request feed)))⟩ := by
  obtain ⟨requests, hf⟩ := fetch_of_getsNothing h
  exact ⟨requests, by rw [load, hf]⟩

/-- A load of an answer that holds no report fails with the refusal of its text. -/
theorem load_of_getsMalformed {feed : Feed} {refusal : Json.Refusal} (unit : CoinUnit)
    (h : client.GetsMalformed network feed refusal) :
    client.load network unit feed =
      ⟨[client.request feed], [], [], .error (.malformed refusal)⟩ := by
  obtain ⟨text, hg, hp⟩ := h
  have hr : feed.read unit text = .error refusal := by
    rw [Feed.read_eq, hp]
    rfl
  simp only [load, fetch_of_gets hg, hr]

/-- A load gives the contents of the report that the client gets; when it gets none, it gives
nothing. -/
theorem load_cases (client : Client) (network : Http.Network) (unit : CoinUnit) (feed : Feed) :
    (∃ report, client.GetsReport network feed report ∧
        (client.load network unit feed).entries = feed.entries unit report) ∨
      (∀ report, ¬ client.GetsReport network feed report) ∧
      (client.load network unit feed).entries = [] := by
  by_cases h : ∃ report, client.GetsReport network feed report
  · obtain ⟨report, hr⟩ := h
    exact .inl ⟨report, hr, (load_of_getsReport hr).1⟩
  · refine .inr ⟨not_exists.1 h, ?_⟩
    rcases client.gets_cases network feed with hreport | ⟨code, hcode⟩ | hnothing |
      ⟨refusal, hmalformed⟩
    · exact absurd hreport h
    · rw [load_of_isRefused hcode]
    · obtain ⟨requests, hload⟩ := load_of_getsNothing unit hnothing
      rw [hload]
    · rw [load_of_getsMalformed unit hmalformed]

/-- A load fills all slots of its feed, each once and in order, or none. -/
theorem map_fst_load (client : Client) (network : Http.Network) (unit : CoinUnit) (feed : Feed) :
    (client.load network unit feed).entries.map (·.1) = feed.slots ∨
      (client.load network unit feed).entries = [] := by
  rcases load_cases client network unit feed with ⟨report, -, he⟩ | ⟨-, he⟩
  · exact .inl (he ▸ feed.map_fst_entries unit report)
  · exact .inr he

/-- A load fills slots of its feed only. -/
theorem ofSlot_eq_of_mem_load {feed : Feed} {slot : Slot}
    (h : slot ∈ (client.load network unit feed).entries.map (·.1)) : Feed.ofSlot slot = feed := by
  rcases map_fst_load client network unit feed with he | he
  · rw [he] at h
    exact (feed.mem_slots_iff slot).1 h
  · simp [he] at h

end Client

/-- Whether a load reads the reports of a feed. -/
def Load.reads : Load → Feed → Bool
  | .feed loaded, wanted => loaded = wanted
  | .board, _ => true
  | .text _, _ => false

namespace Board

/-- Two boards hold the same in the slots of a feed. -/
def AgreesOn (feed : Feed) (board board' : Board) : Prop :=
  ∀ slot ∈ feed.slots, board.get slot = board'.get slot

/-- Later entries for other feeds do not matter for the slots of a feed. -/
theorem agreesOn_putAll_append_left {feed : Feed} (board : Board) (entries : Entries)
    {after : Entries} (h : ∀ slot ∈ after.map (·.1), Feed.ofSlot slot ≠ feed) :
    (board.putAll (entries ++ after)).AgreesOn feed (board.putAll entries) := by
  intro slot hslot
  have hf : Feed.ofSlot slot = feed := (feed.mem_slots_iff slot).1 hslot
  rw [putAll_append, get_putAll_of_notMem _ fun hm => h slot hm hf]

/-- Earlier entries for other feeds do not matter for the slots of a feed. -/
theorem agreesOn_putAll_append_right {feed : Feed} (board : Board) (entries : Entries)
    {before : Entries} (h : ∀ slot ∈ before.map (·.1), Feed.ofSlot slot ≠ feed) :
    (board.putAll (before ++ entries)).AgreesOn feed (board.putAll entries) := by
  intro slot hslot
  have hf : Feed.ofSlot slot = feed := (feed.mem_slots_iff slot).1 hslot
  rw [putAll_append]
  by_cases he : slot ∈ entries.map (·.1)
  · -- a slot that is filled again forgets the earlier entries
    exact get_putAll_congr (linkBase_putAll board before) he
  · rw [get_putAll_of_notMem _ he, get_putAll_of_notMem _ he,
      get_putAll_of_notMem _ fun hm => h slot hm hf]

end Board

namespace Session

/-- The session of a client with a board that is still blank. -/
def start (client : Client) (unit : CoinUnit) (linkBase : String) : Session :=
  ⟨client, unit, Board.blank linkBase⟩

/-- The entries that a load gives for the slots of a feed. -/
def entriesFor (session : Session) (network : Http.Network) (load : Load) (feed : Feed) : Entries :=
  if load.reads feed then (session.client.load network session.unit feed).entries else []

/-- A load gives the entries for the slots of both feeds, those of the tip first. -/
theorem entries_outcome (session : Session) (network : Http.Network) (load : Load) :
    (session.outcome network load).entries =
      session.entriesFor network load .tip ++ session.entriesFor network load .coins := by
  cases load with
  | feed feed => cases feed <;> simp [outcome, entriesFor, Load.reads]
  | board => rfl
  | text feed => rfl

theorem ofSlot_eq_of_mem_entriesFor {session : Session} {network : Http.Network} {load : Load}
    {feed : Feed} {slot : Slot}
    (h : slot ∈ (session.entriesFor network load feed).map (·.1)) : Feed.ofSlot slot = feed := by
  unfold entriesFor at h
  split at h
  · exact Client.ofSlot_eq_of_mem_load h
  · simp at h

/-- The slots of a feed are filled by that feed alone. -/
theorem agreesOn_step (session : Session) (network : Http.Network) (load : Load) (feed : Feed) :
    (session.step network load).1.board.AgreesOn feed
      (session.board.putAll (session.entriesFor network load feed)) := by
  change (session.board.putAll (session.outcome network load).entries).AgreesOn feed _
  rw [entries_outcome]
  -- The entries of the tip come first, so those of the coins are the later ones.
  cases feed with
  | tip =>
    apply Board.agreesOn_putAll_append_left
    intro slot h
    rw [ofSlot_eq_of_mem_entriesFor h]
    decide
  | coins =>
    apply Board.agreesOn_putAll_append_right
    intro slot h
    rw [ofSlot_eq_of_mem_entriesFor h]
    decide

@[simp] theorem run_nil (session : Session) : session.run [] = session := rfl

theorem run_append (session : Session) (first second : List (Http.Network × Load)) :
    session.run (first ++ second) = (session.run first).run second := by
  induction first generalizing session with
  | nil => rfl
  | cons load first ih => exact ih (session.step load.1 load.2).1

/-- One more load at the end of a run is one step of the session that the run has reached. -/
theorem run_concat (session : Session) (loads : List (Http.Network × Load))
    (load : Http.Network × Load) :
    session.run (loads ++ [load]) = ((session.run loads).step load.1 load.2).1 := by
  rw [run_append]
  rfl

/-- A run changes neither the client, nor the unit, nor the base of links. -/
theorem run_frame (session : Session) (loads : List (Http.Network × Load)) :
    (session.run loads).client = session.client ∧ (session.run loads).unit = session.unit ∧
      (session.run loads).board.linkBase = session.board.linkBase := by
  induction loads generalizing session with
  | nil => exact ⟨rfl, rfl, rfl⟩
  | cons load loads ih =>
    obtain ⟨hc, hu, hb⟩ := ih (session.step load.1 load.2).1
    exact ⟨hc, hu, hb.trans (Board.linkBase_putAll _ _)⟩

end Session

/-- Loading one feed after the other, in either order, leaves the same board. -/
theorem Board.after_comm (board : Board) (client : Client) (network : Http.Network)
    (unit : CoinUnit) :
    (board.after (client.load network unit .tip)).after (client.load network unit .coins) =
      (board.after (client.load network unit .coins)).after (client.load network unit .tip) := by
  apply Board.putAll_comm
  intro slot ht hc
  have htip := Client.ofSlot_eq_of_mem_load ht
  rw [Client.ofSlot_eq_of_mem_load hc] at htip
  exact absurd htip (by decide)

/-- Loading a feed depends on what the network does with its own request alone. -/
theorem Client.load_congr {client : Client} {network network' : Http.Network} (unit : CoinUnit)
    {feed : Feed} (hl : network.listens client.address = network'.listens client.address)
    (hr : network.reply (client.request feed) = network'.reply (client.request feed))
    (hc : network.complaint (client.request feed) = network'.complaint (client.request feed)) :
    client.load network unit feed = client.load network' unit feed := by
  have hf : client.fetch network feed = client.fetch network' feed := by
    unfold fetch canSend receive
    rw [hl, hr, hc]
  unfold load
  rw [hf]

/-- Loading both feeds is loading the tip and then the coins. -/
theorem Board.after_loadBoard (board : Board) (client : Client) (network : Http.Network)
    (unit : CoinUnit) :
    board.after (client.loadBoard network unit) =
      (board.after (client.load network unit .tip)).after (client.load network unit .coins) :=
  Board.putAll_append board _ _

/-- Loading both feeds leaves in the slots of one feed what loading that feed alone leaves. -/
theorem Board.agreesOn_after (board : Board) (client : Client) (network : Http.Network)
    (unit : CoinUnit) (feed : Feed) :
    (board.after (client.loadBoard network unit)).AgreesOn feed
      (board.after (client.load network unit feed)) :=
  -- The load is one step of a session with this board.
  Session.agreesOn_step ⟨client, unit, board⟩ network .board feed

end ChainBoard
