import ChainBoard.Proofs.Explorer.Loader
import ChainBoard.Proofs.Text.Utf8

/-!
# The requests of a session

A load sends one request for each feed that it asks for, and nothing that has happened before or
that comes back has a say in it: neither the replies, nor a failure of the other feed, nor what the
board shows. All requests go to the address of the client without the slashes at its end, and all
carry its name as it is. A client is cut off when nothing listens at its address or when its name
holds a byte that no header may hold. It then sends nothing; all its loads fail for their requests,
and its board stays as it is.

## Main definitions

* `Http.IsControlByte`: the bytes that no header may hold
* `Client.IsCutOff`: nothing that the client asks can be sent
* `Load.feeds`, `Feed.resource`: the feeds that a load asks for, and where they are
* `Outcome.Fails`: a load fails for its requests

## Main results

* `Http.isHeaderText_eq_false_iff`: a text that no header may hold has a control byte
* `Session.requests_outcome`: the requests of one load
* `Session.board_run_of_isCutOff`: the board of a client that is cut off
* `Session.requests_of_run`: the requests at each point of a run
-/

namespace ChainBoard

namespace Http

/-- A byte that no header may hold: a control character other than the tab. -/
def IsControlByte (b : UInt8) : Prop :=
  b = 0x7F ∨ b < 0x20 ∧ b ≠ 0x09

theorem IsControlByte.toNat_lt {b : UInt8} (h : IsControlByte b) : b.toNat < 0x80 := by
  rcases h with rfl | ⟨h, -⟩
  · decide
  · exact Nat.lt_trans (UInt8.lt_iff_toNat_lt.1 h) (by decide)

/-- A character that no header may hold is a control byte. -/
theorem isControlByte_iff {c : Char} {b : UInt8} (h : c.toNat = b.toNat) :
    IsControlByte b ↔ ¬ (c = '\t' ∨ 0x20 ≤ c.toNat ∧ c.toNat ≠ 0x7F) := by
  have htab : c = '\t' ↔ c.toNat = 0x09 := by
    constructor
    · rintro rfl
      rfl
    · intro hc
      rw [← Char.ofNat_toNat c, hc]
  rw [htab, h, IsControlByte, UInt8.lt_iff_toNat_lt, ne_eq, ← UInt8.toNat_inj, ← UInt8.toNat_inj]
  change (b.toNat = 127 ∨ b.toNat < 32 ∧ b.toNat ≠ 9) ↔ _
  omega

/-- A text that no header may hold has a control byte. -/
theorem isHeaderText_eq_false_iff {text : String} :
    isHeaderText text = false ↔ ∃ b ∈ Text.Utf8.bytes text.toList, IsControlByte b := by
  rw [isHeaderText, List.all_eq_false]
  constructor
  · rintro ⟨c, hc, hn⟩
    -- the character is below 0x80 and therefore a byte of its own
    have hlt : c.toNat < 0x80 := by
      simp at hn
      omega
    have hb : c.toNat = (UInt8.ofNat c.toNat).toNat := by
      rw [UInt8.toNat_ofNat', Nat.mod_eq_of_lt (by omega)]
    exact ⟨_, (Text.Utf8.mem_bytes_iff (hb ▸ hlt)).2 ⟨c, hc, hb⟩,
      (isControlByte_iff hb).2 (by simpa using hn)⟩
  · rintro ⟨b, hb, hcontrol⟩
    obtain ⟨c, hc, he⟩ := (Text.Utf8.mem_bytes_iff hcontrol.toNat_lt).1 hb
    exact ⟨c, hc, by simpa using (isControlByte_iff he).1 hcontrol⟩

end Http

namespace Client

variable {client : Client} {network : Http.Network} {unit : CoinUnit} {feed : Feed}

/-- Nothing that the client asks can be sent: nothing listens at its address, or its name holds a
byte that no header may hold. -/
def IsCutOff (client : Client) (network : Http.Network) : Prop :=
  network.listens client.address = false ∨
    ∃ b ∈ Text.Utf8.bytes client.userAgent.toList, Http.IsControlByte b

theorem canSend_eq_false_iff : client.canSend network = false ↔ client.IsCutOff network := by
  rw [canSend, Bool.and_eq_false_iff, Http.isHeaderText_eq_false_iff, IsCutOff]

theorem canSend_of_not_isCutOff (h : ¬ client.IsCutOff network) : client.canSend network = true := by
  rwa [← canSend_eq_false_iff, Bool.not_eq_false] at h

/-- What comes back for a request has no say in which request was sent. -/
theorem requests_receive (network : Http.Network) (request : Http.Request) :
    (receive network request).requests = [request] := by
  unfold receive
  cases network.reply request with
  | closed => rfl
  | sent code body complete =>
    by_cases hc : code = Http.StatusCode.ok
    · cases complete <;> simp [hc]
    · simp [hc]

theorem requests_fetch (h : client.canSend network = true) :
    (client.fetch network feed).requests = [client.request feed] := by
  rw [fetch_of_canSend h, requests_receive]

/-- Reading the answer sends nothing more. -/
theorem requests_load : (client.load network unit feed).requests =
    (client.fetch network feed).requests := by
  unfold load
  dsimp only
  split
  · rfl
  · rfl
  · split <;> rfl

theorem load_of_isCutOff (h : client.IsCutOff network) :
    client.load network unit feed =
      ⟨[], [], [], .error (.request (network.complaint (client.request feed)))⟩ := by
  rw [load, fetch_of_not_canSend (canSend_eq_false_iff.2 h)]

end Client

/-- What stands behind the address of an explorer in the address of a feed. -/
def Feed.resource : Feed → String
  | tip => "/explorer"
  | coins => "/explorer/custodyfees/metrics/chain"

/-- The feeds that a load asks for. -/
def Load.feeds : Load → List Feed
  | .feed wanted | .text wanted => [wanted]
  | .board => [.tip, .coins]

theorem Client.url_request (client : Client) (feed : Feed) :
    (client.request feed).url = client.address ++ feed.resource := by
  change client.address ++ "/" ++ feed.path = _
  rw [String.append_assoc]
  cases feed <;> rfl

/-- A load fails for its requests, about each of which there is a complaint: that of one feed with
this fault, that of both with a warning about each. -/
def Outcome.Fails (outcome : Outcome) (complaint : Feed → String) : Load → Prop
  | .feed feed => outcome.answer = .loaded (.error (.request (complaint feed)))
  | .text feed => outcome.answer = .text (.error (.request (complaint feed)))
  | .board => outcome.answer = .done ∧ outcome.log =
      Client.warning .tip (.error (.request (complaint .tip))) ++
        Client.warning .coins (.error (.request (complaint .coins)))

namespace Session

variable {session : Session} {network : Http.Network} {load : Load}

/-- The requests of one load: one for each feed that it asks for. -/
theorem requests_outcome (h : session.client.canSend network = true) :
    (session.outcome network load).requests = load.feeds.map session.client.request := by
  cases load with
  | feed feed => exact Client.requests_load.trans (Client.requests_fetch h)
  | text feed => exact Client.requests_fetch h
  | board =>
    change (session.client.load network session.unit .tip).requests ++
      (session.client.load network session.unit .coins).requests = _
    rw [Client.requests_load, Client.requests_load, Client.requests_fetch h,
      Client.requests_fetch h]
    rfl

/-- A client that is cut off sends nothing, and its load fails and gives nothing. -/
theorem outcome_of_isCutOff (h : session.client.IsCutOff network) :
    (session.outcome network load).requests = [] ∧
      (session.outcome network load).Fails
        (fun feed => network.complaint (session.client.request feed)) load ∧
      (session.outcome network load).entries = [] := by
  have hfetch (feed : Feed) : session.client.fetch network feed =
      ⟨[], [], .error (.request (network.complaint (session.client.request feed)))⟩ :=
    Client.fetch_of_not_canSend (Client.canSend_eq_false_iff.2 h)
  cases load with
  | feed feed => simp [outcome, Outcome.Fails, Client.load_of_isCutOff h]
  | text feed => simp [outcome, Outcome.Fails, hfetch]
  | board => simp [outcome, Outcome.Fails, Client.loadBoard, Client.load_of_isCutOff h]

/-- Nothing at all is sent only by a client that is cut off. -/
theorem requests_eq_nil_iff :
    (session.outcome network load).requests = [] ↔ session.client.IsCutOff network := by
  constructor
  · intro h
    by_contra hc
    rw [requests_outcome (Client.canSend_of_not_isCutOff hc)] at h
    cases load <;> simp [Load.feeds] at h
  · intro h
    exact (outcome_of_isCutOff h).1

/-- A load of a client that is cut off leaves the board as it is. -/
theorem board_step_of_isCutOff (h : session.client.IsCutOff network) :
    (session.step network load).1.board = session.board := by
  change session.board.putAll (session.outcome network load).entries = _
  rw [(outcome_of_isCutOff h).2.2, Board.putAll_nil]

/-- The board of a client that was cut off all the time is the one that it started with. -/
theorem board_run_of_isCutOff {loads : List (Http.Network × Load)}
    (h : ∀ load ∈ loads, session.client.IsCutOff load.1) :
    (session.run loads).board = session.board := by
  induction loads generalizing session with
  | nil => rfl
  | cons load loads ih =>
    have hhead := h load List.mem_cons_self
    have htail : ((session.step load.1 load.2).1.run loads).board =
        (session.step load.1 load.2).1.board :=
      ih fun load' hload' => h load' (List.mem_cons_of_mem _ hload')
    exact htail.trans (board_step_of_isCutOff hhead)

/-- **One request for each feed and load.** Whatever loads a client has made before, on whatever
networks, a load sends one request for each feed that it asks for, to the address without its
slashes at the end, with the name of the client in it, and nothing else. It sends none exactly when
the client is cut off; the load then fails with what there is to complain about and leaves the board
as it is, and a board all of whose loads were cut off is still the one of the start. -/
theorem requests_of_run (address userAgent : String) (unit : CoinUnit) (board : Board)
    (loads : List (Http.Network × Load)) (network : Http.Network) (load : Load) :
    let client := Client.ofAddress address userAgent
    let session := (Session.mk client unit board).run loads
    let step := session.step network load
    ((∃ k, address.toList = client.address.toList ++ List.replicate k '/') ∧
        client.address.toList.getLast? ≠ some '/') ∧
      (¬ client.IsCutOff network →
        step.2.requests.map (fun request => (request.url, request.userAgent)) =
          load.feeds.map fun feed => (client.address ++ feed.resource, userAgent)) ∧
      (step.2.requests = [] ↔ client.IsCutOff network) ∧
      (client.IsCutOff network →
        step.2.Fails (fun feed => network.complaint (client.request feed)) load ∧
          step.1.board = session.board) ∧
      ((∀ load ∈ loads, client.IsCutOff load.1) → session.board = board) := by
  intro client session step
  have hclient : session.client = client := (run_frame ⟨client, unit, board⟩ loads).1
  refine ⟨⟨?_, ?_⟩, ?_, ?_, ?_, ?_⟩
  · exact Settings.exists_trimAddress_append address
  · exact Settings.getLast?_trimAddress_ne address
  · intro h
    have hsend : session.client.canSend network = true :=
      hclient ▸ Client.canSend_of_not_isCutOff h
    have hrequests : (session.outcome network load).requests =
        load.feeds.map session.client.request := requests_outcome hsend
    rw [hclient] at hrequests
    change (session.outcome network load).requests.map _ = _
    rw [hrequests, List.map_map]
    apply List.map_congr_left
    intro feed _
    exact congrArg (·, userAgent) (client.url_request feed)
  · rw [← hclient]
    exact requests_eq_nil_iff
  · rw [← hclient]
    intro h
    exact ⟨(outcome_of_isCutOff h).2.1, board_step_of_isCutOff h⟩
  · intro h
    exact board_run_of_isCutOff h

end Session

end ChainBoard
