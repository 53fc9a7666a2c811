import ChainBoard.Explorer.Load

/-!
# Sessions

In a session one client fills one board by any number of loads, each on the network as it then is. A
load takes one feed, both feeds, or only the text of a feed. The board keeps what earlier loads put
there.

## Main definitions

* `Load`, `Load.Answer`: what a load is to do, and how it ended
* `Outcome`: what a load has brought
* `Session`: a client, the unit of coins, and the board
* `Session.step`: one load
* `Session.run`: several loads

## Main results

* `Session.client_step`, `Session.unit_step`: only the board changes
-/

namespace ChainBoard

/-- What a load is to do. -/
inductive Load where
  /-- To load one feed. -/
  | feed (feed : Feed)
  /-- To load both feeds. -/
  | board
  /-- To ask for a feed without reading the answer. -/
  | text (feed : Feed)
  deriving DecidableEq, Repr

/-- How a load ended. -/
inductive Load.Answer where
  /-- A feed was loaded or failed. -/
  | loaded (result : Except Fault Unit)
  /-- Both feeds were loaded, whether or not they failed. -/
  | done
  /-- The text of a feed came, if any, or asking failed. -/
  | text (result : Except Fault (Option String))

/-- What a load has brought. -/
structure Outcome where
  requests : List Http.Request
  log : List Log.Entry
  entries : Entries
  answer : Load.Answer

/-- A client, the unit of coins, and the board that it fills. -/
structure Session where
  client : Client
  unit : CoinUnit
  board : Board

namespace Session

/-- What a load brings on a network. -/
def outcome (session : Session) (network : Http.Network) : Load → Outcome
  | .feed feed =>
    let loaded := session.client.load network session.unit feed
    ⟨loaded.requests, loaded.log, loaded.entries, .loaded loaded.result⟩
  | .board =>
    let loaded := session.client.loadBoard network session.unit
    ⟨loaded.requests, loaded.log, loaded.entries, .done⟩
  | .text feed =>
    let fetched := session.client.fetch network feed
    ⟨fetched.requests, fetched.log, [], .text fetched.text⟩

/-- One load: the session afterwards, and what the load has brought. -/
def step (session : Session) (network : Http.Network) (load : Load) : Session × Outcome :=
  let outcome := session.outcome network load
  ({ session with board := session.board.putAll outcome.entries }, outcome)

/-- Several loads, each on its own network. -/
def run (session : Session) : List (Http.Network × Load) → Session
  | [] => session
  | (network, load) :: loads => (session.step network load).1.run loads

@[simp] theorem client_step (session : Session) (network : Http.Network) (load : Load) :
    (session.step network load).1.client = session.client := rfl

@[simp] theorem unit_step (session : Session) (network : Http.Network) (load : Load) :
    (session.step network load).1.unit = session.unit := rfl

end Session

end ChainBoard
