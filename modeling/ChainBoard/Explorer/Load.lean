import ChainBoard.Explorer.Client

/-!
# Loading a board

To load a feed is to ask for it, to read the answer, and to give contents for the slots of the feed.
Nothing is given unless the whole answer could be read. Loading a board loads both feeds; a fault of
one becomes a warning and does not touch the other.

## Main definitions

* `Loaded`: what loading a feed has brought
* `Client.load`: loads a feed
* `Client.loadBoard`: loads both feeds
* `Board.after`: the board after a load
-/

namespace ChainBoard

/-- What loading has brought: the requests that were sent, the records that were written, the
contents for slots, and whether it went well. -/
structure Loaded where
  requests : List Http.Request
  log : List Log.Entry
  entries : Entries
  result : Except Fault Unit

namespace Client

/-- Loads a feed. -/
def load (client : Client) (network : Http.Network) (unit : CoinUnit) (feed : Feed) : Loaded :=
  let fetched := client.fetch network feed
  match fetched.text with
  | .error fault => ⟨fetched.requests, fetched.log, [], .error fault⟩
  | .ok none => ⟨fetched.requests, fetched.log, [], .ok ()⟩
  | .ok (some text) =>
    match feed.read unit text with
    | .error refusal => ⟨fetched.requests, fetched.log, [], .error (.malformed refusal)⟩
    | .ok (summary, entries) =>
      ⟨fetched.requests, fetched.log ++ [⟨.debug, .stats, summary⟩], entries, .ok ()⟩

/-- The warning about a load that failed. -/
def warning (feed : Feed) (result : Except Fault Unit) : List Log.Entry :=
  match result with
  | .ok () => []
  | .error fault =>
    [⟨.warn, .stats, "Unable to load " ++ feed.subject ++ ": " ++ fault.message⟩]

/-- Loads both feeds. The warnings come last, the one about the tip first. -/
def loadBoard (client : Client) (network : Http.Network) (unit : CoinUnit) : Loaded :=
  let tip := client.load network unit .tip
  let coins := client.load network unit .coins
  { requests := tip.requests ++ coins.requests
    log := tip.log ++ coins.log ++ warning .tip tip.result ++ warning .coins coins.result
    entries := tip.entries ++ coins.entries
    result := .ok () }

end Client

/-- The board after a load. -/
def Board.after (board : Board) (loaded : Loaded) : Board :=
  board.putAll loaded.entries

end ChainBoard
