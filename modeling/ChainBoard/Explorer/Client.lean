import ChainBoard.Explorer.Feed
import ChainBoard.Fault
import ChainBoard.Http.Exchange
import ChainBoard.Http.StatusCode
import ChainBoard.Log

/-!
# Asking an explorer

A client knows the address of an explorer and what it calls itself. It asks for a feed by one
request. Only the answer with status code 200 is of use; its body is read as UTF-8, without a byte
order mark. Any other status is noted in the log, and there is nothing to read. It is a fault if the
request cannot be sent, gets no reply, or gets a body that is cut off; the fault passes on what
there is to complain about.

## Main definitions

* `Client`, `Client.ofAddress`: the client of an explorer
* `Client.fetch`: asks for a feed
* `Fetched`: what asking has brought
-/

namespace ChainBoard

/-- The client of an explorer: its address, without slashes at the end, and the client's name. -/
structure Client where
  address : String
  userAgent : String
  deriving DecidableEq, Repr

/-- What asking for a feed has brought: the requests that were sent, the records that were written,
and the text of the answer, if it is of use. -/
structure Fetched where
  requests : List Http.Request
  log : List Log.Entry
  text : Except Fault (Option String)

/-- The text of a body. -/
def bodyText (body : List UInt8) : String :=
  String.ofList (Text.Utf8.dropMark (Text.Utf8.decode body))

namespace Client

/-- The client of the explorer at an address. -/
def ofAddress (address userAgent : String) : Client :=
  ⟨Settings.trimAddress address, userAgent⟩

/-- The request for a feed. -/
def request (client : Client) (feed : Feed) : Http.Request :=
  ⟨client.address, feed.path, client.userAgent⟩

/-- Whether the client's requests can be sent. -/
def canSend (client : Client) (network : Http.Network) : Bool :=
  network.listens client.address && Http.isHeaderText client.userAgent

/-- The record about an answer that is of no use. -/
def skipped (request : Http.Request) (code : Nat) : Log.Entry :=
  ⟨.debug, .explorer,
    "GET " ++ request.url ++ " returned " ++ Http.StatusCode.render code ++ ", skipping"⟩

/-- What a request that is sent brings. -/
def receive (network : Http.Network) (request : Http.Request) : Fetched :=
  match network.reply request with
  | .closed => ⟨[request], [], .error (.request (network.complaint request))⟩
  | .sent code body complete =>
    if code ≠ Http.StatusCode.ok then ⟨[request], [skipped request code], .ok none⟩
    else if complete then ⟨[request], [], .ok (some (bodyText body))⟩
    else ⟨[request], [], .error (.request (network.complaint request))⟩

/-- Asks for a feed. -/
def fetch (client : Client) (network : Http.Network) (feed : Feed) : Fetched :=
  if client.canSend network then receive network (client.request feed)
  else ⟨[], [], .error (.request (network.complaint (client.request feed)))⟩

end Client

end ChainBoard
