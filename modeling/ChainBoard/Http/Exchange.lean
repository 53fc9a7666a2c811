/-!
# Requests and replies

A request asks a server for a resource and says what the program calls itself. It can be sent when
something listens at the address, and when the name of the program holds no control characters,
which no header may hold. Each request that is sent gets one reply, or the connection is closed
without one. About a request that could not be sent or got no complete answer there is a complaint.

## Main definitions

* `Request`: what is asked
* `Reply`: what comes back
* `Network`: where something listens, what it replies, and what there is to complain about
* `isHeaderText`: what a header may hold
-/

namespace ChainBoard.Http

/-- A request for the resource at a path behind an address. -/
structure Request where
  address : String
  path : String
  userAgent : String
  deriving DecidableEq, Repr

namespace Request

/-- The whole address of the resource. -/
def url (request : Request) : String :=
  request.address ++ "/" ++ request.path

end Request

/-- What comes back for a request. -/
inductive Reply where
  /-- The connection was closed before an answer came. -/
  | closed
  /-- An answer with a status code and a body, which may have been cut off. -/
  | sent (code : Nat) (body : List UInt8) (complete : Bool)
  deriving DecidableEq, Repr

/-- The other side: the addresses at which something listens, the replies to requests, and the
complaint about a request that could not be sent or got no complete answer. -/
structure Network where
  listens : String → Bool
  reply : Request → Reply
  complaint : Request → String

/-- The network on which nothing listens. -/
def Network.silent : Network :=
  ⟨fun _ => false, fun _ => .closed, fun request => "nothing listens at " ++ request.address⟩

/-- What a header may hold: no control characters but the tab. -/
def isHeaderText (text : String) : Bool :=
  text.toList.all fun c => c = '\t' || (0x20 ≤ c.toNat && c.toNat ≠ 0x7F)

end ChainBoard.Http
