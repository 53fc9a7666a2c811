import ChainBoard.Json.Place
import ChainBoard.Settings

/-!
# What can go wrong

A run can fail for its settings. A load can fail because its request gets no complete answer, or
because the answer cannot be read. A fault passes on what was said about its cause.

## Main definitions

* `Fault`: what went wrong
* `Fault.message`: its wording
-/

namespace ChainBoard

/-- What went wrong. -/
inductive Fault where
  | settings (fault : Settings.Fault)
  | malformed (refusal : Json.Refusal)
  /-- A request could not be sent or got no complete answer. -/
  | request (complaint : String)
  deriving DecidableEq, Repr

/-- The wording of a fault. -/
def Fault.message : Fault → String
  | settings fault => "invalid configuration: " ++ fault.message
  | malformed refusal => "malformed response: " ++ refusal.message
  | request complaint => "request failed: " ++ complaint

end ChainBoard
