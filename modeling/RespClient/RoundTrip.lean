import RespClient.Slot

/-!
# Round trips

A caller that has handed a submission to the channel waits for its slot, but not longer
than the reply timeout.  What the caller is told depends on how the wait ended and on
what it was for: a single command names the cause, a transaction only says that its round
trip failed.
-/

namespace RespClient

/-- How a wait for a slot ended. -/
inductive RoundTrip
  | answered (reply : Reply)
  | lost
  /-- The reply timeout was over first. -/
  | timedOut
  /-- The channel was closed, so nothing was handed over. -/
  | notSubmitted
  deriving DecidableEq, Repr, Inhabited

namespace RoundTrip

def ofOutcome : Outcome → RoundTrip
  | .reply r => .answered r
  | .dropped => .lost

/-- The reply for a submission that finds the channel closed. -/
def noHandlers : Reply := .error "NO_HANDLERS" (some 500)

def dispatched : RoundTrip → Reply
  | .answered r => r
  | .lost => .error "RECIPIENT_FAILURE" (some 500)
  | .timedOut => .error "TIMEOUT" (some 500)
  | .notSubmitted => noHandlers

def executed : RoundTrip → Reply
  | .answered r => r
  | .lost | .timedOut | .notSubmitted => .error "gateway timeout" (some 504)

end RoundTrip

end RespClient
