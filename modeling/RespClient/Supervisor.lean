import RespClient.Backoff
import RespClient.Connection.Serving

/-!
# Keeping a connection alive

The supervisor connects, serves the connection until it ends, waits, and connects again;
it never gives up while submissions can still come.  While it waits, submissions are
failed at once instead of being kept for the next connection.  A lost connection waits
the base delay, a failed attempt a delay that grows.
-/

namespace RespClient

namespace Supervisor

inductive Phase
  | connecting
  | serving (s : Serving)
  | waiting (delay : Duration)
  /-- No submission can come any more. -/
  | stopped
  deriving Repr

inductive Event
  | connected
  | refused
  | served (e : Serving.Event)
  | retryDue
  /-- A submission was taken from the channel during the delay. -/
  | arrived (s : Submission)
  /-- The channel turned out closed and empty during the delay. -/
  | channelClosed
  deriving Repr

end Supervisor

structure Supervisor where
  backoff : Backoff
  phase : Supervisor.Phase := .connecting
  deriving Repr

namespace Supervisor

structure Step where
  next : Supervisor
  written : List UInt8 := []
  settled : List Settlement := []
  deriving Repr

/-- The phase after a step of the connection: a lost connection is tried again after the
delay, a connection that nobody needs is the end. -/
def afterServing (backoff : Backoff) : Serving ⊕ Ending → Phase
  | .inl s => .serving s
  | .inr .submissionsClosed => .stopped
  | .inr _ => .waiting backoff.current

/-- One event.  An event that cannot happen in the phase changes nothing. -/
def step (s : Supervisor) (e : Event) : Step :=
  match s.phase, e with
  | .connecting, .connected => { next := { backoff := s.backoff.reset, phase := .serving {} } }
  | .connecting, .refused =>
    let (delay, backoff) := s.backoff.failure
    { next := { backoff, phase := .waiting delay } }
  | .serving c, .served e =>
    let t := c.step e
    { next := { s with phase := afterServing s.backoff t.next }
      written := t.written
      settled := t.settled }
  | .waiting _, .retryDue => { next := { s with phase := .connecting } }
  | .waiting _, .arrived batch => { next := s, settled := batch.fail .socketClosed }
  | .waiting _, .channelClosed => { next := { s with phase := .stopped } }
  | _, _ => { next := s }

end Supervisor

end RespClient
