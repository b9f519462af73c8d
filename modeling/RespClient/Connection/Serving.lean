import RespClient.Connection.Basic

/-!
# Serving a connection

While a connection is served, two things can happen: the server sends something, or a
submission comes out of the channel.  Each is one event, and one step of the machine.
Serving ends when the server goes away, the transport or the reply stream fails, or the
channel is closed and every reply has come; whatever ends it, the commands still waiting
are failed.
-/

namespace RespClient

/-! ## §1  Endings -/

inductive IoFault
  | writeFailed
  | readFailed
  | shutdownFailed
  | brokenPipe
  deriving DecidableEq, Repr

def IoFault.message : IoFault → String
  | .writeFailed => "write failed"
  | .readFailed => "read failed"
  | .shutdownFailed => "shutdown failed"
  | .brokenPipe => "broken pipe"

/-- Why serving ended. -/
inductive Ending
  | closed
  | io (fault : IoFault)
  | protocol (fault : Fault)
  /-- No submission can come any more, and every reply is there. -/
  | submissionsClosed
  deriving DecidableEq, Repr

def Ending.message : Ending → String
  | .closed => "connection closed by server"
  | .io fault => "I/O error: " ++ fault.message
  | .protocol fault => "protocol error: " ++ fault.message
  | .submissionsClosed => "submission channel closed"

/-! ## §2  Steps -/

structure Serving where
  connection : Connection := {}
  /-- Can submissions still come? -/
  accepting : Bool := true
  deriving DecidableEq, Repr

namespace Serving

inductive Event
  /-- A read returned these bytes; none at all is the end of the stream. -/
  | read (bytes : List UInt8)
  | readFault (fault : IoFault)
  /-- A submission was taken from the channel; writing it fails with `fault`, if given. -/
  | submission (s : Submission) (fault : Option IoFault)
  /-- The channel is closed and empty. -/
  | submissionsClosed
  deriving Repr

structure Step where
  /-- The connection goes on, or serving is over. -/
  next : Serving ⊕ Ending
  written : List UInt8 := []
  settled : List Settlement := []
  deriving Repr

/-- Serving is over: what is still waiting is failed. -/
def finish (c : Connection) (ending : Ending) (settled : List Settlement) : Step :=
  { next := .inr ending, settled := settled ++ c.close }

/-- Serving goes on, unless nothing can happen any more. -/
def goOn (s : Serving) (written : List UInt8) (settled : List Settlement) : Step :=
  if !s.accepting && s.connection.pending.isEmpty then
    { finish s.connection .submissionsClosed settled with written }
  else { next := .inl s, written, settled }

def step (s : Serving) : Event → Step
  | .read [] => finish s.connection .closed []
  | .read (b :: bytes) =>
    let p := s.connection.receive (b :: bytes)
    match p.fault with
    | some fault => finish p.connection (.protocol fault) p.settled
    | none => goOn { s with connection := p.connection } [] p.settled
  | .readFault fault => finish s.connection (.io fault) []
  | .submission batch fault? =>
    let (bytes, connection) := s.connection.submit batch
    let lost := Settlement.drop batch.displaced
    match fault? with
    | some fault => finish connection (.io fault) lost
    | none => goOn { s with connection } bytes lost
  | .submissionsClosed => goOn { s with accepting := false } [] []

end Serving

end RespClient
