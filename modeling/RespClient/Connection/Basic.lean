import RespClient.Reader.Basic
import RespClient.Submission

/-!
# Connections

A connection is the queue of commands whose replies are still to come, and the reader of
the replies.  Replies carry no name, so their order is all that ties them to commands:
commands are queued in the order in which their frames are written, a whole batch before
the write, and leave the queue from the front.
-/

namespace RespClient

structure Connection where
  reader : Reader := {}
  /-- Commands that wait for their reply, oldest first. -/
  pending : List Command := []
  deriving DecidableEq, Repr

def Progress.connection (p : Progress) : Connection := ⟨p.reader, p.pending⟩

namespace Connection

def enqueue (c : Connection) (command : Command) : Connection :=
  { c with pending := c.pending ++ [command] }

/-- Queue the commands; the bytes that have to be written. -/
def send (c : Connection) (commands : List Command) : List UInt8 × Connection :=
  (Command.frames commands, { c with pending := c.pending ++ commands })

/-- Queue a batch as it is written; the bytes that have to be written. -/
def submit (c : Connection) (s : Submission) : List UInt8 × Connection := c.send s.wrapped

def receive (c : Connection) (chunk : List UInt8) : Progress := c.reader.feed c.pending chunk

/-- Every waiting command gets the same reply, oldest first. -/
def drain (c : Connection) (reply : Reply) : List Settlement :=
  c.pending.flatMap (·.resolve reply)

/-- The connection ends: whoever still waits learns that the socket is gone. -/
def close (c : Connection) : List Settlement := c.drain .socketClosed

/-- How many commands the end of the connection fails. -/
def drained (c : Connection) : Nat := c.pending.length

end Connection

end RespClient
