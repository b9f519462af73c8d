import RespClient.Connection.Serving

/-!
# Transports in memory

Both ends of a transport without a network, with unlimited room.  The server's end can be
dropped, and reading, writing or shutting down can be made to fail.
-/

namespace RespClient

structure Transport where
  /-- Bytes from the server that are not read yet. -/
  inbound : List UInt8 := []
  hungUp : Bool := false
  released : Bool := false
  writeBroken : Bool := false
  readBroken : Bool := false
  shutdownBroken : Bool := false
  deriving Repr

namespace Transport

inductive Part
  | write
  | read
  | shutdown
  deriving DecidableEq, Repr

def breakPart (t : Transport) : Part → Transport
  | .write => { t with writeBroken := true }
  | .read => { t with readBroken := true }
  | .shutdown => { t with shutdownBroken := true }

def hangUp (t : Transport) : Transport := { t with hungUp := true }

/-- What writing these bytes comes to.  Writing nothing never fails. -/
def writeFault? (t : Transport) (bytes : List UInt8) : Option IoFault :=
  if bytes.isEmpty then none
  else if t.writeBroken then some .writeFailed
  else if t.hungUp then some .brokenPipe
  else none

/-- A read takes at most this many bytes. -/
def readSize : Nat := 8192

/-- What a read returns now, and the transport after it; nothing while the read has to
wait. -/
def read? (t : Transport) : Option (Serving.Event × Transport) :=
  if t.readBroken then some (.readFault .readFailed, t)
  else if t.inbound.isEmpty then
    if t.hungUp then some (.read [], t) else none
  else some (.read (t.inbound.take readSize), { t with inbound := t.inbound.drop readSize })

end Transport

end RespClient
