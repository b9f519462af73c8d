import RespClient.RoundTrip
import RespClient.Submission

/-!
# Transactions

Commands given to a transaction are only recorded, each with a slot for its caller.
Executing it sends them as one batch; the reply of the batch is then split among the
callers by position.  Discarding it, or losing the handle, drops the callers' slots.
-/

namespace RespClient

/-- The commands recorded since the transaction was last executed or discarded, oldest
first, with their callers' slots. -/
structure Transaction where
  batch : List (Command × Slot) := []
  deriving DecidableEq, Repr

namespace Transaction

def length (t : Transaction) : Nat := t.batch.length

def isEmpty (t : Transaction) : Bool := t.batch.isEmpty

def queue (t : Transaction) (c : Command) (slot : Slot) : Transaction :=
  { t with batch := t.batch ++ [(c, slot)] }

/-- Throw the recorded commands away. -/
def discard (t : Transaction) : List Settlement :=
  t.batch.flatMap fun (c, slot) => c.discard ++ [⟨slot, .dropped⟩]

/-- The recorded commands as one batch whose `EXEC` answers `exec`. -/
def submission (t : Transaction) (exec : Slot) : Except CommandError Submission :=
  Submission.transaction (t.batch.map (·.1)) exec

/-- The slots of the callers, in the order of their commands. -/
def slots (t : Transaction) : List Slot := t.batch.map (·.2)

/-- Executing a transaction without commands succeeds at once. -/
def emptyReply : Reply := .success .nil

/-- Each caller gets the element at its command's position. -/
def distribute (slots : List Slot) (outer : Reply) : List Settlement :=
  slots.zipIdx.map fun (slot, index) => ⟨slot, .reply (outer.element index)⟩

/-- What a caller is told whose command was recorded. -/
def queuedReply : Outcome → Reply
  | .reply r => r
  | .dropped => .error "transaction discarded" none

end Transaction

end RespClient
