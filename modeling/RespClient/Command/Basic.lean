import RespClient.Command.Kind
import RespClient.Slot

/-!
# Commands

One operation: a kind, its arguments, and perhaps a slot for the reply.  Faults of
building are reported to the caller at once; nothing of them reaches the wire.
-/

namespace RespClient

/-- Why a command or a batch cannot be built. -/
inductive CommandError
  | unknown (name : String)
  /-- A list of keys, values or members is empty. -/
  | noKeys (kind : Kind)
  | emptySubmission
  deriving DecidableEq, Repr

namespace CommandError

/-- The error in words, for a log. -/
def message : CommandError → String
  | .unknown name => "invalid or unsupported command: " ++ name
  | .noKeys kind => "no keys provided for " ++ kind.wireName
  | .emptySubmission => "invalid message with no commands"

/-- The error in words, for a caller. -/
def summary : CommandError → String
  | .unknown name => "Invalid or unsupported command provided: " ++ name
  | .noKeys kind => "No keys provided for " ++ kind.wireName
  | .emptySubmission => "Invalid message with no commands"

def reply (e : CommandError) : Reply := .error e.summary none

end CommandError

/-- An operation and where its reply goes. -/
structure Command where
  kind : Kind
  args : List String := []
  slot : Option Slot := none
  deriving DecidableEq, Repr

namespace Command

def ofName (name : String) (args : List String) : Except CommandError Command :=
  match Kind.ofName? name with
  | some kind => .ok { kind, args }
  | none => .error (.unknown name)

def withSlot (c : Command) (slot : Slot) : Command := { c with slot := some slot }

/-- The command's slot, if it has one, gets the reply. -/
def resolve (c : Command) (reply : Reply) : List Settlement := Settlement.deliver c.slot reply

/-- The command is thrown away, and its slot with it. -/
def discard (c : Command) : List Settlement := Settlement.drop c.slot

end Command

end RespClient
