import RespClient.Command.Basic

/-!
# Submissions

The unit in which commands are handed to a connection: a batch that is written in one
go.  A transaction also carries the slot for the `EXEC` reply; its commands are put
between `MULTI` and `EXEC` when they are written, unless the caller already wrote these.
-/

namespace RespClient

/-- A batch of commands, never empty. -/
structure Submission where
  commands : List Command
  /-- Where the reply of `EXEC` goes; present exactly in a transaction. -/
  exec : Option Slot := none
  commands_ne_nil : commands ≠ []
  deriving DecidableEq, Repr

namespace Submission

/-! ## §1  Making one -/

/-- A batch with the given slot for `EXEC`; without commands there is none. -/
def ofCommands (commands : List Command) (exec : Option Slot) : Except CommandError Submission :=
  match commands with
  | [] => .error .emptySubmission
  | c :: rest => .ok { commands := c :: rest, exec, commands_ne_nil := by simp }

def plain (commands : List Command) : Except CommandError Submission := ofCommands commands none

def transaction (commands : List Command) (exec : Slot) : Except CommandError Submission :=
  ofCommands commands (some exec)

def single (c : Command) : Submission :=
  { commands := [c], commands_ne_nil := by simp }

def isTransaction (s : Submission) : Bool := s.exec.isSome

def length (s : Submission) : Nat := s.commands.length

/-! ## §2  Wrapping -/

/-- The commands with `MULTI` in front. -/
def opened : List Command → List Command
  | [] => [{ kind := .multi }]
  | c :: rest => if c.kind = .multi then c :: rest else { kind := .multi } :: c :: rest

/-- The commands with an `EXEC` at the end that owns `slot`. -/
def closed (slot : Slot) : List Command → List Command
  | [] => [{ kind := .exec, slot := some slot }]
  | [c] => if c.kind = .exec then [c.withSlot slot] else [c, { kind := .exec, slot := some slot }]
  | c :: d :: rest => c :: closed slot (d :: rest)

/-- The commands as they are written. -/
def wrapped (s : Submission) : List Command :=
  match s.exec with
  | none => s.commands
  | some slot => closed slot (opened s.commands)

/-- The slot of an `EXEC` that the caller wrote at the end, which the transaction's own
slot replaces. -/
def displaced (s : Submission) : Option Slot :=
  match s.exec, s.commands.getLast? with
  | some _, some last => if last.kind = .exec then last.slot else none
  | _, _ => none

/-! ## §3  Ending without being written -/

/-- Every slot of the batch, that of `EXEC` first. -/
def slots (s : Submission) : List Slot := s.exec.toList ++ s.commands.filterMap (·.slot)

def fail (s : Submission) (reply : Reply) : List Settlement := s.slots.map (⟨·, .reply reply⟩)

/-- The batch is thrown away, and all its slots with it. -/
def discard (s : Submission) : List Settlement := s.slots.map (⟨·, .dropped⟩)

end Submission

end RespClient
