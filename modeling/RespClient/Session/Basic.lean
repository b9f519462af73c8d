import RespClient.Session.Transport
import RespClient.Supervisor
import RespClient.Transaction

/-!
# Sessions

A client, its transactions and its connection together, on a clock that only moves when
told to.  A session knows who is waiting and until when, what is in the channel, what the
connection or its supervisor is doing, and what has happened since the last report.
-/

namespace RespClient

/-! ## §1  Parts -/

inductive AttemptResult
  | connected
  | refused
  /-- Connected to a server that has already hung up. -/
  | dead
  deriving DecidableEq, Repr

/-- An attempt to connect: its result, and after how many milliseconds it is known. -/
structure Attempt where
  result : AttemptResult
  delay : Nat := 0
  deriving DecidableEq, Repr

/-- Who takes submissions from the channel. -/
inductive Service
  | unserved
  | connection (s : Serving)
  /-- A supervisor.  The timer says when the attempt under way is decided, as `result`, or
  when the retry delay is over. -/
  | supervised (s : Supervisor) (timer : Nat) (result : AttemptResult)
  | ended
  deriving Repr

inductive Task
  | dispatch (slot : Slot) (deadline : Nat)
  | queued (slot : Slot)
  /-- The reply to a whole transaction, whose callers have the given slots. -/
  | exec (transaction : String) (callers : List Slot) (slot : Slot) (deadline : Nat)
  /-- Nothing: the reply was there from the start. -/
  | done
  deriving Repr

namespace Task

def slot? : Task → Option Slot
  | .dispatch slot _ | .queued slot | .exec _ _ slot _ => some slot
  | .done => none

def deadline? : Task → Option Nat
  | .dispatch _ deadline | .exec _ _ _ deadline => some deadline
  | .queued _ | .done => none

def reply (t : Task) (trip : RoundTrip) : Reply :=
  match t, trip with
  | .dispatch .., trip => trip.dispatched
  | .exec .., trip => trip.executed
  | .queued _, .answered r => r
  | .queued _, _ => Transaction.queuedReply .dropped
  | .done, trip => trip.dispatched

end Task

structure Wait where
  id : String
  task : Task
  result : Option Reply := none
  deriving Repr

def Wait.isLate (w : Wait) (now : Nat) : Bool :=
  w.result.isNone && w.task.deadline?.any (· ≤ now)

/-! ## §2  The session -/

structure Session where
  /-- Milliseconds since the start. -/
  now : Nat := 0
  replyTimeout : Nat
  /-- Is the client's own handle still there? -/
  client : Bool := true
  /-- Transactions that are not being executed, by name. -/
  transactions : List (String × Transaction) := []
  /-- Everybody who waits, in the order in which they began. -/
  waits : List Wait := []
  /-- Slots of batches that were submitted as they are. -/
  receivers : Receivers := {}
  queue : List Submission := []
  closed : Bool := false
  service : Service := .unserved
  /-- The newest transport, if there ever was one. -/
  transport : Option Transport := none
  /-- The attempts to come; when there are none left, the server refuses. -/
  script : List Attempt := []
  settled : List Settlement := []
  wire : List UInt8 := []
  attempts : List Nat := []
  ended : Option String := none
  deriving Repr

namespace Session

def freshSlot (s : Session) : Slot × Session :=
  (⟨s.receivers.next⟩, { s with receivers.next := s.receivers.next + 1 })

/-- Can a submission still come?  Handles, transactions and executions under way each hold
an end of the channel. -/
def hasSenders (s : Session) : Bool :=
  s.client || !s.transactions.isEmpty ||
    s.waits.any fun w => match w.task, w.result with
      | .exec .., none => true
      | _, _ => false

/-- The transaction of a name, if it is not being executed. -/
def transaction? (s : Session) (name : String) : Option Transaction :=
  s.transactions.lookup name

/-! ## §3  Settling -/

/-- A slot's end reaches those who wait for the slot, other than executions. -/
def tell (s : Session) (x : Settlement) : Session :=
  { s with
    settled := s.settled ++ [x]
    waits := s.waits.map fun w =>
      if w.task.slot? = some x.slot ∧ w.result = none then
        { w with result := some (w.task.reply (.ofOutcome x.outcome)) }
      else w }

/-- A transaction is lost: its callers' slots are dropped. -/
def loseTransaction (s : Session) (name : String) : Session :=
  match s.transaction? name with
  | none => s
  | some t =>
    t.discard.foldl tell { s with transactions := s.transactions.filter (·.1 ≠ name) }

/-- A transaction is there under a name; another one of that name is lost. -/
def putTransaction (s : Session) (name : String) (t : Transaction) : Session :=
  let s := s.loseTransaction name
  { s with transactions := s.transactions ++ [(name, t)] }

/-- The execution of a transaction has ended with a reply: its callers get their shares, and
the transaction is there again, empty. -/
def afterExec (s : Session) (name : String) (callers : List Slot) (outer : Reply) : Session :=
  ((Transaction.distribute callers outer).foldl tell s).putTransaction name {}

def settleOne (s : Session) (x : Settlement) : Session :=
  let execs := s.waits.filterMap fun w => match w.task, w.result with
    | .exec name callers slot _, none => if slot = x.slot then some (name, callers) else none
    | _, _ => none
  execs.foldl
    (fun s (name, callers) => s.afterExec name callers (RoundTrip.ofOutcome x.outcome).executed)
    (s.tell x)

def settle (s : Session) (xs : List Settlement) : Session := xs.foldl settleOne s

/-- Those whose time is over stop waiting. -/
def expire (s : Session) : Session :=
  let execs := s.waits.filterMap fun w => match w.task with
    | .exec name callers _ _ => if w.isLate s.now then some (name, callers) else none
    | _ => none
  let timeOut (w : Wait) : Wait :=
    if w.isLate s.now then { w with result := some (w.task.reply .timedOut) } else w
  execs.foldl
    (fun s (name, callers) => s.afterExec name callers RoundTrip.timedOut.executed)
    { s with waits := s.waits.map timeOut }

/-- Does anybody's time end now? -/
def hasLate (s : Session) : Bool := s.waits.any (·.isLate s.now)

end Session

end RespClient
