import RespClient.Command.Call
import RespClient.Session.Clock

/-!
# What is done in a session

The actions of the callers, of the server and of the clock, each with its result, and the
report of what they brought about.
-/

namespace RespClient

/-! ## §1  Actions and results -/

inductive Action
  /-- Send a command, built by name, and wait for its reply. -/
  | dispatch (id name : String) (args : List String)
  /-- Make a typed call on the client, or on a transaction. -/
  | call (id : String) (transaction : Option String) (c : Call)
  | multi (transaction : String)
  | queue (transaction id name : String) (args : List String)
  | discard (transaction : String)
  | exec (transaction id : String)
  | dropTransaction (transaction : String)
  /-- Submit commands as they are, under the labels of their slots. -/
  | submit (commands : List (Option String × String × List String)) (exec : Option String)
  | forget (id : String)
  | dropClient
  | reply (bytes : List UInt8)
  | hangUp
  | breakPart (part : Transport.Part)
  | pass (millis : Nat)
  /-- The receiver of an unserved channel is dropped. -/
  | closeReceiver
  /-- The next submission of an unserved channel is taken and thrown away. -/
  | receive
  deriving Repr

inductive Result
  | ok
  | noClient
  | noTransaction
  | noTarget
  | noConnection
  | flag (value : Bool)
  | size (length : Nat)
  | refused (e : CommandError)
  | taken (s : Option Submission)
  deriving Repr

namespace Session

/-! ## §2  Callers -/

def wait (s : Session) (id : String) (task : Task) (result : Option Reply) : Session :=
  { s with waits := s.waits ++ [{ id, task, result }] }

/-- Hand a single command to the channel and wait for its reply. -/
def dispatch (s : Session) (id : String) (c : Command) : Session :=
  let (slot, s) := s.freshSlot
  if s.closed then s.wait id .done (some RoundTrip.notSubmitted.dispatched)
  else
    { s with queue := s.queue ++ [Submission.single (c.withSlot slot)] }.wait id
      (.dispatch slot (s.now + s.replyTimeout)) none

def record (s : Session) (name id : String) (t : Transaction) (c : Command) : Session :=
  let (slot, s) := s.freshSlot
  let s := s.wait id (.queued slot) none
  { s with
    transactions := s.transactions.map fun (n, u) =>
      if n = name then (n, t.queue c slot) else (n, u) }

/-- An execution that ends as it begins: its callers get their shares at once. -/
def execAtOnce (s : Session) (name id : String) (callers : List Slot) (outer : Reply) : Session :=
  (s.wait id .done (some outer)).afterExec name callers outer

/-- Execute a transaction.  The batch goes into the channel and its reply is then waited for,
so without any time to wait the execution is over before anybody takes the batch, which stays
in the channel. -/
def exec (s : Session) (name id : String) (t : Transaction) : Session :=
  if t.isEmpty then s.wait id .done (some Transaction.emptyReply)
  else
    let (slot, s) := s.freshSlot
    let s := { s with transactions := s.transactions.filter (·.1 ≠ name) }
    match t.submission slot with
    | .error e => s.execAtOnce name id t.slots e.reply
    | .ok batch =>
      if s.closed then
        (s.settle (batch.fail RoundTrip.noHandlers)).execAtOnce name id t.slots
          RoundTrip.notSubmitted.executed
      else
        let s := { s with queue := s.queue ++ [batch] }
        if s.replyTimeout = 0 then s.execAtOnce name id t.slots RoundTrip.timedOut.executed
        else s.wait id (.exec name t.slots slot (s.now + s.replyTimeout)) none

/-- Open the slots of commands that are submitted as they are, up to the first name that is
not in the table. -/
def build (r : Receivers) : List (Option String × String × List String) →
    Receivers × Except CommandError (List Command)
  | [] => (r, .ok [])
  | (label, name, args) :: rest =>
    match Command.ofName name args with
    | .error e => (r, .error e)
    | .ok c =>
      let (c, r) := match label with
        | none => (c, r)
        | some label =>
          let (slot, r) := r.opened label
          (c.withSlot slot, r)
      let (r, made) := build r rest
      (r, made.map (c :: ·))

/-- The batch of commands that are submitted as they are, after its slots are opened. -/
def buildSubmission (r : Receivers) (commands : List (Option String × String × List String))
    (exec : Option String) : Receivers × Except CommandError Submission :=
  match build r commands with
  | (r, .error e) => (r, .error e)
  | (r, .ok commands) =>
    match exec with
    | none => (r, Submission.plain commands)
    | some label =>
      let (slot, r) := r.opened label
      (r, Submission.transaction commands slot)

def submit (s : Session) (commands : List (Option String × String × List String))
    (exec : Option String) : Result × Session :=
  let (r, made) := buildSubmission s.receivers commands exec
  let opened := (r.waiting.drop s.receivers.waiting.length).map (·.2)
  let s := { s with receivers := r }
  match made with
  | .error e => (.refused e, s.settle (opened.map (⟨·, .dropped⟩)))
  | .ok batch =>
    if !s.client then (.noClient, s.settle batch.discard)
    else if s.closed then (.flag false, s.settle (batch.fail RoundTrip.noHandlers))
    else (.flag true, { s with queue := s.queue ++ [batch] })

/-- Give up every wait of this name.  An execution takes its transaction with it. -/
def forget (s : Session) (id : String) : Session :=
  let (gone, kept) := s.waits.partition (·.id = id)
  let callers := gone.flatMap fun w => match w.task, w.result with
    | .exec _ callers _ _, none => callers
    | _, _ => []
  { s with waits := kept }.settle (callers.map (⟨·, .dropped⟩))

/-! ## §3  Acting -/

/-- An action, before anything follows from it. -/
def act (s : Session) : Action → Result × Session
  | .dispatch id name args =>
    match Command.ofName name args with
    | .error e => (.refused e, s)
    | .ok c => if s.client then (.ok, s.dispatch id c) else (.noClient, s)
  | .call id none c =>
    if !s.client then (.noTarget, s)
    else
      match c.command with
      | .error e => (.refused e, s)
      | .ok command => (.ok, s.dispatch id command)
  | .call id (some name) c =>
    match s.transaction? name, c.command with
    | none, _ => (.noTarget, s)
    | some _, .error e => (.refused e, s)
    | some t, .ok command => (.ok, s.record name id t command)
  | .multi name => if s.client then (.ok, s.putTransaction name {}) else (.noClient, s)
  | .queue name id command args =>
    match Command.ofName command args, s.transaction? name with
    | .error e, _ => (.refused e, s)
    | .ok _, none => (.noTransaction, s)
    | .ok c, some t => (.size (t.length + 1), s.record name id t c)
  | .discard name =>
    match s.transaction? name with
    | none => (.noTransaction, s)
    | some _ => (.size 0, s.putTransaction name {})
  | .exec name id =>
    match s.transaction? name with
    | none => (.noTransaction, s)
    | some t => (.ok, s.exec name id t)
  | .dropTransaction name => (.flag (s.transaction? name).isSome, s.loseTransaction name)
  | .submit commands exec => s.submit commands exec
  | .forget id => (.ok, s.forget id)
  | .dropClient => (.ok, { s with client := false })
  | .reply bytes =>
    match s.transport with
    | none => (.noConnection, s)
    | some t =>
      if t.hungUp || t.released then (.noConnection, s)
      else (.ok, { s with transport := some { t with inbound := t.inbound ++ bytes } })
  | .hangUp => (.ok, { s with transport := s.transport.map Transport.hangUp })
  | .breakPart part =>
    match s.transport with
    | none => (.noConnection, s)
    | some t => (.ok, { s with transport := some (t.breakPart part) })
  | .pass millis => (.ok, s.pass millis)
  | .closeReceiver =>
    match s.service with
    | .unserved => (.ok, s.closeChannel)
    | _ => (.ok, s)
  | .receive =>
    match s.service, s.queue with
    | .unserved, batch :: queue => (.taken (some batch), { s with queue }.settle batch.discard)
    | _, _ => (.taken none, s)

/-! ## §4  Reports -/

/-- What has happened since the last report. -/
structure Report where
  wire : List UInt8
  /-- Waits that ended, in the order in which they began. -/
  resolved : List (String × Reply)
  /-- Slots of submitted batches that ended, oldest first. -/
  slots : List (String × Outcome)
  attempts : List Nat
  ended : Option String
  deriving Repr

/-- The report, and the session with nothing left to report. -/
def report (s : Session) : Report × Session :=
  let (slots, receivers) := s.receivers.collect s.settled
  ({ wire := s.wire
     resolved := s.waits.filterMap fun w => w.result.map (w.id, ·)
     slots
     attempts := s.attempts
     ended := s.ended },
   { s with
     receivers
     waits := s.waits.filter (·.result.isNone)
     settled := []
     wire := []
     attempts := [] })

/-- An action and all that follows from it. -/
def step (s : Session) (a : Action) : Result × Report × Session :=
  let (result, s) := s.act a
  let (report, s) := s.rest.report
  (result, report, s)

/-! ## §5  Beginnings -/

def unserved (replyTimeout : Nat) : Session := { replyTimeout }

def connected (replyTimeout : Nat) : Session :=
  { replyTimeout, service := .connection {}, transport := some {} }

/-- A channel served by a supervisor that begins its first attempt. -/
def supervised (replyTimeout : Nat) (backoff : Backoff) (script : List Attempt) : Session :=
  { replyTimeout, script : Session }.attempt { backoff }

end Session

end RespClient
