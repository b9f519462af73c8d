import RespClient.Session.Basic

/-!
# What happens by itself

Between two actions a session runs until nothing more can happen: whoever serves the
channel takes what is there, attempts to connect are decided, delays and reply timeouts
come to their end.  Time passes from one due moment to the next.
-/

namespace RespClient.Session

/-! ## §1  The served connection -/

/-- What a read of the connection comes to now, and the session after it. -/
def nextRead? (s : Session) : Option (Serving.Event × Session) :=
  (s.transport.getD {}).read?.map fun (e, t) => (e, { s with transport := some t })

/-- What the connection finds in the channel now, and the session without it. -/
def nextTaken? (s : Session) (c : Serving) : Option (Serving.Event × Session) :=
  if c.accepting then
    match s.queue with
    | batch :: queue =>
      let fault := (s.transport.getD {}).writeFault? (c.connection.submit batch).1
      some (.submission batch fault, { s with queue })
    | [] => if s.hasSenders then none else some (.submissionsClosed, s)
  else none

/-- What happens next to a connection: where both can, it reads before it looks into the
channel. -/
def nextEvent? (s : Session) (c : Serving) : Option (Serving.Event × Session) :=
  match s.nextRead? with
  | some next => some next
  | none => s.nextTaken? c

/-- The client's end of the transport is dropped. -/
def release (s : Session) : Session :=
  { s with transport := s.transport.map fun t => { t with released := true } }

/-- The receiver of the channel is dropped, with the submissions in it. -/
def closeChannel (s : Session) : Session :=
  { s with queue := [], closed := true }.settle (s.queue.flatMap Submission.discard)

/-- An event of the served connection, and what follows from it. -/
def happen (s : Session) (c : Serving) (e : Serving.Event) : Session :=
  let step := c.step e
  let s := { s with wire := s.wire ++ step.written }.settle step.settled
  match step.next with
  | .inl c => { s with service := .connection c }
  | .inr ending =>
    { s with service := .ended, ended := some ending.message }.release.closeChannel

/-! ## §2  The supervisor -/

def attempt (s : Session) (p : Supervisor) : Session :=
  let a : Attempt := s.script.headD { result := .refused }
  { s with
    script := s.script.tail
    attempts := s.attempts ++ [s.now]
    service := .supervised p (s.now + a.delay) a.result }

def supervise (s : Session) (step : Supervisor.Step) : Session :=
  let s := { s with wire := s.wire ++ step.written }.settle step.settled
  let p := step.next
  match p.phase with
  | .connecting => s.attempt p
  | .serving _ => { s with service := .supervised p s.now .refused }
  | .waiting delay => { s with service := .supervised p (s.now + delay.millis) .refused }
  | .stopped =>
    { s with service := .supervised p s.now .refused, ended := some "stopped" }.closeChannel

def decide (s : Session) (p : Supervisor) (result : AttemptResult) : Session :=
  match result with
  | .refused => s.supervise (p.step .refused)
  | .connected => { s with transport := some {} }.supervise (p.step .connected)
  | .dead => { s with transport := some { hungUp := true } }.supervise (p.step .connected)

/-! ## §3  One thing after the other -/

/-- The next thing that whoever serves the channel does. -/
def serve? (s : Session) : Option Session :=
  match s.service with
  | .unserved | .ended => none
  | .connection c => (s.nextEvent? c).map fun (e, s) => s.happen c e
  | .supervised p timer result =>
    match p.phase with
    | .connecting => if timer ≤ s.now then some (s.decide p result) else none
    | .serving c =>
      (s.nextEvent? c).map fun (e, s) =>
        let step := p.step (.served e)
        match step.next.phase with
        | .serving _ => s.supervise step
        | _ => (s.release).supervise step
    | .waiting delay =>
      match s.queue with
      | batch :: queue => some <|
        let s := { s with queue }.settle (p.step (.arrived batch)).settled
        { s with service := .supervised { p with phase := .waiting delay } timer result }
      | [] =>
        if !s.hasSenders then some (s.supervise (p.step .channelClosed))
        else if timer ≤ s.now then some (s.supervise (p.step .retryDue))
        else none
    | .stopped => none

def next? (s : Session) : Option Session :=
  match s.serve? with
  | some s => some s
  | none => if s.hasLate then some s.expire else none

/-- At most this many things can happen at one moment: each submission is taken, each
byte read and each wait ended once, and an attempt leads to four things at most.  (With
a retry delay of zero a server that refuses for ever leaves no moment without a next
thing; then the bound cuts the moment off.) -/
def atMost (s : Session) : Nat :=
  s.queue.length + (s.transport.map (·.inbound.length)).getD 0 + s.waits.length +
    4 * s.script.length + 16

/-- Run until nothing more happens, for at most the given number of things. -/
def restFor : Nat → Session → Session
  | 0, s => s
  | n + 1, s =>
    match s.next? with
    | some s => restFor n s
    | none => s

def rest (s : Session) : Session := restFor s.atMost s

/-! ## §4  Time passes -/

def dues (s : Session) : List Nat :=
  let waits := s.waits.filterMap fun w => if w.result.isNone then w.task.deadline? else none
  match s.service with
  | .supervised p timer _ =>
    match p.phase with
    | .connecting | .waiting _ => timer :: waits
    | .serving _ | .stopped => waits
  | _ => waits

/-- The first due moment after `now` and not after `target`. -/
def nextDue? (s : Session) (now target : Nat) : Option Nat :=
  (s.dues.filter fun due => now < due && due ≤ target).min?

/-- Time passes from `now` to `target`; what is due on the way happens at its moment. -/
def passFrom (now target : Nat) (s : Session) : Session :=
  match s.nextDue? now target with
  | none => { s with now := target }.rest
  | some due =>
    if _h : now < due ∧ due ≤ target then passFrom due target { s with now := due }.rest
    else { s with now := target }.rest
  termination_by target - now

def pass (s : Session) (millis : Nat) : Session := passFrom s.now (s.now + millis) s

end RespClient.Session
