import Std.Async.DNS
import Std.Async.TCP
import Std.Async.Timer
import Std.Sync.Channel
import RespClient.Settings.Arguments
import RespClient.SettingsFile
import RespClient.Supervisor
import RespClient.Terminal

/-!
# The program

A prompt on standard input, with a supervised connection behind it.  Everything that is
decided here is decided by `Prompt` and `Supervisor`; this module only carries bytes and
waits.
-/

namespace RespClient.Main

open Std Async

/-! ## §1  The connection in the background -/

/-- A batch on its way, and where its caller waits. -/
structure Job where
  batch : Submission
  slot : Slot
  promise : IO.Promise RoundTrip

/-- The supervisor and what it holds in the world. -/
structure Service where
  supervisor : Supervisor
  socket : Option TCP.Socket.Client := none
  /-- When the retry delay is over, in milliseconds of the system's clock. -/
  due : Nat := 0
  jobs : List Job := []

namespace Service

/-- Take a step and tell the callers whose slots it settles. -/
def take (s : Service) (e : Supervisor.Event) : Async Service := do
  let step := s.supervisor.step e
  let mut jobs := s.jobs
  for x in step.settled do
    for job in jobs do
      if job.slot = x.slot then job.promise.resolve (.ofOutcome x.outcome)
    jobs := jobs.filter (·.slot ≠ x.slot)
  let due ← match step.next.phase, s.supervisor.phase with
    | .waiting _, .waiting _ => pure s.due
    | .waiting delay, _ => return { s with
        supervisor := step.next, socket := none, jobs, due := (← IO.monoMsNow) + delay.millis }
    | _, _ => pure 0
  return { s with supervisor := step.next, jobs, due }

def connect (settings : Settings) : Async (Option TCP.Socket.Client) := do
  try
    let port := settings.port.toUInt16
    for address in ← DNS.getAddrInfo settings.host (toString settings.port) do
      try
        let socket ← TCP.Socket.Client.mk
        socket.connect <| match address with
          | .v4 addr => .v4 { addr, port }
          | .v6 addr => .v6 { addr, port }
        socket.noDelay
        return some socket
      catch _ => pure ()
    return none
  catch _ => return none

/-- Write bytes; what writing came to. -/
def write (socket : TCP.Socket.Client) (bytes : List UInt8) : Async (Option IoFault) := do
  try
    socket.send ⟨bytes.toArray⟩
    return none
  catch _ => return some .brokenPipe

/-- What comes next: an event, or a job from the prompt. -/
abbrev Next := Supervisor.Event ⊕ Job

/-- The prompt's end of the channel as a source of jobs. -/
def fromPrompt (prompt : CloseableChannel Job) (closed : Supervisor.Event) : Selectable Next :=
  .case prompt.recvSelector fun
    | some job => return .inr job
    | none => return .inl closed

/-- Wait for what comes next to a served connection. -/
def awaitServed (socket : TCP.Socket.Client) (prompt : CloseableChannel Job)
    (accepting : Bool) : Async Next := do
  let read : Selectable Next := .case (socket.recvSelector 8192) fun
    | some bytes => return .inl (.served (.read bytes.data.toList))
    | none => return .inl (.served (.read []))
  let sources := if accepting then #[read, fromPrompt prompt (.served .submissionsClosed)]
    else #[read]
  try Selectable.one sources
  catch _ => return .inl (.served (.readFault .readFailed))

/-- Wait for what comes next during the retry delay. -/
def awaitRetry (due : Nat) (prompt : CloseableChannel Job) : Async Next := do
  let left := due - (← IO.monoMsNow)
  let timer ← Selector.sleep (.ofNat left)
  Selectable.one #[.case timer fun _ => return .inl .retryDue, fromPrompt prompt .channelClosed]

/-- Serve the prompt until it has gone. -/
partial def run (settings : Settings) (prompt : CloseableChannel Job) (s : Service) :
    Async Unit := do
  match s.supervisor.phase, s.socket with
  | .stopped, _ => return
  | .connecting, _ =>
    match ← connect settings with
    | some socket => run settings prompt (← { s with socket := some socket }.take .connected)
    | none => run settings prompt (← s.take .refused)
  | .serving c, some socket =>
    match ← awaitServed socket prompt c.accepting with
    | .inl e => run settings prompt (← s.take e)
    | .inr job =>
      let fault ← write socket (c.connection.submit job.batch).1
      let s := { s with jobs := s.jobs ++ [job] }
      run settings prompt (← s.take (.served (.submission job.batch fault)))
  | .serving _, none => run settings prompt (← s.take (.served (.read [])))
  | .waiting _, _ =>
    match ← awaitRetry s.due prompt with
    | .inl e => run settings prompt (← s.take e)
    | .inr job =>
      run settings prompt (← { s with jobs := s.jobs ++ [job] }.take (.arrived job.batch))

end Service

/-! ## §2  The prompt in the foreground -/

/-- The next line with its end, and nothing at the end of the input. -/
partial def readLine (input : IO.FS.Stream) (line : List UInt8) : IO (List UInt8) := do
  match (← input.read 1).data.toList with
  | [] => return line.reverse
  | b :: _ => if b = 0x0A then return (b :: line).reverse else readLine input (b :: line)

/-- Make a request and wait for its reply. -/
def ask (settings : Settings) (prompt : CloseableChannel Job) (request : Request) (n : Nat) :
    IO Reply := do
  let slot : Slot := ⟨n⟩
  match request.submission slot with
  | .error e => return e.reply
  | .ok batch =>
    let promise ← IO.Promise.new
    unless ← prompt.trySend { batch, slot, promise } do
      return request.reply .notSubmitted
    let limit : Async Unit := do
      sleep (.ofNat settings.replyTimeout.millis)
      promise.resolve .timedOut
    discard limit.asTask
    return request.reply ((← IO.wait promise.result?).getD .lost)

/-- Read lines and print answers up to the end of the input; the exit code. -/
partial def converse (settings : Settings) (prompt : CloseableChannel Job) (p : Prompt)
    (n : Nat) : IO UInt32 := do
  let line ← readLine (← IO.getStdin) []
  if line.isEmpty then return 0
  match Utf8.decode (Terminal.withoutEnd line) with
  | .error fault =>
    IO.eprint (Terminal.inputReport fault)
    return 1
  | .ok text =>
    let (act, p) := p.read text
    match act with
    | .silent => pure ()
    | .say answer => IO.println answer
    | .ask request => IO.println (← ask settings prompt request n).print
    (← IO.getStdout).flush
    converse settings prompt p (n + 1)

def settings (args : List String) : IO (Except SettingsError Settings) := do
  match Arguments.scan {} args with
  | .error e => return .error e
  | .ok { file := none, flags } => return Settings.merge flags {}
  | .ok { file := some path, flags } =>
    let contents ← try
        let bytes ← IO.FS.readBinFile path
        pure (.ok bytes.data.toList)
      catch _ => pure (.error SettingsFile.notFound)
    return do Settings.merge flags (← SettingsFile.load path contents)

end RespClient.Main

/-- The program: settings from the arguments, then a conversation. -/
def main (args : List String) : IO UInt32 := do
  match ← RespClient.Main.settings args with
  | .error e =>
    IO.eprint (RespClient.Terminal.settingsReport e)
    return 1
  | .ok settings =>
    let prompt ← Std.CloseableChannel.new
    let backoff := RespClient.Backoff.new settings.retryInterval settings.maxRetryDelay
    let service ← (RespClient.Main.Service.run settings prompt { supervisor := { backoff } }).asTask
    let code ← RespClient.Main.converse settings prompt {} 0
    let _ ← prompt.close.toBaseIO
    if code = 0 then discard service.block
    return code
