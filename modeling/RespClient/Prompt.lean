import RespClient.Reply.Printer
import RespClient.Text.Blank
import RespClient.Transaction

/-!
# The prompt

One command per line, and one printed answer per line that holds a word.  Between
`MULTI` and `EXEC` commands are only recorded; then they go out as one transaction.  The
prompt itself never talks to a server: a line either has its answer at once or makes a
request, whose reply is printed.
-/

namespace RespClient

/-- What the prompt asks the client for. -/
inductive Request
  | single (c : Command)
  /-- The commands of a closed batch, at least one, as a transaction. -/
  | transaction (commands : List Command)
  deriving DecidableEq, Repr

namespace Request

/-- The batch that is handed to the channel; its reply goes to `slot`. -/
def submission (r : Request) (slot : Slot) : Except CommandError Submission :=
  match r with
  | .single c => .ok (.single (c.withSlot slot))
  | .transaction commands => Submission.transaction commands slot

/-- The reply that is printed, by how the wait for it ended. -/
def reply (r : Request) (trip : RoundTrip) : Reply :=
  match r with
  | .single _ => trip.dispatched
  | .transaction _ => trip.executed

end Request

structure Prompt where
  /-- The commands of the open batch, if one is open. -/
  batch : Option (List Command) := none
  deriving DecidableEq, Repr

namespace Prompt

/-! ## §1  Lines -/

inductive Act
  | silent
  | say (text : String)
  /-- The reply to a request is printed. -/
  | ask (request : Request)
  deriving DecidableEq, Repr

/-- A command line that is none of the prompt's own words. -/
def readCommand (p : Prompt) (name : String) (args : List String) : Act × Prompt :=
  match Command.ofName name args with
  | .error e => (.say e.reply.print, p)
  | .ok c =>
    match p.batch with
    | some batch => (.say "QUEUED", { p with batch := some (batch ++ [c]) })
    | none => (.ask (.single c), p)

def read (p : Prompt) (line : String) : Act × Prompt :=
  match Blank.words line with
  | [] => (.silent, p)
  | name :: args =>
    match name.toUpper, p.batch with
    | "MULTI", some _ => (.say "(error) ERR MULTI calls can not be nested", p)
    | "MULTI", none => (.say "OK", { p with batch := some [] })
    | "EXEC", some [] => (.say Transaction.emptyReply.print, { p with batch := none })
    | "EXEC", some batch => (.ask (.transaction batch), { p with batch := none })
    | "EXEC", none => (.say "(error) ERR EXEC without MULTI", p)
    | "DISCARD", some _ => (.say "OK", { p with batch := none })
    | "DISCARD", none => (.say "(error) ERR DISCARD without MULTI", p)
    | _, _ => p.readCommand name args

/-! ## §2  Conversations -/

/-- What a conversation printed and asked for. -/
structure Transcript where
  printed : List String := []
  asked : List Request := []
  deriving DecidableEq, Repr

/-- A conversation from line to line; the replies are those to the requests, in order. -/
def converse (p : Prompt) (replies : Nat → Reply) : List String → Transcript
  | [] => {}
  | line :: rest =>
    match p.read line with
    | (.silent, p) => p.converse replies rest
    | (.say text, p) =>
      let t := p.converse replies rest
      { t with printed := text :: t.printed }
    | (.ask request, p) =>
      let t := p.converse (fun n => replies (n + 1)) rest
      { printed := (replies 0).print :: t.printed, asked := request :: t.asked }

end Prompt

end RespClient
